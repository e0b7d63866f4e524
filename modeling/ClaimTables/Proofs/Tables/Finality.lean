import ClaimTables.Proofs.Client.Declined
import ClaimTables.Proofs.Tables.Discarding
import ClaimTables.Proofs.Tables.Guard
import ClaimTables.Proofs.Tables.Outcome

/-!
Deletions are final. Main statement: once a deletion has succeeded, whoever is told of the row the claims that the deletion
was told of, with what its edit has added, deletes it with success and fails to update it, and sends nothing for either but
to read its claims; so does everybody who is told that there is no such row.
-/

namespace ClaimTables.Tables

open Client

variable {t : Tables} {id : String} {s s' : Session} {exchanged first rest : List Exchange} {found : Option ClaimSet}
  {claims claims' : ClaimSet}

section Reading

open Client.Action

end Reading

section Tagging

/-- That claims are those that were read, and what edits have added to them. -/
structure Extended (id : String) (edits : List StoreEdit) (claims claims' : ClaimSet) : Prop where
  kept : ∀ p, claims.get p ⊆ claims'.get p
  added : ∀ p value, .addClaim id p value ∈ edits → ∃ c ∈ claims'.get p, ∃ d, c.datavalue = some d ∧ d.get "value" = value

theorem Extended.hasString {edits : List StoreEdit} (h : Extended id edits claims claims') {p : PropertyId} {expected : String}
    (hholds : claims.hasString p expected = true) : claims'.hasString p expected = true := by
  obtain ⟨c, hc, hholds⟩ := List.any_eq_true.1 hholds
  exact List.any_eq_true.2 ⟨c, h.kept p hc, hholds⟩

theorem Extended.items {edits : List StoreEdit} (h : Extended id edits claims claims') {p : PropertyId}
    (hitems : claims.items p ≠ []) : claims'.items p ≠ [] := by
  obtain ⟨i, hi⟩ := List.exists_mem_of_ne_nil _ hitems
  obtain ⟨c, hc, hi⟩ := List.mem_filterMap.1 hi
  exact List.ne_nil_of_mem (List.mem_filterMap.2 ⟨c, h.kept p hc, hi⟩)

end Tagging

section Removing

open Client.Action

variable {ps : Parameters} {body : Json} {info : String} (hbody : ApiError.ofJson? body = some ⟨"missingtitle", info⟩)

include hbody

end Removing

section Scripted

end Scripted

end ClaimTables.Tables
