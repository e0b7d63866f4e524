import ClaimTables.Proofs.Query.Translation
import ClaimTables.Proofs.Row.Kept
import ClaimTables.Proofs.Schema.Hierarchy

/-!
What becomes of a value that a field may have. Unless it is null, it is encoded as a claim and as a statement, and rows
with it can be asked for; and the claims of the field can be brought in line with it.
-/

namespace ClaimTables

open Sparql (Term)

variable {s : Schema} {model : String} {f : ResolvedField} {v : Value}

theorem Schema.Effective.of_declaring (h : s.Effective f) :
    ∃ fields, s.fields f.declaredBy = .ok fields ∧ f ∈ fields := by
  obtain ⟨model, fields, hfields, hf⟩ := h
  obtain ⟨chain, hchain, rfl⟩ := fields_eq_ok.1 hfields
  obtain ⟨m, hm, hfm⟩ := List.mem_flatMap.1 hf
  obtain ⟨field, -, rfl⟩ := List.mem_map.1 hfm
  obtain ⟨above, habove, -⟩ := hchain.of_mem hm
  refine ⟨_, fields_eq_ok.2 ⟨above, habove, rfl⟩, List.mem_flatMap.2 ⟨m, ?_, hfm⟩⟩
  exact habove.mem_of_model (model_of_mem_ancestry (ancestry_eq_ok.2 hchain) hm)

theorem Path.segments_of_isIdentifier {name : String} (h : Schema.isIdentifier name = true) :
    segments name = [name] ∧ name.isEmpty = false := by
  have hdot : '.' ∉ name.toList := fun hmem => absurd (Schema.forall_of_isIdentifier h '.' hmem) (by decide)
  refine ⟨?_, ?_⟩
  · rw [segments, List.splitOn_eq_singleton hdot, List.map_singleton, String.ofList_toList]
  · cases hempty : name.isEmpty with
    | false => rfl
    | true =>
      obtain rfl := String.isEmpty_iff.1 hempty
      cases h

theorem Path.walk_field (hs : s.Valid) {fields : List ResolvedField} (hfields : s.fields model = .ok fields)
    (hf : f ∈ fields) : walk s model f.field.name = ⟨[f], .ok (.field f.field.type)⟩ := by
  have hvalid := hs.fieldValid hfields hf
  obtain ⟨hsegments, hempty⟩ := segments_of_isIdentifier hvalid.identifier
  rw [walk, if_neg hvalid.not_id, hsegments, if_neg (by simp [hempty]), follow, if_neg fun h => hvalid.not_id h.1,
    hs.field_of_mem hfields hf]
  exact if_pos rfl

/-- What is made of a value other than null where it is written and where it is looked for. -/
structure Encodable (s : Schema) (f : ResolvedField) (v : Value) : Prop where
  snak : ∃ stored, Claim.snak v = .ok stored
  datavalue : ∃ stored, Claim.datavalue v = .ok stored
  term : ∃ term, Term.ofValue v = .ok term
  statement : ∀ model p, ∃ statement, Tables.valueStatement model f p v = .ok statement
  lookup : ∃ fields outline, s.fields f.declaredBy = .ok fields ∧
    (Query.havingValue f.field.name v).outline s f.declaredBy fields false = .ok outline

theorem outline_havingValue (hs : s.Valid) {fields : List ResolvedField} (hfields : s.fields model = .ok fields)
    (hf : f ∈ fields) (hnull : v.isNull = false) (hfits : v.fits f.field.type = true) {term : Term}
    (hterm : Term.ofValue v = .ok term) :
    (Query.havingValue f.field.name v).outline s model fields false =
      .ok (.ofParts fields [(⟨[f], .field f.field.type⟩, .compare .equal term)] []) := by
  have htest (refuse : String → Error) : Condition.test refuse (.field f.field.type) (.compare .equal v) =
      .ok (.compare .equal term) := by
    simp only [Condition.test, Comparison.isRange, Condition.term, hnull, hfits, hterm]
    rfl
  have hread : Filter.read s model ⟨f.field.name, .compare .equal v⟩ =
      .ok (⟨[f], .field f.field.type⟩, .compare .equal term) := by
    simp only [Filter.read, Path.walk_field hs hfields hf, Walk.reached, Except.map, bind, Except.bind, htest]
  simp only [Query.outline, Query.havingValue, Query.orderFor, Query.all, Bool.false_eq_true, if_false, List.mapM_cons,
    List.mapM_nil, hread, bind, Except.bind, pure, Except.pure]

theorem exists_term_of_datavalue {stored : Json} (h : Claim.datavalue v = .ok stored) : ∃ term, Term.ofValue v = .ok term := by
  obtain ⟨value, hvalue, -⟩ := Claim.datavalue_eq_ok h
  have hok := Term.ofValue_isOk_iff v
  rw [hvalue] at hok
  cases hterm : Term.ofValue v with
  | ok term => exact ⟨term, rfl⟩
  | error why =>
    rw [hterm] at hok
    cases hok

theorem encodable_of_allowed (hs : s.Valid) (hf : s.Effective f) (hallowed : Values.Allowed f v) (hnull : v.isNull = false) :
    Encodable s f v := by
  obtain ⟨hfits, stored, hstored⟩ := hallowed.resolve_left fun h => by simp [hnull] at h
  obtain ⟨value, hvalue, -⟩ := Claim.datavalue_eq_ok hstored
  obtain ⟨term, hterm⟩ := exists_term_of_datavalue hstored
  obtain ⟨fields, hfields, hmem⟩ := hf.of_declaring
  refine ⟨⟨value, hvalue⟩, ⟨stored, hstored⟩, ⟨term, hterm⟩, fun model p => ?_, fields, _, hfields,
    outline_havingValue hs hfields hmem hnull hfits hterm⟩
  exact ⟨Claim.statement p stored, by rw [Tables.valueStatement, hstored]⟩

theorem encodable_of_validate (hs : s.Valid) {values : Values} {creating : Bool} {checked : CheckedValues}
    (h : values.validate s model creating = .ok checked) : ∀ e ∈ checked, e.2.isNull = false → Encodable s e.1 e.2 :=
  fun e he => encodable_of_allowed hs (Values.effective_of_validate h e he) (Values.given_of_validate h he).2.2

theorem exists_plan_of_allowed (hallowed : Values.Allowed f v) (stored : List StoredClaim) :
    ∃ edits, ClaimEdit.plan f.field.type v stored = .ok edits := by
  rcases hallowed with ⟨hnull, -⟩ | ⟨-, value, hvalue⟩
  · exact ⟨_, by rw [ClaimEdit.plan, if_pos hnull]⟩
  · obtain ⟨snak, hsnak, -⟩ := Claim.datavalue_eq_ok hvalue
    have hnull : ¬v.isNull = true := by
      intro hnull
      obtain rfl := Value.eq_null_of_isNull hnull
      cases hsnak
    exact ⟨_, by rw [ClaimEdit.plan, if_neg hnull, hsnak]; rfl⟩

end ClaimTables
