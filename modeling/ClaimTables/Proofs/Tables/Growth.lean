import ClaimTables.Proofs.Tables.Creations

/-!
Nothing is forgotten but on purpose. Main statement: whatever is done with tables, apart from forgetting all mappings,
what was known before is known after it; so between two such moments what is known only grows.
-/

namespace ClaimTables.Tables

open Tables.Action

variable {t : Tables} {W : Type} {world : World W} {m m' : Mappings}

theorem Action.Maintains.of_gains {α : Type} {x : Action α} (hx : ∀ m s w, x.Gains world m s w fun _ _ => True)
    (first : Mappings) : x.Maintains world (fun m _ => first.Within m) fun _ => True :=
  fun m s w hm => Ensures.mono (hx m s w) fun _ _ _ _ h => ⟨hm.trans h.1, fun _ _ => True.intro⟩

theorem steady_within (t : Tables) (world : World W) (first : Mappings) : t.Steady world fun m _ => first.Within m where
  property f _ := .of_gains (fun _ _ _ => (t.gains_lookUpProperty f).mono fun _ _ _ _ => trivial) first
  owner _ _ _ k hnone hm := hm.trans (Mappings.within_owner hnone k)
  type model _ parent := .of_gains (fun _ _ _ => (t.gains_typeBelow model.name parent).mono fun _ _ _ _ => trivial) first
  query _ _ _ _ hm := Dialogue.ensures_of_kept (I := fun _ => first.Within _) hm fun _ _ _ _ hm _ => hm

theorem perform_within (t : Tables) {op : Operation} (hop : op ≠ .clear) (m : Mappings) (s : Session) (w : W) :
    (op.perform t).Ensures world m s w fun _ m' _ _ => m.Within m' := by
  have hperform := (t.steady_within world m).perform (fun _ _ _ _ hm => ?_) hop fun _ _ => ?_
  · exact (hperform m s w (.refl m)).mono fun _ _ _ _ h => h.1
  · exact Dialogue.ensures_of_kept (I := fun _ => m.Within _) hm fun _ _ _ _ hm _ => hm
  · refine .of_gains (fun _ _ _ => ?_) m
    rw [insert_eq]
    exact (t.gains_rowItem _ _).bind fun data _ _ _ _ _ => (Gains.of_client _).mono fun _ _ _ _ => trivial

/-- What is known after operations of which none forgets, each begun where the one before ended, whatever came of it. -/
inductive Epoch (t : Tables) : Mappings → Mappings → Prop
  | refl (m : Mappings) : Epoch t m m
  | step {m m₁ m₂ : Mappings} {s s₁ : Session} {op : Operation} {exchanged : List Exchange} {r : Except Error Unit}
    (hop : op ≠ .clear) (h : (op.perform t).Goes m s exchanged r m₁ s₁) (hrest : Epoch t m₁ m₂) : Epoch t m m₂

theorem Epoch.within (h : t.Epoch m m') : m.Within m' := by
  induction h with
  | refl m => exact .refl m
  | step hop h _ ih => exact (Ensures.goes (t.perform_within hop _ _ _) h).trans ih

end ClaimTables.Tables
