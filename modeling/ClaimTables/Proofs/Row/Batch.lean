import ClaimTables.Proofs.Row.Checked
import Mathlib.Data.List.Forall2

/-!
What the check of a batch promises: no two of its rows share a value that has to be unique.
-/

namespace ClaimTables

namespace CheckedValues

def Apart (a b : CheckedValues) : Prop :=
  ∀ e ∈ a.unique, ∀ e' ∈ b.unique, e.1.field.name = e'.1.field.name → e.2.equals e'.2 = false

def Unmarked (seen : List Mark) (row : CheckedValues) : Prop :=
  ∀ m ∈ seen, ∀ e ∈ row, m.field = e.1.field.name → m.value.equals e.2 = false

variable {model : String}

theorem mark_eq_ok {index : Nat} {seen later : List Mark} {row : CheckedValues}
    (h : mark model index seen row = .ok later) :
    later = seen ++ row.map (fun e => ⟨e.1.field.name, e.2, index⟩) ∧ Unmarked seen row := by
  induction row generalizing seen with
  | nil =>
    obtain rfl := Except.ok.inj h
    exact ⟨by simp, fun m _ e he => nomatch he⟩
  | cons e rest ih =>
    obtain ⟨f, v⟩ := e
    rw [mark] at h
    split at h
    · exact nomatch h
    · next hnone =>
      obtain ⟨rfl, hrest⟩ := ih h
      refine ⟨by simp, fun m hm e he hfield => ?_⟩
      rcases List.mem_cons.1 he with rfl | he
      · have hno := List.find?_eq_none.1 hnone m hm
        simpa [hfield] using hno
      · exact hrest m (List.mem_append_left _ hm) e he hfield

theorem markAll_eq_ok {index : Nat} {seen : List Mark} {rows : List CheckedValues}
    (h : markAll model index seen rows = .ok ()) :
    (∀ row ∈ rows, Unmarked seen row.unique) ∧ rows.Pairwise Apart := by
  induction rows generalizing index seen with
  | nil => exact ⟨by simp, .nil⟩
  | cons row rest ih =>
    rw [markAll] at h
    cases hmark : mark model index seen row.unique with
    | error e =>
      rw [hmark] at h
      exact nomatch h
    | ok later =>
      rw [hmark] at h
      obtain ⟨rfl, hrow⟩ := mark_eq_ok hmark
      obtain ⟨hseen, hrest⟩ := ih h
      refine ⟨List.forall_mem_cons.2 ⟨hrow, fun other hother m hm => ?_⟩, List.pairwise_cons.2 ⟨fun other hother => ?_, hrest⟩⟩
      · exact hseen other hother m (List.mem_append_left _ hm)
      · intro e he e' he' hfield
        have hmarked : (⟨e.1.field.name, e.2, index⟩ : Mark) ∈
            seen ++ row.unique.map fun e => ⟨e.1.field.name, e.2, index⟩ :=
          List.mem_append_right _ (List.mem_map_of_mem he)
        exact hseen other hother _ hmarked e' he' hfield

theorem checkBatch_eq_ok {rows : List CheckedValues} (h : checkBatch model rows = .ok ()) : rows.Pairwise Apart :=
  (markAll_eq_ok h).2

end CheckedValues

end ClaimTables
