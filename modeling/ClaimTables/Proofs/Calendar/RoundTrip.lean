import Mathlib.Algebra.Group.Nat.Defs
import ClaimTables.Calendar.Timestamp

/-!
Both spellings of a day are read back as the day: the stored one with its historical year and the queried one
with its astronomical year.
-/

namespace ClaimTables

theorem Text.isDigit_of_mem_padded {width n : Nat} {c : Char} (hc : c ∈ padded width n) : c.isDigit = true := by
  rcases List.mem_append.1 hc with hc | hc
  · rw [List.eq_of_mem_replicate hc]
    decide
  · exact isDigit_of_mem_digits hc

theorem Text.not_mem_padded {c : Char} (hc : c.isDigit = false) (width n : Nat) : c ∉ padded width n :=
  fun hmem => Bool.noConfusion (hc.symm.trans (isDigit_of_mem_padded hmem))

theorem Text.padded_eq_cons (width n : Nat) : ∃ c cs, padded width n = c :: cs ∧ c.isDigit = true := by
  obtain ⟨c, cs, hcs⟩ := List.exists_cons_of_ne_nil
    (show padded width n ≠ [] from List.append_ne_nil_of_right_ne_nil _ Nat.toDigits_ne_nil)
  exact ⟨c, cs, hcs, isDigit_of_mem_padded (hcs ▸ List.mem_cons_self)⟩

theorem Text.length_padded {width n : Nat} (hwidth : 0 < width) (hn : n < 10 ^ width) : (padded width n).length = width := by
  have hle : (digits n).length ≤ width := (Nat.length_toDigits_le_iff (by decide) hwidth).2 hn
  rw [padded, List.length_append, List.length_replicate]
  omega

namespace Timestamp

def spelled (year : Nat) (d : Date) : List Char :=
  Text.padded 4 year ++ d.monthDay ++ midnight

theorem numbers?_spelled (year : Nat) (d : Date) : numbers? (spelled year d) = some (year, d.month, d.day) := by
  have hyear := Text.not_mem_padded (c := '-') rfl 4 year
  have hmonth := Text.not_mem_padded (c := '-') rfl 2 d.month
  have hday := Text.not_mem_padded (c := '-') rfl 2 d.day
  have hdate : (spelled year d).takeWhile (· ≠ 'T') = Text.padded 4 year ++ d.monthDay := by
    have hno : ∀ c ∈ Text.padded 4 year ++ d.monthDay, decide (c ≠ 'T') = true := by
      intro c hc
      simp only [Date.monthDay, List.mem_append, List.mem_cons] at hc
      rw [decide_eq_true_eq]
      rintro rfl
      rcases hc with hc | (hc | hc) | hc | hc
      · exact Text.not_mem_padded rfl 4 year hc
      · exact absurd hc (by decide)
      · exact Text.not_mem_padded rfl 2 d.month hc
      · exact absurd hc (by decide)
      · exact Text.not_mem_padded rfl 2 d.day hc
    rw [spelled, List.takeWhile_append_of_pos hno]
    exact List.append_nil _
  have hparts : (Text.padded 4 year ++ d.monthDay).splitOn '-' =
      [Text.padded 4 year, Text.padded 2 d.month, Text.padded 2 d.day] := by
    rw [Date.monthDay, List.cons_append, List.splitOn_append_cons_self_of_not_mem hyear,
      List.splitOn_append_cons_self_of_not_mem hmonth, List.splitOn_eq_singleton hday]
  unfold numbers?
  rw [hdate, hparts]
  simp only [Text.numeral?_padded]
  rfl

theorem parts?_minus (year : Nat) (d : Date) :
    parts? (String.ofList ('-' :: spelled year d)) = some (-(year : Int), d.month, d.day) := by
  simp only [parts?, String.toList_ofList, numbers?_spelled, Option.map_some]

theorem parts?_plus (year : Nat) (d : Date) :
    parts? (String.ofList ('+' :: spelled year d)) = some ((year : Int), d.month, d.day) := by
  simp only [parts?, String.toList_ofList, numbers?_spelled, Option.map_some]

theorem parts?_bare (year : Nat) (d : Date) :
    parts? (String.ofList (spelled year d)) = some ((year : Int), d.month, d.day) := by
  have hread := numbers?_spelled year d
  obtain ⟨c, cs, hcs, hc⟩ := Text.padded_eq_cons 4 year
  unfold parts?
  rw [String.toList_ofList]
  split
  · next heq =>
    rw [spelled, hcs] at heq
    obtain ⟨rfl, _⟩ := List.cons.inj heq
    exact absurd hc (by decide)
  · next heq =>
    rw [spelled, hcs] at heq
    obtain ⟨rfl, _⟩ := List.cons.inj heq
    exact absurd hc (by decide)
  · rw [hread]
    rfl

theorem ofStored?_stored (d : Date) : ofStored? (stored d) = some d := by
  have hparts : parts? (stored d) = some (historical d.year, d.month, d.day) := by
    by_cases hneg : historical d.year < 0
    · have htext : stored d = String.ofList ('-' :: spelled (historical d.year).natAbs d) := by
        simp only [stored, if_pos hneg, spelled, List.cons_append]
      rw [htext, parts?_minus]
      congr 2
      omega
    · have htext : stored d = String.ofList ('+' :: spelled (historical d.year).natAbs d) := by
        simp only [stored, if_neg hneg, spelled, List.cons_append]
      rw [htext, parts?_plus]
      congr 2
      omega
  simp only [ofStored?, hparts, astronomical?_historical, Option.bind_eq_bind, Option.bind_some]
  exact Date.of?_eq_some.2 ⟨rfl, rfl, rfl⟩

theorem ofQueried?_queried (d : Date) : ofQueried? (queried d) = some d := by
  have hparts : parts? (queried d) = some (d.year, d.month, d.day) := by
    by_cases hneg : d.year < 0
    · have htext : queried d = String.ofList ('-' :: spelled d.year.natAbs d) := by
        simp only [queried, if_pos hneg, spelled, List.cons_append, List.nil_append, List.append_assoc]
      rw [htext, parts?_minus]
      congr 2
      omega
    · have htext : queried d = String.ofList (spelled d.year.natAbs d) := by
        simp only [queried, if_neg hneg, spelled, List.nil_append]
      rw [htext, parts?_bare]
      congr 2
      omega
  simp only [ofQueried?, hparts, Option.bind_eq_bind, Option.bind_some]
  exact Date.of?_eq_some.2 ⟨rfl, rfl, rfl⟩

end Timestamp

end ClaimTables
