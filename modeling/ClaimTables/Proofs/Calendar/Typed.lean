import ClaimTables.Proofs.Calendar.Spelling

/-!
Days as they are shown and typed. A year of more than four digits has a sign, and so has one before year 0. Main statement:
the text of every day of the calendar is read as that day.
-/

namespace ClaimTables.Date

open Text (isNumeral numeral? padded)

theorem number?_append {width : Nat} {digits rest : List Char} (hdigits : isNumeral digits = true)
    (hwidth : digits.length ≤ width) (hrest : ∀ c ∈ rest.head?, c.isDigit = false) :
    number? width (digits ++ rest) = (numeral? digits).map fun n => (n, rest) := by
  have hall : ∀ c ∈ digits, c.isDigit = true := by
    rw [isNumeral, Bool.and_eq_true, List.all_eq_true] at hdigits
    exact hdigits.2
  have hnone : ∀ k, (rest.take k).takeWhile Char.isDigit = [] := by
    intro k
    cases rest with
    | nil => simp
    | cons c more =>
      cases k with
      | zero => rfl
      | succ k => rw [List.take_succ_cons, List.takeWhile_cons_of_neg (by simp [hrest c rfl])]
  have hnumber : ((digits ++ rest).take width).takeWhile Char.isDigit = digits := by
    rw [List.take_append, List.take_of_length_le hwidth, List.takeWhile_append_of_pos hall, hnone, List.append_nil]
  rw [number?, hnumber, List.drop_left]

theorem isNumeral_padded (width n : Nat) : isNumeral (padded width n) = true :=
  (Text.numeral?_eq_some.1 (Text.numeral?_padded width n)).1

theorem number?_padded {width fill n : Nat} {rest : List Char} (hwidth : (padded fill n).length ≤ width)
    (hrest : ∀ c ∈ rest.head?, c.isDigit = false) : number? width (padded fill n ++ rest) = some (n, rest) := by
  rw [number?_append (isNumeral_padded fill n) hwidth hrest, Text.numeral?_padded, Option.map_some]

theorem not_blank_of_isDigit {c : Char} (hc : c.isDigit = true) : Text.isBlank c = false := by
  have hrange : 48 ≤ c.toNat ∧ c.toNat ≤ 57 := by
    simpa [Char.isDigit, UInt32.le_iff_toNat_le] using hc
  simp only [Text.isBlank, Bool.or_eq_false_iff, Bool.and_eq_false_iff, beq_eq_false_iff_ne, decide_eq_false_iff_not]
  omega

theorem part?_padded {n : Nat} {rest : List Char} (hn : n < 100) (hrest : ∀ c ∈ rest.head?, c.isDigit = false) :
    part? ('-' :: (padded 2 n ++ rest)) = some (n, rest) := by
  obtain ⟨c, cs, hcs, hc⟩ := Text.padded_eq_cons 2 n
  rw [part?, hcs, List.cons_append, List.dropWhile_cons_of_neg (by simp [not_blank_of_isDigit hc]), ← List.cons_append, ← hcs]
  have hlength : (padded 2 n).length = 2 := Text.length_padded (by decide) hn
  exact number?_padded (Nat.le_of_eq hlength) hrest

theorem year?_of_isDigit {c : Char} (hc : c.isDigit = true) (cs : List Char) :
    year? (c :: cs) = (number? 4 (c :: cs)).map fun p => ((p.1 : Int), p.2) := by
  rw [year?, List.dropWhile_cons_of_neg (by simp [not_blank_of_isDigit hc])]
  split
  · next heq => exact absurd hc ((List.cons.inj heq).1 ▸ by decide)
  · next heq => exact absurd hc ((List.cons.inj heq).1 ▸ by decide)
  · rfl

theorem year?_yearText (year : Int) {rest : List Char} (hrest : ∀ c ∈ rest.head?, c.isDigit = false) :
    year? (yearText year ++ rest) = some (year, rest) := by
  -- Behind a sign all that is left may be digits of the year.
  have hlong : ∀ n, number? (padded 4 n ++ rest).length (padded 4 n ++ rest) = some (n, rest) := fun n =>
    number?_padded (by simp) hrest
  by_cases hneg : year < 0
  · have hyear : yearText year = '-' :: padded 4 year.natAbs := if_pos hneg
    have hsign : ∀ cs, year? ('-' :: cs) = (number? cs.length cs).map fun p => (-(p.1 : Int), p.2) := fun _ => rfl
    rw [hyear, List.cons_append, hsign, hlong, Option.map_some]
    congr 2
    omega
  · by_cases hlarge : 9999 < year
    · have hyear : yearText year = '+' :: padded 4 year.natAbs := (if_neg hneg).trans (if_pos hlarge)
      have hsign : ∀ cs, year? ('+' :: cs) = (number? cs.length cs).map fun p => ((p.1 : Int), p.2) := fun _ => rfl
      rw [hyear, List.cons_append, hsign, hlong, Option.map_some]
      congr 2
      omega
    · have hyear : yearText year = padded 4 year.natAbs := (if_neg hneg).trans (if_neg hlarge)
      have hlength : (padded 4 year.natAbs).length = 4 := Text.length_padded (by decide) (by omega)
      obtain ⟨c, cs, hcs, hc⟩ := Text.padded_eq_cons 4 year.natAbs
      rw [hyear, hcs, List.cons_append, year?_of_isDigit hc, ← List.cons_append, ← hcs,
        number?_padded (Nat.le_of_eq hlength) hrest, Option.map_some]
      congr 2
      omega

theorem head?_text (d : Date) :
    (d.text.toList.head? = some '-' ↔ d.year < 0) ∧ (d.text.toList.head? = some '+' ↔ 9999 < d.year) := by
  have hhead : d.text.toList.head? = (yearText d.year).head? := by
    rw [text, String.toList_ofList, List.head?_append]
    obtain ⟨c, cs, hcs, -⟩ := Text.padded_eq_cons 4 d.year.natAbs
    unfold yearText
    split
    · rfl
    · split
      · rfl
      · rw [hcs]
        rfl
  obtain ⟨c, cs, hcs, hc⟩ := Text.padded_eq_cons 4 d.year.natAbs
  have hminus : c ≠ '-' := fun h => absurd hc (h ▸ by decide)
  have hplus : c ≠ '+' := fun h => absurd hc (h ▸ by decide)
  rw [hhead]
  by_cases hneg : d.year < 0
  · simp [yearText, hneg]
    omega
  · by_cases hlarge : 9999 < d.year
    · simp [yearText, hneg, hlarge]
    · simp [yearText, hneg, hlarge, hcs, hminus, hplus]

theorem ofText?_text (d : Date) : ofText? d.text = some d := by
  have hbounds := d.bounds
  have htext : d.text.toList = yearText d.year ++ '-' :: (padded 2 d.month ++ '-' :: (padded 2 d.day ++ [])) := by
    simp [text, monthDay]
  have hhyphen : ∀ rest : List Char, ∀ c ∈ ('-' :: rest).head?, c.isDigit = false := by simp
  have hend : ∀ c ∈ ([] : List Char).head?, c.isDigit = false := by simp
  rw [ofText?, htext, year?_yearText _ (hhyphen _)]
  simp only [Option.bind_eq_bind, Option.bind_some, part?_padded (show d.month < 100 by omega) (hhyphen _),
    part?_padded (show d.day < 100 by omega) hend]
  exact of?_eq_some.2 ⟨rfl, rfl, rfl⟩

end ClaimTables.Date
