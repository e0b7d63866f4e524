import ClaimTables.Proofs.Calendar.RoundTrip

/-!
How a day is spelled for the two readers: up to the first letter T there is one sign or none, then the digits of the year, the
month and the day, with hyphens between them. The readers take exactly what is spelled so.
-/

namespace ClaimTables

theorem Date.bounds (d : Date) :
    (-262143 ≤ d.year ∧ d.year ≤ 262142) ∧ (1 ≤ d.month ∧ d.month ≤ 12) ∧ 1 ≤ d.day ∧ d.day ≤ 31 := by
  have hlength : Calendar.monthLength d.year d.month ≤ 31 := by
    unfold Calendar.monthLength
    split
    · split <;> decide
    all_goals decide
  have hvalid := d.valid
  simp only [Calendar.isDate, Bool.and_eq_true, decide_eq_true_eq] at hvalid
  omega

namespace Text

theorem numeral?_eq_some {cs : List Char} {n : Nat} :
    numeral? cs = some n ↔ isNumeral cs = true ∧ Nat.ofDigitChars 10 cs 0 = n := by
  simp only [numeral?, Option.ite_none_right_eq_some, Option.some.injEq]

theorem notMem_of_isNumeral {cs : List Char} (h : isNumeral cs = true) : '-' ∉ cs := by
  rw [isNumeral, Bool.and_eq_true, List.all_eq_true] at h
  exact fun hmem => absurd (h.2 '-' hmem) (by decide)

theorem exists_cons_of_isNumeral {cs : List Char} (h : isNumeral cs = true) :
    ∃ c rest, cs = c :: rest ∧ c.isDigit = true := by
  rw [isNumeral, Bool.and_eq_true, List.all_eq_true] at h
  cases cs with
  | nil => cases h.1
  | cons c rest => exact ⟨c, rest, rfl, h.2 c List.mem_cons_self⟩

end Text

namespace Timestamp

inductive Sign where
  | none
  | plus
  | minus
deriving DecidableEq

namespace Sign

def chars : Sign → List Char
  | .none => []
  | .plus => ['+']
  | .minus => ['-']

def apply : Sign → Nat → Int
  | .minus, n => -n
  | .none, n | .plus, n => n

def split : List Char → Sign × List Char
  | '-' :: cs => (.minus, cs)
  | '+' :: cs => (.plus, cs)
  | cs => (.none, cs)

theorem chars_split (cs : List Char) : (split cs).1.chars ++ (split cs).2 = cs := by
  unfold split
  split <;> rfl

theorem split_append (sign : Sign) {c : Char} (hc : c.isDigit = true) (cs : List Char) :
    split (sign.chars ++ c :: cs) = (sign, c :: cs) := by
  cases sign with
  | plus | minus => rfl
  | none =>
    refine split.eq_3 _ (fun cs' h => ?_) fun cs' h => ?_
    · obtain ⟨rfl, -⟩ := List.cons.inj h
      exact absurd hc (by decide)
    · obtain ⟨rfl, -⟩ := List.cons.inj h
      exact absurd hc (by decide)

theorem isSign_chars (sign : Sign) : ∀ c ∈ sign.chars, decide (c ≠ 'T') = true := by
  intro c hc
  cases sign with
  | none => exact absurd hc List.not_mem_nil
  | plus | minus =>
    rw [List.mem_singleton.1 hc]
    rfl

end Sign

theorem parts?_eq (s : String) : parts? s =
    (numbers? (Sign.split s.toList).2).map fun p => ((Sign.split s.toList).1.apply p.1, p.2) := by
  unfold parts?
  split
  · next cs h => rw [h]; rfl
  · next cs h => rw [h]; rfl
  · next hminus hplus =>
    rw [Sign.split.eq_3 _ (fun cs h => hminus cs h) fun cs h => hplus cs h]
    rfl

structure Spelling where
  sign : Sign
  year : List Char
  month : List Char
  day : List Char
  year_isNumeral : Text.isNumeral year = true
  month_isNumeral : Text.isNumeral month = true
  day_isNumeral : Text.isNumeral day = true

namespace Spelling

def digits (p : Spelling) : List Char :=
  p.year ++ '-' :: (p.month ++ '-' :: p.day)

def chars (p : Spelling) : List Char :=
  p.sign.chars ++ p.digits

def Begins (p : Spelling) (s : String) : Prop :=
  s.toList.takeWhile (· ≠ 'T') = p.chars

def signedYear (p : Spelling) : Int :=
  p.sign.apply (Nat.ofDigitChars 10 p.year 0)

/-- The year that a spelling means where years are counted historically: the year -1 is the year 0. -/
def historicalYear (p : Spelling) : Int :=
  if p.signedYear < 0 then p.signedYear + 1 else p.signedYear

def numbers (p : Spelling) : Nat × Nat × Nat :=
  (Nat.ofDigitChars 10 p.year 0, Nat.ofDigitChars 10 p.month 0, Nat.ofDigitChars 10 p.day 0)

def Denotes (p : Spelling) (year : Int) (d : Date) : Prop :=
  d.year = year ∧ d.month = Nat.ofDigitChars 10 p.month 0 ∧ d.day = Nat.ofDigitChars 10 p.day 0

end Spelling

theorem numbers?_digits {p : Spelling} {cs : List Char} (h : cs.takeWhile (· ≠ 'T') = p.digits) :
    numbers? cs = some p.numbers := by
  have hpieces : p.digits.splitOn '-' = [p.year, p.month, p.day] := by
    rw [Spelling.digits, List.splitOn_append_cons_self_of_not_mem (Text.notMem_of_isNumeral p.year_isNumeral),
      List.splitOn_append_cons_self_of_not_mem (Text.notMem_of_isNumeral p.month_isNumeral),
      List.splitOn_eq_singleton (Text.notMem_of_isNumeral p.day_isNumeral)]
  have hyear := Text.numeral?_eq_some.2 ⟨p.year_isNumeral, rfl⟩
  have hmonth := Text.numeral?_eq_some.2 ⟨p.month_isNumeral, rfl⟩
  have hday := Text.numeral?_eq_some.2 ⟨p.day_isNumeral, rfl⟩
  unfold numbers?
  rw [h, hpieces]
  simp only [hyear, hmonth, hday, Option.bind_eq_bind, Option.bind_some]
  rfl

theorem exists_spelling_of_numbers? {cs : List Char} {n : Nat × Nat × Nat} (sign : Sign) (h : numbers? cs = some n) :
    ∃ p : Spelling, p.sign = sign ∧ cs.takeWhile (· ≠ 'T') = p.digits ∧ p.numbers = n := by
  unfold numbers? at h
  split at h
  · next year month day hpieces =>
    simp only [Option.bind_eq_bind, Option.bind_eq_some_iff, Text.numeral?_eq_some] at h
    obtain ⟨_, ⟨hyear, rfl⟩, _, ⟨hmonth, rfl⟩, _, ⟨hday, rfl⟩, hn⟩ := h
    refine ⟨⟨sign, year, month, day, hyear, hmonth, hday⟩, rfl, ?_, Option.some.inj hn⟩
    have hjoined : ['-'].intercalate ((cs.takeWhile (· ≠ 'T')).splitOn '-') = cs.takeWhile (· ≠ 'T') :=
      List.intercalate_splitOn '-'
    rw [hpieces] at hjoined
    simpa [Spelling.digits, List.intercalate] using hjoined.symm
  · cases h

theorem begins_iff (p : Spelling) (s : String) :
    p.Begins s ↔ Sign.split s.toList = (p.sign, (Sign.split s.toList).2) ∧
      (Sign.split s.toList).2.takeWhile (· ≠ 'T') = p.digits := by
  constructor
  · intro h
    obtain ⟨c, rest, hyear, hc⟩ := Text.exists_cons_of_isNumeral p.year_isNumeral
    have hs := List.takeWhile_append_dropWhile (p := (· ≠ 'T')) (l := s.toList)
    rw [Spelling.Begins] at h
    rw [h, Spelling.chars, Spelling.digits, hyear, List.cons_append, List.append_assoc, List.cons_append] at hs
    have hsplit := Sign.split_append p.sign hc (rest ++ '-' :: (p.month ++ '-' :: p.day) ++ s.toList.dropWhile (· ≠ 'T'))
    rw [hs] at hsplit
    rw [hsplit]
    refine ⟨rfl, ?_⟩
    rw [← hs, List.takeWhile_append_of_pos p.sign.isSign_chars] at h
    exact List.append_cancel_left h
  · rintro ⟨hsplit, htake⟩
    have hs := Sign.chars_split s.toList
    rw [hsplit] at hs
    rw [Spelling.Begins, ← hs, List.takeWhile_append_of_pos p.sign.isSign_chars, htake]
    rfl

theorem parts?_eq_some {s : String} {parts : Int × Nat × Nat} :
    parts? s = some parts ↔ ∃ p : Spelling, p.Begins s ∧ (p.signedYear, p.numbers.2) = parts := by
  rw [parts?_eq, Option.map_eq_some_iff]
  constructor
  · rintro ⟨n, hn, rfl⟩
    obtain ⟨p, hsign, hdigits, rfl⟩ := exists_spelling_of_numbers? (Sign.split s.toList).1 hn
    exact ⟨p, (begins_iff p s).2 ⟨by rw [hsign], hdigits⟩, by rw [Spelling.signedYear, hsign]; rfl⟩
  · rintro ⟨p, hp, rfl⟩
    obtain ⟨hsplit, hdigits⟩ := (begins_iff p s).1 hp
    exact ⟨p.numbers, numbers?_digits hdigits, by rw [hsplit]; rfl⟩

theorem ofQueried?_eq_some {s : String} {d : Date} :
    ofQueried? s = some d ↔ ∃ p : Spelling, p.Begins s ∧ p.Denotes p.signedYear d := by
  simp only [ofQueried?, Option.bind_eq_bind, Option.bind_eq_some_iff, parts?_eq_some, Date.of?_eq_some]
  constructor
  · rintro ⟨_, ⟨p, hp, rfl⟩, hd⟩
    exact ⟨p, hp, hd⟩
  · rintro ⟨p, hp, hd⟩
    exact ⟨_, ⟨p, hp, rfl⟩, hd⟩

theorem astronomical?_eq_some {year y : Int} :
    astronomical? year = some y ↔ year ≠ 0 ∧ y = if year < 0 then year + 1 else year := by
  unfold astronomical?
  split
  · next h => exact iff_of_false (fun h' => nomatch h') fun h' => h'.1 h
  · next h =>
    split <;> simp [h, eq_comm]

theorem ofStored?_eq_some {s : String} {d : Date} :
    ofStored? s = some d ↔ ∃ p : Spelling, p.Begins s ∧ p.signedYear ≠ 0 ∧ p.Denotes p.historicalYear d := by
  simp only [ofStored?, Option.bind_eq_bind, Option.bind_eq_some_iff, parts?_eq_some, astronomical?_eq_some,
    Date.of?_eq_some]
  constructor
  · rintro ⟨_, ⟨p, hp, rfl⟩, _, ⟨hzero, rfl⟩, hd⟩
    exact ⟨p, hp, hzero, hd⟩
  · rintro ⟨p, hp, hzero, hd⟩
    exact ⟨_, ⟨p, hp, rfl⟩, _, ⟨hzero, rfl⟩, hd⟩

end Timestamp

end ClaimTables
