import ClaimTables.Proofs.Calendar.Spelling
import ClaimTables.Sparql.Solutions

/-!
Reading days with numbers of 32 bits: a year has a sign, a month and a day have none, and digits that say more than fits are
refused. Changing the sign of a year or going on to the next year never leaves the range, and the days are those that are read
without bounds.
-/

namespace ClaimTables.Timestamp

inductive Overflow where
  | overflow (value : Int)
deriving DecidableEq

namespace Narrow

def checked (n : Int) : Except Overflow Int :=
  if -2147483648 ≤ n ∧ n < 2147483648 then .ok n else .error (.overflow n)

def numeral? (bound : Nat) (cs : List Char) : Option Nat :=
  (Text.numeral? cs).filter (· < bound)

def numbers? (cs : List Char) : Option (Nat × Nat × Nat) :=
  match (cs.takeWhile (· ≠ 'T')).splitOn '-' with
  | [year, month, day] => do
    let year ← numeral? (2147483648) year
    let month ← numeral? (4294967296) month
    let day ← numeral? (4294967296) day
    some (year, month, day)
  | _ => none

def signed : Sign → Nat → Except Overflow Int
  | .minus, n => checked (-n)
  | .none, n | .plus, n => .ok n

def parts (s : String) : Except Overflow (Option (Int × Nat × Nat)) :=
  let (sign, cs) := Sign.split s.toList
  match numbers? cs with
  | some (year, rest) => (signed sign year).map fun year => some (year, rest)
  | none => .ok none

def ofQueried (s : String) : Except Overflow (Option Date) := do
  match ← parts s with
  | some (year, month, day) => pure (Date.of? year month day)
  | none => pure none

def historicalDay (year : Int) (month day : Nat) : Except Overflow (Option Date) :=
  if year = 0 then .ok none
  else if year < 0 then (checked (year + 1)).map fun year => Date.of? year month day
  else .ok (Date.of? year month day)

def ofStored (s : String) : Except Overflow (Option Date) := do
  match ← parts s with
  | some (year, month, day) => historicalDay year month day
  | none => pure none

def fits : Nat × Nat × Nat → Bool
  | (year, month, day) => year < 2147483648 && month < 4294967296 && day < 4294967296

theorem numbers?_eq (cs : List Char) : numbers? cs = (Timestamp.numbers? cs).filter fits := by
  unfold numbers? Timestamp.numbers?
  generalize (cs.takeWhile (· ≠ 'T')).splitOn '-' = pieces
  match pieces with
  | [year, month, day] =>
    ext ⟨y, m, d⟩
    simp only [numeral?, fits, Option.bind_eq_bind, Option.bind_eq_some_iff, Option.filter_eq_some_iff, Option.some.injEq,
      Prod.mk.injEq, Bool.and_eq_true, decide_eq_true_eq]
    constructor
    · rintro ⟨_, ⟨hyear, hy⟩, _, ⟨hmonth, hm⟩, _, ⟨hday, hd⟩, rfl, rfl, rfl⟩
      exact ⟨⟨_, hyear, _, hmonth, _, hday, rfl, rfl, rfl⟩, ⟨hy, hm⟩, hd⟩
    · rintro ⟨⟨_, hyear, _, hmonth, _, hday, rfl, rfl, rfl⟩, ⟨hy, hm⟩, hd⟩
      exact ⟨_, ⟨hyear, hy⟩, _, ⟨hmonth, hm⟩, _, ⟨hday, hd⟩, rfl, rfl, rfl⟩
  | [] | [_] | [_, _] | _ :: _ :: _ :: _ :: _ => rfl

theorem checked_eq_ok {n : Int} (h : -2147483648 ≤ n ∧ n < 2147483648) : checked n = .ok n :=
  if_pos h

theorem signed_eq_ok (sign : Sign) {n : Nat} (h : n < 2147483648) : signed sign n = .ok (sign.apply n) := by
  cases sign with
  | none | plus => rfl
  | minus => exact checked_eq_ok (by omega)

theorem natAbs_apply (sign : Sign) (n : Nat) : (sign.apply n).natAbs = n := by
  cases sign with
  | none | plus => rfl
  | minus => exact Int.natAbs_neg n

theorem parts_eq (s : String) :
    parts s = .ok ((Timestamp.parts? s).filter fun p => fits (p.1.natAbs, p.2)) := by
  rw [parts, parts?_eq]
  dsimp only
  rw [numbers?_eq]
  cases Timestamp.numbers? (Sign.split s.toList).2 with
  | none => rfl
  | some n =>
    obtain ⟨year, rest⟩ := n
    simp only [Option.map_some, Option.filter_some, natAbs_apply]
    by_cases hfits : fits (year, rest) = true
    · have hyear : year < 2147483648 := by
        simp only [fits, Bool.and_eq_true, decide_eq_true_eq] at hfits
        exact hfits.1.1
      simp only [if_pos hfits, signed_eq_ok _ hyear]
      rfl
    · simp only [if_neg hfits]

theorem of?_eq_none {year : Int} {month day : Nat} (h : ¬fits (year.natAbs, month, day) = true) {y : Int}
    (hy : y = year ∨ y = year + 1) : Date.of? y month day = none := by
  cases hdate : Date.of? y month day with
  | none => rfl
  | some d =>
    obtain ⟨rfl, rfl, rfl⟩ := Date.of?_eq_some.1 hdate
    have hbounds := d.bounds
    simp only [fits, Bool.and_eq_true, decide_eq_true_eq] at h
    omega

theorem ofQueried_eq (s : String) : ofQueried s = .ok (ofQueried? s) := by
  rw [ofQueried, parts_eq, ofQueried?]
  cases Timestamp.parts? s with
  | none => rfl
  | some p =>
    obtain ⟨year, month, day⟩ := p
    by_cases hfits : fits (year.natAbs, month, day) = true
    · simp only [Option.filter_some, if_pos hfits]
      rfl
    · simp only [Option.filter_some, if_neg hfits]
      exact congrArg Except.ok (of?_eq_none hfits (.inl rfl)).symm

theorem historicalDay_eq {year : Int} {month day : Nat} (h : fits (year.natAbs, month, day) = true) :
    historicalDay year month day = .ok ((astronomical? year).bind fun y => Date.of? y month day) := by
  unfold historicalDay astronomical?
  by_cases hzero : year = 0
  · rw [if_pos hzero, if_pos hzero]
    rfl
  · by_cases hneg : year < 0
    · have hnext : checked (year + 1) = .ok (year + 1) := by
        simp only [fits, Bool.and_eq_true, decide_eq_true_eq] at h
        exact checked_eq_ok (by omega)
      rw [if_neg hzero, if_neg hzero, if_pos hneg, if_pos hneg, hnext]
      rfl
    · rw [if_neg hzero, if_neg hzero, if_neg hneg, if_neg hneg]
      rfl

theorem ofStored_eq (s : String) : ofStored s = .ok (ofStored? s) := by
  rw [ofStored, parts_eq, ofStored?]
  cases Timestamp.parts? s with
  | none => rfl
  | some p =>
    obtain ⟨year, month, day⟩ := p
    by_cases hfits : fits (year.natAbs, month, day) = true
    · simp only [Option.filter_some, if_pos hfits]
      exact historicalDay_eq hfits
    · have hnone : (astronomical? year).bind (fun y => Date.of? y month day) = none := by
        rw [Option.bind_eq_none_iff]
        intro y hy
        obtain ⟨-, rfl⟩ := astronomical?_eq_some.1 hy
        refine of?_eq_none hfits ?_
        split
        · exact .inr rfl
        · exact .inl rfl
      simp only [Option.filter_some, if_neg hfits]
      exact congrArg Except.ok hnone.symm

end Narrow

/--
A queried time is read exactly if it is spelled as a day that there is, and so is a stored one if its year is not 0, the year -n
being the year 1 - n; the day is the one that is spelled. Numbers of 32 bits suffice for every text. A day is read back from both
of its texts.
-/
theorem read_as_spelled (s : String) (d : Date) :
    (ofQueried? s = some d ↔ ∃ p : Spelling, p.Begins s ∧ p.Denotes p.signedYear d) ∧
    (ofStored? s = some d ↔ ∃ p : Spelling, p.Begins s ∧ p.signedYear ≠ 0 ∧ p.Denotes p.historicalYear d) ∧
    (∀ b : Sparql.Binding, b.value = s → b.decode? .date = (ofQueried? s).map .date) ∧
    (∀ datavalue : Json, (datavalue.get "value").get "time" = .string s →
      Claim.ofDatavalue? .date datavalue = (ofStored? s).map .date) ∧
    Narrow.ofQueried s = .ok (ofQueried? s) ∧ Narrow.ofStored s = .ok (ofStored? s) ∧
    ofQueried? (queried d) = some d ∧ ofStored? (stored d) = some d := by
  refine ⟨ofQueried?_eq_some, ofStored?_eq_some, fun b hb => ?_, fun datavalue htime => ?_, Narrow.ofQueried_eq s,
    Narrow.ofStored_eq s, ofQueried?_queried d, ofStored?_stored d⟩
  · rw [Sparql.Binding.decode?, hb]
  · rw [Claim.ofDatavalue?, Claim.ofSnak?, htime]
    rfl

example : ofStored? "-0044-03-15T00:00:00Z" = Date.of? (-43) 3 15 ∧ ofQueried? "-0044-03-15" = Date.of? (-44) 3 15 := by
  decide +kernel

end ClaimTables.Timestamp
