/-!
Decimal numerals. Reading a written number gives it back, whatever zeros stand in front.
-/

namespace ClaimTables.Text

def digits (n : Nat) : List Char :=
  Nat.toDigits 10 n

def decimal (n : Nat) : String :=
  String.ofList (digits n)

def padded (width n : Nat) : List Char :=
  List.replicate (width - (digits n).length) '0' ++ digits n

def isNumeral (cs : List Char) : Bool :=
  !cs.isEmpty && cs.all Char.isDigit

def numeral? (cs : List Char) : Option Nat :=
  if isNumeral cs then some (Nat.ofDigitChars 10 cs 0) else none

def unsigned? : List Char → Option Nat
  | '+' :: cs => numeral? cs
  | cs => numeral? cs

def word? (cs : List Char) : Option UInt64 :=
  (unsigned? cs).bind fun n => if n < UInt64.size then some (UInt64.ofNat n) else none

theorem isDigit_of_mem_digits {n : Nat} {c : Char} (h : c ∈ digits n) : c.isDigit = true :=
  Nat.isDigit_of_mem_toDigits (by decide) (by decide) h

theorem numeral?_digits (n : Nat) : numeral? (digits n) = some n := by
  have h : isNumeral (digits n) = true := by
    simp only [isNumeral, Bool.and_eq_true, Bool.not_eq_true', List.isEmpty_eq_false_iff, List.all_eq_true]
    exact ⟨Nat.toDigits_ne_nil, fun c hc => isDigit_of_mem_digits hc⟩
  rw [numeral?, if_pos h, digits, Nat.ofDigitChars_ten_toDigits]

theorem numeral?_padded (width n : Nat) : numeral? (padded width n) = some n := by
  have h : isNumeral (padded width n) = true := by
    simp only [isNumeral, Bool.and_eq_true, Bool.not_eq_true', List.isEmpty_eq_false_iff, List.all_eq_true]
    refine ⟨by simp [padded, digits, Nat.toDigits_ne_nil], fun c hc => ?_⟩
    rcases List.mem_append.1 hc with hc | hc
    · rw [List.eq_of_mem_replicate hc]
      decide
    · exact isDigit_of_mem_digits hc
  rw [numeral?, if_pos h]
  simp [padded, digits, Nat.ofDigitChars_append, Nat.ofDigitChars_replicate_zero,
    Nat.ofDigitChars_ten_toDigits]

theorem unsigned?_digits (n : Nat) : unsigned? (digits n) = some n := by
  rw [← numeral?_digits n]
  unfold unsigned?
  split
  · next cs h =>
    have : ('+' : Char).isDigit = true := isDigit_of_mem_digits (n := n) (by rw [h]; exact List.mem_cons_self)
    exact absurd this (by decide)
  · rfl

theorem word?_digits (w : UInt64) : word? (digits w.toNat) = some w := by
  simp only [word?, unsigned?_digits, Option.bind_some, if_pos w.toNat_lt_size]
  exact congrArg some (UInt64.ofNat_toNat)

end ClaimTables.Text
