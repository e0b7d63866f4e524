/-!
The numbers of IEEE 754's binary64 format, each finite one held exactly.
-/

namespace ClaimTables

/--
The finite magnitude `significand * 2 ^ scale / 2 ^ 1074`. The last bound makes the form unique: a
significand of fewer than 53 bits goes with the least scale only.
-/
structure Magnitude where
  significand : Nat
  scale : Nat
  significand_lt : significand < Nat.pow 2 53
  scale_le : scale ≤ 2045
  normal : scale = 0 ∨ Nat.pow 2 52 ≤ significand
deriving DecidableEq

namespace Magnitude

def units (m : Magnitude) : Nat :=
  m.significand * Nat.pow 2 m.scale

def unitsOfOne : Nat :=
  Nat.pow 2 1074

def zero : Magnitude :=
  ⟨0, 0, by decide, by decide, .inl rfl⟩

def ofParts? (significand scale : Nat) : Option Magnitude :=
  if h : significand < Nat.pow 2 53 ∧ scale ≤ 2045 ∧ (scale = 0 ∨ Nat.pow 2 52 ≤ significand) then
    some ⟨significand, scale, h.1, h.2.1, h.2.2⟩
  else none

end Magnitude

inductive Binary64 where
  | finite (negative : Bool) (magnitude : Magnitude)
  | infinite (negative : Bool)
  | nan
deriving DecidableEq

namespace Binary64

def isFinite : Binary64 → Bool
  | .finite _ _ => true
  | _ => false

/-- Equality as numbers: the two zeros are equal, and what is not a number equals nothing. -/
def equals : Binary64 → Binary64 → Bool
  | .finite s m, .finite t n => decide (m = n) && (decide (s = t) || decide (m = Magnitude.zero))
  | .infinite s, .infinite t => decide (s = t)
  | _, _ => false

theorem equals_self {x : Binary64} (h : x ≠ .nan) : x.equals x = true := by
  cases x <;> simp_all [equals]

end Binary64

end ClaimTables
