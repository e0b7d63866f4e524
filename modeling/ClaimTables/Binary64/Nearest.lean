import ClaimTables.Binary64

/-!
The binary64 number nearest to a quotient of whole numbers, a half going to the even significand.
-/

namespace ClaimTables

def nearestEven (num den : Nat) : Nat :=
  let q := num / den
  let r := num % den
  if 2 * r < den then q else if den < 2 * r then q + 1 else if q % 2 = 0 then q else q + 1

namespace Magnitude

def nearest? (num den : Nat) : Option Magnitude :=
  let units := num * unitsOfOne
  -- The least scale at which the quotient needs no more than 53 bits.
  let scale := (units / den).log2 - 52
  let significand := nearestEven units (den * Nat.pow 2 scale)
  if significand = Nat.pow 2 53 then ofParts? (Nat.pow 2 52) (scale + 1) else ofParts? significand scale

end Magnitude

end ClaimTables
