import ClaimTables.Binary64.Nearest

/-!
Decimal numbers by way of powers of ten: the significand is rounded, then multiplied or divided by a power
of ten that is rounded as well, and the outcome is rounded again. Of three roundings the last digit may
suffer; the nearest number is what `Magnitude.nearest?` gives.
-/

namespace ClaimTables.Magnitude

def times? (m n : Magnitude) : Option Magnitude :=
  nearest? (m.units * n.units) (unitsOfOne * unitsOfOne)

def over? (m n : Magnitude) : Option Magnitude :=
  nearest? m.units n.units

def powerOfTen? (n : Nat) : Option Magnitude :=
  nearest? (Nat.pow 10 n) 1

def shrunk? (m : Magnitude) (n : Nat) : Option Magnitude := do
  -- A third division by the largest power leaves zero of any 64-bit number, so more need not be done.
  let steps := (n - 1) / 308
  let largest ← powerOfTen? 308
  let m ← (List.replicate (min 3 steps) largest).foldlM over? m
  m.over? (← powerOfTen? (n - 308 * steps))

def scaled? (significand : Nat) (exponent : Int) : Option Magnitude :=
  (nearest? significand 1).bind fun m =>
    match exponent with
    | .ofNat n =>
      if n ≤ 308 then (powerOfTen? n).bind m.times?
      else if m = zero then some zero else none
    | .negSucc n => m.shrunk? (n + 1)

end ClaimTables.Magnitude
