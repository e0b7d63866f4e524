import ClaimTables.Binary64.Reader

/-!
The shortest decimal that reads back as a given number. Among the decimals of least length it is the
one nearest to the number; two can be equally near, and the caller says which then wins.
-/

namespace ClaimTables

inductive Tie where
  | upper
  | even

namespace Decimal

def leading (num den : Nat) : Int :=
  if den ≤ num then ((Text.digits (num / den)).length : Int) - 1
  else -((Text.digits ((den + num - 1) / num - 1)).length : Int)

def floor (num den : Nat) (exponent : Int) : Decimal :=
  match exponent with
  | .ofNat n => ⟨num / (den * Nat.pow 10 n), exponent⟩
  | .negSucc n => ⟨num * Nat.pow 10 (n + 1) / den, exponent⟩

def succ (d : Decimal) : Decimal :=
  ⟨d.significand + 1, d.exponent⟩

end Decimal

namespace Magnitude

def quarter : Nat := 4 * unitsOfOne

def lower (m : Magnitude) : Nat :=
  if m.significand = Nat.pow 2 52 ∧ m.scale ≠ 0 then 4 * m.units - Nat.pow 2 m.scale
  else 4 * m.units - 2 * Nat.pow 2 m.scale

def upper (m : Magnitude) : Nat :=
  4 * m.units + 2 * Nat.pow 2 m.scale

def admits (m : Magnitude) (d : Decimal) : Bool :=
  let (num, den) := d.quotient
  -- The ends belong to the interval of an even significand.
  if m.significand % 2 = 0 then m.lower * den ≤ num * quarter && num * quarter ≤ m.upper * den
  else m.lower * den < num * quarter && num * quarter < m.upper * den

def nearer (tie : Tie) (m : Magnitude) (below : Decimal) : Decimal :=
  let (num, den) := Decimal.quotient ⟨2 * below.significand + 1, below.exponent⟩
  let twice := 2 * m.units * den
  let middle := num * unitsOfOne
  if twice < middle then below
  else if middle < twice then below.succ
  else match tie with
    | .upper => below.succ
    | .even => if below.significand % 2 = 0 then below else below.succ

def search (tie : Tie) (m : Magnitude) (top : Int) : (left count : Nat) → Decimal
  | 0, count => Decimal.floor m.units unitsOfOne (top - count + 1)
  | left + 1, count =>
    let below := Decimal.floor m.units unitsOfOne (top - count + 1)
    match m.admits below, m.admits below.succ with
    | true, true => nearer tie m below
    | true, false => below
    | false, true => below.succ
    | false, false => search tie m top left (count + 1)

def shortest (tie : Tie) (m : Magnitude) : Decimal :=
  -- Seventeen digits always suffice.
  search tie m (Decimal.leading m.units unitsOfOne) 17 1

end Magnitude

end ClaimTables
