import ClaimTables.Binary64.Nearest
import ClaimTables.Text.Digits

/-!
Reading numbers: an optional sign, then decimal digits with an optional point and exponent, or the
words for infinity and for what is not a number, in any case. Neither blanks nor separators are allowed.
-/

namespace ClaimTables

structure Decimal where
  significand : Nat
  exponent : Int
deriving DecidableEq

namespace Decimal

def quotient (d : Decimal) : Nat × Nat :=
  match d.exponent with
  | .ofNat n => (d.significand * Nat.pow 10 n, 1)
  | .negSucc n => (d.significand, Nat.pow 10 (n + 1))

def exponent? : List Char → Option Int
  | [] => some 0
  | e :: cs =>
    if e = 'e' ∨ e = 'E' then
      match cs with
      | '-' :: cs => (Text.numeral? cs).map fun n => -(n : Int)
      | cs => (Text.unsigned? cs).map fun n => (n : Int)
    else none

def fraction : List Char → List Char × List Char
  | '.' :: cs => (cs.takeWhile Char.isDigit, cs.dropWhile Char.isDigit)
  | cs => ([], cs)

def ofList? (cs : List Char) : Option Decimal :=
  let whole := cs.takeWhile Char.isDigit
  let (part, rest) := fraction (cs.dropWhile Char.isDigit)
  match Text.numeral? (whole ++ part), exponent? rest with
  | some significand, some exponent => some ⟨significand, exponent - part.length⟩
  | _, _ => none

end Decimal

namespace Binary64

def ofDecimal (negative : Bool) (d : Decimal) : Binary64 :=
  -- Beyond `10 ^ 400` and `10 ^ (-400)` the format has no numbers, so the power of ten is not taken there.
  let places : Int := (Text.digits d.significand).length + d.exponent
  if d.significand = 0 ∨ places < -400 then .finite negative .zero
  else if 400 < places then .infinite negative
  else
    match Magnitude.nearest? d.quotient.1 d.quotient.2 with
    | some m => .finite negative m
    | none => .infinite negative

def unsigned? (negative : Bool) (cs : List Char) : Option Binary64 :=
  let word := cs.map Char.toLower
  if word = "inf".toList ∨ word = "infinity".toList then some (.infinite negative)
  else if word = "nan".toList then some .nan
  else (Decimal.ofList? cs).map (ofDecimal negative)

def ofList? : List Char → Option Binary64
  | '-' :: cs => unsigned? true cs
  | '+' :: cs => unsigned? false cs
  | cs => unsigned? false cs

def finite? (cs : List Char) : Option Binary64 :=
  (ofList? cs).filter isFinite

theorem isFinite_of_finite? {cs : List Char} {x : Binary64} (h : finite? cs = some x) :
    x.isFinite = true :=
  (Option.filter_eq_some_iff.1 h).2

end Binary64

end ClaimTables
