import ClaimTables.Binary64.Shortest

/-!
Writing numbers by their shortest digits, positionally or with an exponent.
-/

namespace ClaimTables

/-- The digits of a decimal without the zeros at its end, and the exponent of ten of the first of them. -/
structure Numeral where
  digits : List Char
  exponent : Int

namespace Numeral

def ofDecimal (d : Decimal) : Numeral :=
  let all := Text.digits d.significand
  ⟨(all.reverse.dropWhile (· = '0')).reverse, d.exponent + all.length - 1⟩

def positional (n : Numeral) : List Char × List Char :=
  match n.exponent with
  | .ofNat e =>
    (n.digits.take (e + 1) ++ List.replicate (e + 1 - n.digits.length) '0', n.digits.drop (e + 1))
  | .negSucc e => (['0'], List.replicate e '0' ++ n.digits)

end Numeral

namespace Binary64

def signed (mark : List Char) (negative : Bool) (body : List Char) : List Char :=
  (if negative then ['-'] else mark) ++ body

def pointed (whole part : List Char) : List Char :=
  if part.isEmpty then whole else whole ++ '.' :: part

def plainDigits (m : Magnitude) : List Char :=
  if m = .zero then ['0']
  else
    let (whole, part) := (Numeral.ofDecimal (m.shortest .upper)).positional
    pointed whole part

def toList : Binary64 → List Char
  | .finite negative m => signed [] negative (plainDigits m)
  | .infinite negative => signed [] negative "inf".toList
  | .nan => "NaN".toList

def toSignedList : Binary64 → List Char
  | .finite negative m => signed ['+'] negative (plainDigits m)
  | .infinite negative => signed ['+'] negative "inf".toList
  | .nan => "NaN".toList

def text (x : Binary64) : String :=
  String.ofList x.toList

def exponentMark : Int → List Char
  | .ofNat e => 'e' :: '+' :: Text.digits e
  | .negSucc e => 'e' :: '-' :: Text.digits (e + 1)

def markedDigits (m : Magnitude) : List Char :=
  if m = .zero then "0.0".toList
  else
    let n := Numeral.ofDecimal (m.shortest .even)
    if -5 ≤ n.exponent ∧ n.exponent ≤ 15 then
      let (whole, part) := n.positional
      whole ++ '.' :: (if part.isEmpty then ['0'] else part)
    else pointed (n.digits.take 1) (n.digits.drop 1) ++ exponentMark n.exponent

def toMarkedList : Binary64 → List Char
  | .finite negative m => signed [] negative (markedDigits m)
  | _ => "null".toList

end Binary64

end ClaimTables
