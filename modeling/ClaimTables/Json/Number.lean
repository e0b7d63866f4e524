import ClaimTables.Binary64.Reader
import ClaimTables.Binary64.Scaling
import ClaimTables.Json

/-!
Numbers in JSON texts. A number without a point or an exponent that fits into 64 bits is a whole number; of
any other the leading digits that fit into 64 bits count, scaled by a power of ten.
-/

namespace ClaimTables.Json

def isNumberChar (c : Char) : Bool :=
  c.isDigit || c = '.' || c = 'e' || c = 'E' || c = '+' || c = '-'

def isNumberText (cs : List Char) : Bool :=
  let whole := cs.takeWhile Char.isDigit
  let rest := cs.dropWhile Char.isDigit
  !whole.isEmpty && (whole.length = 1 || whole.head? ≠ some '0')
    && (match rest with
      | '.' :: rest => (rest.head?.map Char.isDigit).getD false
      | _ => true)

def absorb : List Char → (n : Nat) → Nat × List Char
  | [], n => (n, [])
  | c :: cs, n =>
    let next := Nat.ofDigitChars 10 [c] n
    if next < UInt64.size then absorb cs next else (n, c :: cs)

def significand (whole part : List Char) : Nat × Int :=
  -- Digits before the point that do not fit count as places, and digits behind it that do not fit are dropped.
  let (n, places) := absorb whole 0
  let (n, dropped) := absorb part n
  (n, places.length - (part.length - dropped.length : Nat))

def scaledNumber? (negative : Bool) (cs : List Char) : Option Json :=
  let (part, rest) := Decimal.fraction (cs.dropWhile Char.isDigit)
  (Decimal.exponent? rest).bind fun exponent =>
    let (n, places) := significand (cs.takeWhile Char.isDigit) part
    (Magnitude.scaled? n (places + exponent)).map fun m => .number (.finite negative m)

def unsignedNumber? (negative : Bool) (cs : List Char) : Option Json :=
  if !isNumberText cs then none
  else
    let value := if negative then -(Nat.ofDigitChars 10 cs 0 : Int) else Nat.ofDigitChars 10 cs 0
    -- Zero with a minus sign is no whole number.
    if cs.all Char.isDigit ∧ Int64.minValue.toInt ≤ value ∧ value < UInt64.size ∧ ¬ (negative ∧ value = 0) then
      some (.integer value)
    else scaledNumber? negative cs

def number? : List Char → Option Json
  | '-' :: cs => unsignedNumber? true cs
  | cs => unsignedNumber? false cs

end ClaimTables.Json
