import ClaimTables.Text.Blank
import ClaimTables.Text.Digits

/-!
Dates of the proleptic Gregorian calendar with years counted astronomically: year 0 comes before year 1.
-/

namespace ClaimTables

namespace Calendar

def isLeap (year : Int) : Bool :=
  year % 4 = 0 && (year % 100 ≠ 0 || year % 400 = 0)

def monthLength (year : Int) (month : Nat) : Nat :=
  match month with
  | 2 => if isLeap year then 29 else 28
  | 4 | 6 | 9 | 11 => 30
  | _ => 31

def isDate (year : Int) (month day : Nat) : Bool :=
  -262143 ≤ year && year ≤ 262142 && 1 ≤ month && month ≤ 12 && 1 ≤ day && day ≤ monthLength year month

end Calendar

structure Date where
  year : Int
  month : Nat
  day : Nat
  valid : Calendar.isDate year month day = true
deriving DecidableEq

namespace Date

def of? (year : Int) (month day : Nat) : Option Date :=
  if h : Calendar.isDate year month day = true then some ⟨year, month, day, h⟩ else none

theorem of?_eq_some {y : Int} {m d : Nat} {date : Date} :
    of? y m d = some date ↔ date.year = y ∧ date.month = m ∧ date.day = d := by
  unfold of?
  split
  · constructor
    · intro h
      obtain rfl := Option.some.inj h
      exact ⟨rfl, rfl, rfl⟩
    · rintro ⟨rfl, rfl, rfl⟩
      rfl
  · next hn =>
    simp only [reduceCtorEq, false_iff]
    rintro ⟨rfl, rfl, rfl⟩
    exact hn date.valid

def monthDay (d : Date) : List Char :=
  '-' :: Text.padded 2 d.month ++ '-' :: Text.padded 2 d.day

def yearText (year : Int) : List Char :=
  let number := Text.padded 4 year.natAbs
  if year < 0 then '-' :: number else if 9999 < year then '+' :: number else number

def text (d : Date) : String :=
  String.ofList (yearText d.year ++ d.monthDay)

def number? (width : Nat) (cs : List Char) : Option (Nat × List Char) :=
  let number := (cs.take width).takeWhile Char.isDigit
  (Text.numeral? number).map fun n => (n, cs.drop number.length)

def year? (cs : List Char) : Option (Int × List Char) :=
  match cs.dropWhile Text.isBlank with
  -- Behind a sign a year may have any number of digits.
  | '-' :: cs => (number? cs.length cs).map fun (n, rest) => (-(n : Int), rest)
  | '+' :: cs => (number? cs.length cs).map fun (n, rest) => ((n : Int), rest)
  | cs => (number? 4 cs).map fun (n, rest) => ((n : Int), rest)

def part? : List Char → Option (Nat × List Char)
  | '-' :: cs => number? 2 (cs.dropWhile Text.isBlank)
  | _ => none

def ofText? (s : String) : Option Date := do
  let (year, rest) ← year? s.toList
  let (month, rest) ← part? rest
  let (day, rest) ← part? rest
  if rest.isEmpty then of? year month day else none

end Date

end ClaimTables
