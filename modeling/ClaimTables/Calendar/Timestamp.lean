import ClaimTables.Calendar.Date

/-!
The two spellings of a day at midnight, universal time. A stored time always has a sign and counts years
historically, without a year zero; a queried time counts them astronomically and has no plus sign.
-/

namespace ClaimTables.Timestamp

def midnight : List Char := "T00:00:00Z".toList

/-- The historical year: what comes before year 1 is the year 1 before it, written -1. -/
def historical (year : Int) : Int :=
  if 0 < year then year else year - 1

def astronomical? (year : Int) : Option Int :=
  if year = 0 then none else if year < 0 then some (year + 1) else some year

theorem astronomical?_historical (year : Int) : astronomical? (historical year) = some year := by
  by_cases h : 0 < year
  · simp [astronomical?, historical, h, Int.ne_of_gt h, Int.not_lt.2 (Int.le_of_lt h)]
  · have h1 : ¬ year - 1 = 0 := by omega
    have h2 : year - 1 < 0 := by omega
    simp [astronomical?, historical, h, h1, h2]

def stored (d : Date) : String :=
  let year := historical d.year
  let sign := if year < 0 then '-' else '+'
  String.ofList (sign :: Text.padded 4 year.natAbs ++ d.monthDay ++ midnight)

def queried (d : Date) : String :=
  let sign := if d.year < 0 then ['-'] else []
  String.ofList (sign ++ Text.padded 4 d.year.natAbs ++ d.monthDay ++ midnight)

def numbers? (cs : List Char) : Option (Nat × Nat × Nat) :=
  match (cs.takeWhile (· ≠ 'T')).splitOn '-' with
  | [year, month, day] => do
    let year ← Text.numeral? year
    let month ← Text.numeral? month
    let day ← Text.numeral? day
    some (year, month, day)
  | _ => none

def parts? (s : String) : Option (Int × Nat × Nat) :=
  match s.toList with
  | '-' :: cs => (numbers? cs).map fun (year, rest) => (-(year : Int), rest)
  | '+' :: cs => (numbers? cs).map fun (year, rest) => ((year : Int), rest)
  | cs => (numbers? cs).map fun (year, rest) => ((year : Int), rest)

def ofStored? (s : String) : Option Date := do
  let (year, month, day) ← parts? s
  let year ← astronomical? year
  Date.of? year month day

def ofQueried? (s : String) : Option Date := do
  let (year, month, day) ← parts? s
  Date.of? year month day

end ClaimTables.Timestamp
