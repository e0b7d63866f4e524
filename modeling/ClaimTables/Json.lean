import ClaimTables.Binary64
import ClaimTables.Keyed

/-!
JSON values. Whole numbers are kept apart from numbers written with a point or an exponent, and an
object's entries stand in ascending order of their keys.
-/

namespace ClaimTables

inductive Json where
  | null
  | bool (value : Bool)
  | integer (value : Int)
  | number (value : Binary64)
  | string (value : String)
  | array (items : List Json)
  | object (entries : List (String × Json))

namespace Json

instance : Inhabited Json := ⟨.null⟩

def ofEntries (entries : List (String × Json)) : Json :=
  .object (Keyed.ofList entries)

def get? (key : String) : Json → Option Json
  | .object entries => entries.lookup key
  | _ => none

def get (key : String) (j : Json) : Json :=
  (j.get? key).getD .null

def text? : Json → Option String
  | .string s => some s
  | _ => none

def bool? : Json → Option Bool
  | .bool b => some b
  | _ => none

def word? : Json → Option UInt64
  | .integer (.ofNat n) => if n < UInt64.size then some (UInt64.ofNat n) else none
  | _ => none

def items : Json → List Json
  | .array items => items
  | _ => []

def isNull : Json → Bool
  | .null => true
  | _ => false

def natural (n : Nat) : Json :=
  .integer n

end Json

end ClaimTables
