import ClaimTables.Binary64.Printer
import ClaimTables.Json

/-!
Reading records from JSON documents. A record is an object, or an array with its members in order; what
is absent takes its default. Scalars are taken as they are, or converted from one kind to another, as
suits the source of the document.
-/

namespace ClaimTables

structure Reading where
  text? : Json → Option String
  flag? : Json → Option Bool
  word? : Json → Option UInt64
  half? : Json → Option UInt32
  allowsExcess : Bool
  allowsPlaces : Bool

namespace Reading

def halfWord? (w : UInt64) : Option UInt32 :=
  if w.toNat < UInt32.size then some w.toUInt32 else none

def strict : Reading where
  text? := Json.text?
  flag? := Json.bool?
  word? := Json.word?
  half? j := j.word?.bind halfWord?
  allowsExcess := false
  allowsPlaces := true

def truth? (s : String) : Option Bool :=
  let word := s.toList.map Char.toLower
  if ["true".toList, "on".toList, "yes".toList].contains word then some true
  else if ["false".toList, "off".toList, "no".toList].contains word then some false
  else none

def nearestWord : Binary64 → UInt64
  | .finite false m => UInt64.ofNat (min ((2 * m.units + Magnitude.unitsOfOne) / (2 * Magnitude.unitsOfOne)) (UInt64.size - 1))
  | .infinite false => UInt64.ofNat (UInt64.size - 1)
  | _ => 0

def convertedText? : Json → Option String
  | .string s => some s
  | .bool b => some (if b then "true" else "false")
  | .integer n => some (if n < 0 then "-" ++ Text.decimal n.natAbs else Text.decimal n.natAbs)
  | .number x => some x.text
  | _ => none

def convertedFlag? : Json → Option Bool
  | .bool b => some b
  | .integer n => some (n ≠ 0)
  | .number x => some (!x.equals (.finite false .zero))
  | .string s => if s = "1" then some true else if s = "0" then some false else truth? s
  | _ => none

def convertedWord? : Json → Option UInt64
  | .bool b => some (if b then 1 else 0)
  | .integer n => (Json.integer n).word?
  | .number x => some (nearestWord x)
  | .string s =>
    match truth? s with
    | some b => some (if b then 1 else 0)
    | none => Text.word? s.toList
  | _ => none

def converting : Reading where
  text? := convertedText?
  flag? := convertedFlag?
  word? := convertedWord?
  half? j := (convertedWord? j).bind halfWord?
  allowsExcess := true
  allowsPlaces := false

def isRecord (r : Reading) (size : Nat) : Json → Bool
  | .object _ => true
  | .array items => r.allowsExcess || items.length ≤ size
  | _ => false

def member? (key : String) (place : Nat) : Json → Option Json
  | .array items => items[place]?
  | j => j.get? key

def orElse {α : Type} (value : α) (read : Json → Option α) : Option Json → Option α
  | none => some value
  | some j => read j

def optional {α : Type} (read : Json → Option α) : Option Json → Option (Option α)
  | none => some none
  | some j => if j.isNull then some none else (read j).map some

def list? {α : Type} (read : Json → Option α) : Json → Option (List α)
  | .array items => items.mapM read
  | _ => none

end Reading

end ClaimTables
