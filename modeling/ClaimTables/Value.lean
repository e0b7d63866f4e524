import ClaimTables.Binary64.Printer
import ClaimTables.Calendar.Date
import ClaimTables.FieldType
import ClaimTables.Json

/-!
The values of a row's columns, their text and how a text is read as a value of a given type.
-/

namespace ClaimTables

inductive Value where
  | null
  | boolean (value : Bool)
  | number (value : Binary64)
  | date (value : Date)
  | reference (id : String)
  | text (value : String)
deriving DecidableEq

namespace Value

def isNull : Value → Bool
  | .null => true
  | _ => false

def fits : Value → FieldType → Bool
  -- Whether a field may be null is asked elsewhere.
  | .null, _ => true
  | .text _, .text => true
  | .number _, .number => true
  | .boolean _, .boolean => true
  | .date _, .date => true
  | .reference _, .reference _ => true
  | _, _ => false

/-- A value and a type that fit, one case for each form of the value. -/
inductive Suits : Value → FieldType → Prop where
  | null (type : FieldType) : Suits .null type
  | text (s : String) : Suits (.text s) .text
  | number (x : Binary64) : Suits (.number x) .number
  | boolean (b : Bool) : Suits (.boolean b) .boolean
  | date (d : Date) : Suits (.date d) .date
  | reference (id target : String) : Suits (.reference id) (.reference target)

theorem suits_of_fits {v : Value} {type : FieldType} (h : v.fits type = true) : v.Suits type := by
  cases v with
  | null => exact .null type
  | text s =>
    cases type with
    | text => exact .text s
    | number | boolean | date | reference _ => cases h
  | number x =>
    cases type with
    | number => exact .number x
    | text | boolean | date | reference _ => cases h
  | boolean b =>
    cases type with
    | boolean => exact .boolean b
    | text | number | date | reference _ => cases h
  | date d =>
    cases type with
    | date => exact .date d
    | text | number | boolean | reference _ => cases h
  | reference id =>
    cases type with
    | reference target => exact .reference id target
    | text | number | boolean | date => cases h

def equals : Value → Value → Bool
  | .number x, .number y => x.equals y
  | v, w => decide (v = w)

def booleanText (b : Bool) : String :=
  if b then "true" else "false"

def toText : Value → String
  | .null => "null"
  | .boolean b => booleanText b
  | .number x => x.text
  | .date d => d.text
  | .reference id => id
  | .text s => s

def toJson : Value → Json
  | .null => .null
  | .boolean b => .bool b
  -- A number that is not finite has no form in a document.
  | .number x => if x.isFinite then .number x else .null
  | .date d => .string d.text
  | .reference id => .string id
  | .text s => .string s

def boolean? (s : String) : Option Value :=
  if s = "true" then some (.boolean true) else if s = "false" then some (.boolean false) else none

def ofText? (type : FieldType) (s : String) : Option Value :=
  if s = "null" then some .null
  else match type with
    | .text => some (.text s)
    | .number => (Binary64.finite? s.toList).map .number
    | .boolean => boolean? s
    | .date => (Date.ofText? s).map .date
    | .reference _ => some (.reference s)

def expectation : FieldType → String
  | .text => "text"
  | .number => "number"
  | .boolean => "boolean"
  | .date => "date (YYYY-MM-DD)"
  | .reference _ => "reference"

theorem equals_self {v : Value} (h : v ≠ .number .nan) : v.equals v = true := by
  cases v <;> simp [equals]
  exact Binary64.equals_self fun hn => h (by rw [hn])

theorem fits_of_boolean? {s : String} {v : Value} (h : boolean? s = some v) : v.fits .boolean = true := by
  unfold boolean? at h
  split at h
  · obtain rfl := Option.some.inj h
    rfl
  · split at h
    · obtain rfl := Option.some.inj h
      rfl
    · cases h

theorem fits_of_ofText? {type : FieldType} {s : String} {v : Value} (h : ofText? type s = some v) :
    v.fits type = true := by
  unfold ofText? at h
  split at h
  · obtain rfl := Option.some.inj h
    rfl
  · cases type with
    | text | reference _ =>
      obtain rfl := Option.some.inj h
      rfl
    | number | date =>
      obtain ⟨x, _, rfl⟩ := Option.map_eq_some_iff.1 h
      rfl
    | boolean => exact fits_of_boolean? h

end Value

end ClaimTables
