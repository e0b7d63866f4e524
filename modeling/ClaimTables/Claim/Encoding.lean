import ClaimTables.Calendar.Timestamp
import ClaimTables.Identifier
import ClaimTables.Value

/-!
Values as the store keeps them. Text and truth values are strings, numbers are quantities without a unit,
dates are times of day precision, and references are items.
-/

namespace ClaimTables

inductive Unstorable where
  | null
  | notFinite (x : Binary64)
  | notItem (id : String)
deriving DecidableEq

namespace Unstorable

def message : Unstorable → String
  | .null => "null has no stored representation"
  | .notFinite x => x.text ++ " is not a finite number"
  | .notItem id => id ++ " is not an item id"

end Unstorable

namespace Claim

def calendarModel : String := "http://www.wikidata.org/entity/Q1985727"

def item (id : String) : Except Unstorable ItemId :=
  match ItemId.ofText? id with
  | some i => .ok i
  | none => .error (.notItem id)

def itemValue (i : ItemId) : Json :=
  .ofEntries [("entity-type", .string "item"), ("numeric-id", .natural i.number.toNat), ("id", .string i.text)]

def quantity (x : Binary64) : Json :=
  .ofEntries [("amount", .string (String.ofList x.toSignedList)), ("unit", .string "1")]

def time (d : Date) : Json :=
  .ofEntries [("time", .string (Timestamp.stored d)), ("timezone", .natural 0), ("before", .natural 0),
    ("after", .natural 0), ("precision", .natural 11), ("calendarmodel", .string calendarModel)]

def snak : Value → Except Unstorable Json
  | .null => .error .null
  | .text s => .ok (.string s)
  | .boolean b => .ok (.string (Value.booleanText b))
  | .number x => if x.isFinite then .ok (quantity x) else .error (.notFinite x)
  | .date d => .ok (time d)
  | .reference id => (item id).map itemValue

def valueType : Value → String
  | .text _ | .boolean _ | .null => "string"
  | .number _ => "quantity"
  | .date _ => "time"
  | .reference _ => "wikibase-entityid"

def typed (type : String) (value : Json) : Json :=
  .ofEntries [("value", value), ("type", .string type)]

def datavalue (v : Value) : Except Unstorable Json :=
  (snak v).map (typed (valueType v))

def stringDatavalue (s : String) : Json :=
  typed "string" (.string s)

def itemDatavalue (i : ItemId) : Json :=
  typed "wikibase-entityid" (itemValue i)

def statement (p : PropertyId) (datavalue : Json) : Json :=
  .ofEntries [
    ("mainsnak", .ofEntries
      [("snaktype", .string "value"), ("property", .string p.text), ("datavalue", datavalue)]),
    ("type", .string "statement"), ("rank", .string "normal")]

def labels (language label : String) : Json :=
  .ofEntries [(language, .ofEntries [("language", .string language), ("value", .string label)])]

end Claim

end ClaimTables
