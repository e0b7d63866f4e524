import ClaimTables.Json.Reading
import ClaimTables.Schema

/-!
Reading models from JSON documents.
-/

namespace ClaimTables

namespace FieldType

def names : List String := ["text", "number", "boolean", "date", "foreign_key"]

def ofName? (target : Option Json) : String → Option FieldType
  | "text" => some .text
  | "number" => some .number
  | "boolean" => some .boolean
  | "date" => some .date
  | "foreign_key" => (target.bind Json.text?).map .reference
  | _ => none

def ofJson? : Json → Option FieldType
  | .object entries => ((entries.lookup "type").bind Json.text?).bind (ofName? (entries.lookup "target"))
  | .array [.string "foreign_key", target] => ofName? (some target) "foreign_key"
  | .array [.string name] => ofName? none name
  | _ => none

def ofField? (r : Reading) (j : Json) : Option FieldType :=
  match j.get? "type" with
  | some (.integer (.ofNat n)) => if r.allowsPlaces then names[n]?.bind (ofName? (j.get? "target")) else none
  | some (.string name) => ofName? (j.get? "target") name
  | _ => none

def entries : FieldType → List (String × Json)
  | .text => [("type", .string "text")]
  | .number => [("type", .string "number")]
  | .boolean => [("type", .string "boolean")]
  | .date => [("type", .string "date")]
  | .reference target => [("type", .string "foreign_key"), ("target", .string target)]

def toJson (t : FieldType) : Json :=
  .ofEntries t.entries

end FieldType

namespace Field

def ofJson? (r : Reading) (j : Json) : Option Field :=
  match j with
  | .object _ => do
    let name ← (j.get? "name").bind r.text?
    let type ← FieldType.ofField? r j
    let nullable ← Reading.orElse false r.flag? (j.get? "nullable")
    let unique ← Reading.orElse false r.flag? (j.get? "unique")
    some ⟨name, type, nullable, unique⟩
  | _ => none

def toJson (f : Field) : Json :=
  .ofEntries (f.type.entries ++
    [("name", .string f.name), ("nullable", .bool f.nullable), ("unique", .bool f.unique)])

end Field

namespace Model

def ofJson? (r : Reading) (j : Json) : Option Model := do
  if r.isRecord 3 j then
    let name ← (Reading.member? "name" 0 j).bind r.text?
    let parent ← Reading.optional r.text? (Reading.member? "parent" 1 j)
    let fields ← Reading.orElse [] (Reading.list? (Field.ofJson? r)) (Reading.member? "fields" 2 j)
    some ⟨name, parent, fields⟩
  else none

def toJson (m : Model) : Json :=
  .ofEntries [("name", .string m.name), ("parent", (m.parent.map Json.string).getD .null),
    ("fields", .array (m.fields.map Field.toJson))]

end Model

end ClaimTables
