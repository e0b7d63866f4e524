import ClaimTables.Command.Error
import ClaimTables.Query
import ClaimTables.Schema
import ClaimTables.Text.Search

/-!
Filters, orders and assignments as they are typed: `age>30`, `author.name = Ada`, `name in Ada,Alan`,
`nickname is not null`, `-age`, `age=36`. A keyword counts only before the first sign of comparison.
-/

namespace ClaimTables.Command

def typeAlong (s : Schema) (path : String) : (current : String) → List String → Except Fault (Option FieldType)
  | _, [] => .error (.argument path "empty path")
  | current, segment :: rest =>
    if segment = Schema.idField ∧ rest = [] then .ok none
    else match s.field current segment with
      | .error e => .error (.tables e)
      | .ok f =>
        match rest, f.field.type with
        | [], type => .ok (some type)
        | rest, .reference target => typeAlong s path target rest
        | _, _ => .error (.argument path (segment ++ " is not a foreign key"))

def pathType (s : Schema) (model path : String) : Except Fault (Option FieldType) :=
  typeAlong s path model ((path.toList.splitOn '.').map String.ofList)

def unreadable (type : FieldType) (raw : String) : Error :=
  .configuration ("cannot parse " ++ Text.quoted raw ++ " as " ++ Value.expectation type)

def parseValue (type : FieldType) (raw : String) : Except Error Value :=
  match Value.ofText? type raw with
  | some v => .ok v
  | none => .error (unreadable type raw)

def operand (type : Option FieldType) (raw : List Char) : Except Fault Value :=
  let raw := String.ofList (Text.trimList raw)
  match type with
  | some type => ofTables (parseValue type raw)
  | none => .ok (.reference raw)

def isSign (c : Char) : Bool :=
  c = '=' || c = '!' || c = '<' || c = '>'

def comparison? : List Char → Option Comparison × List Char
  | '!' :: '=' :: cs => (some .different, cs)
  | '<' :: '=' :: cs => (some .atMost, cs)
  | '>' :: '=' :: cs => (some .atLeast, cs)
  | '=' :: cs => (some .equal, cs)
  | '<' :: cs => (some .less, cs)
  | '>' :: cs => (some .greater, cs)
  -- A lone exclamation mark is no comparison.
  | _ :: cs => (none, cs)
  | [] => (none, [])

def pathText (cs : List Char) : String :=
  String.ofList (Text.trimList cs)

def membership (s : Schema) (model : String) (path items : List Char) : Except Fault Filter := do
  let path := pathText path
  let type ← pathType s model path
  let values ← ((items.splitOn ',').filter fun item => !item.all Text.isBlank).mapM (operand type)
  .ok ⟨path, .oneOf values⟩

def comparing (s : Schema) (model : String) (expression path rest : List Char) : Except Fault Filter := do
  let path := pathText path
  let (comparison, raw) := comparison? rest
  let type ← pathType s model path
  let value ← operand type raw
  match comparison with
  | some comparison => .ok ⟨path, .compare comparison value⟩
  | none => .error (.argument (String.ofList expression)
      ("unknown operator " ++ String.ofList (rest.take 1)))

def parseWords (s : Schema) (model : String) (expression : List Char) : Except Fault Filter :=
  match Text.beforeEnd? " is not null".toList expression with
  | some path => .ok ⟨pathText path, .isNull false⟩
  | none =>
    match Text.beforeEnd? " is null".toList expression with
    | some path => .ok ⟨pathText path, .isNull true⟩
    | none =>
      match Text.cut? " in ".toList expression with
      | some (path, items) => membership s model path items
      | none => .error (.argument (String.ofList expression) "expected a comparison operator")

def parseFilter (s : Schema) (model expression : String) : Except Fault Filter :=
  let expression := Text.trimList expression.toList
  let path := expression.takeWhile fun c => !isSign c
  let rest := expression.dropWhile fun c => !isSign c
  if rest.isEmpty then parseWords s model expression
  else match Text.cut? " in ".toList path with
    | some (path, items) => membership s model path (items ++ rest)
    | none => comparing s model expression path rest

def parseSortKey (text : String) : SortKey :=
  match text.toList with
  | '-' :: path => ⟨String.ofList path, true⟩
  | _ => ⟨text, false⟩

def parseQuery (s : Schema) (model : String) (filters order : List String) (limit offset : Option UInt64) :
    Except Fault Query := do
  let filters ← filters.mapM (parseFilter s model)
  .ok ⟨filters, order.map parseSortKey, limit, offset⟩

def parseAssignment (text : String) : Except Fault (String × String) :=
  match Text.cut? ['='] text.toList with
  | some (field, value) => .ok (String.ofList field, String.ofList value)
  | none => .error (.argument text "expected field=value")

def parseValues (s : Schema) (model : String) (pairs : List (String × String)) :
    Except Error (List (String × Value)) := do
  let values ← pairs.mapM fun (name, raw) => do
    let f ← s.field model name
    let value ← (parseValue f.field.type raw).mapError fun e => .invalidValue model name e.message
    .ok (name, value)
  -- Of two values for one field the later stays.
  .ok (Keyed.ofList values)

end ClaimTables.Command
