import ClaimTables.Json.Parser
import ClaimTables.Json.Way
import ClaimTables.Schema.Decoding
import ClaimTables.Schema.Validation
import ClaimTables.Settings.Decoding
import ClaimTables.Text.Search

/-!
Where settings come from: a file, if there is one, and over it the variables of the environment whose
names begin with the program's. A variable's name spells the way to a setting, two underscores a step.
-/

namespace ClaimTables

/-- What a program finds outside: the text of its file, if there is one, and its variables. -/
structure Layers where
  file : Option String
  environment : List (String × String)

namespace Layers

def variableNames : List String :=
  let start := "WIKIGRAPH__"
  Settings.keys.map (fun key => start ++ "WIKIBASE__" ++ String.ofList (key.toList.map Char.toUpper))
    ++ [start ++ "LOGGING__LEVEL", start ++ "LOGGING__JSON"]

def pointed : List Char → List Char
  | '_' :: '_' :: cs => '.' :: pointed cs
  | c :: cs => c :: pointed cs
  | [] => []

def wayOfVariable? (name : String) : Option (List Json.Step) :=
  (Text.afterFront? "wikigraph__".toList (Json.lowerKey name).toList).map fun rest =>
    Json.Step.ofKey (String.ofList (pointed rest))

def integer? (cs : List Char) : Option Int :=
  let value : Option Int := match cs with
    | '-' :: cs => (Text.numeral? cs).map fun n => -(n : Int)
    | cs => (Text.unsigned? cs).map fun n => (n : Int)
  value.filter fun n => Int64.minValue.toInt ≤ n && n ≤ Int64.maxValue.toInt

def ofVariable (s : String) : Json :=
  let word := s.toList.map Char.toLower
  if word = "true".toList then .bool true
  else if word = "false".toList then .bool false
  else match integer? s.toList with
    | some n => .integer n
    | none =>
      match Binary64.ofList? s.toList with
      | some x => .number x
      | none => .string s

mutual

def narrowed : Json → Json
  | .integer n =>
    if n ≤ Int64.maxValue.toInt then .integer n else .number (Binary64.ofDecimal false ⟨n.toNat, 0⟩)
  | .array items => .array (narrowedItems items)
  | .object entries => .object (narrowedEntries entries)
  | j => j

def narrowedItems : List Json → List Json
  | [] => []
  | j :: rest => narrowed j :: narrowedItems rest

def narrowedEntries : List (String × Json) → List (String × Json)
  | [] => []
  | (key, j) :: rest => (key, narrowed j) :: narrowedEntries rest

end

def ofFile? (text : String) : Option Json :=
  match Json.parse? text with
  | some (.object entries) =>
    some (entries.foldl (fun root entry => (narrowed entry.2).put (Json.Step.ofKey entry.1) (some root)) (.object []))
  | _ => none

def overlay (root : Json) (environment : List (String × String)) : Json :=
  environment.foldl (fun root entry =>
    match wayOfVariable? entry.1 with
    | some way => (ofVariable entry.2).put way (some root)
    | none => root) root

def document? (l : Layers) : Option Json :=
  match l.file with
  | none => some (overlay (.object []) l.environment)
  | some text => (ofFile? text).map (overlay · l.environment)

def section? {α : Type} (l : Layers) (name : String) (value : α) (read : Json → Option α) : Option α :=
  match l.document? with
  | none => none
  | some document =>
    match document.get? name with
    | none => some value
    | some j => read j

def unreadable : String := "the configuration cannot be read"

def settings (l : Layers) : Except Error Settings :=
  match l.section? "wikibase" Settings.default (Settings.ofJson? Reading.converting) with
  | none => .error (.configuration unreadable)
  | some s =>
    match s.validate with
    | .ok () => .ok s
    | .error e => .error e

def logging? (l : Layers) : Option Logging :=
  l.section? "logging" Logging.default (Logging.ofJson? Reading.converting)

def models? (text : String) : Option (List Model) :=
  (ofFile? text).bind fun document =>
    Reading.orElse [] (Reading.list? (Model.ofJson? Reading.converting)) (document.get? "models")

end Layers

end ClaimTables
