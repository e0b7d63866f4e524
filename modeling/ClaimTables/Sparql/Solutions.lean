import ClaimTables.Claim.Decoding
import ClaimTables.Json.Reading
import ClaimTables.Text.Quoted

/-!
The answers of the query service: a list of solutions, each of which binds some variables.
-/

namespace ClaimTables.Sparql

structure Binding where
  kind : String
  value : String
  datatype : Option String
  language : Option String
deriving DecidableEq

/-- One solution: its variables, without question marks, and what they are bound to. -/
abbrev Solution := List (String × Binding)

structure Solutions where
  names : List String
  solutions : List Solution

namespace Binding

def literal (s : String) : Binding :=
  ⟨"literal", s, none, none⟩

def ofJson? (j : Json) : Option Binding := do
  let r := Reading.strict
  if r.isRecord 4 j then
    let kind ← (Reading.member? "type" 0 j).bind r.text?
    let value ← (Reading.member? "value" 1 j).bind r.text?
    let datatype ← Reading.optional r.text? (Reading.member? "datatype" 2 j)
    let language ← Reading.optional r.text? (Reading.member? "xml:lang" 3 j)
    some ⟨kind, value, datatype, language⟩
  else none

def toJson (b : Binding) : Json :=
  .ofEntries ([("type", .string b.kind), ("value", .string b.value)]
    ++ (b.datatype.map fun d => ("datatype", Json.string d)).toList
    ++ (b.language.map fun l => ("xml:lang", Json.string l)).toList)

def decode? (type : FieldType) (b : Binding) : Option Value :=
  match type with
  | .text => some (.text b.value)
  | .boolean => Value.boolean? b.value
  | .number => Claim.number? b.value
  | .date => (Timestamp.ofQueried? b.value).map .date
  | .reference _ => (ItemId.ofIri? b.value).map fun i => .reference i.text

def undecodable (type : FieldType) (b : Binding) : String :=
  "cannot decode " ++ Text.quoted b.value ++ " as " ++ type.datatype

theorem fits_of_decode? {type : FieldType} {b : Binding} {v : Value} (h : b.decode? type = some v) :
    v.fits type = true := by
  cases type with
  | text =>
    obtain rfl := Option.some.inj h
    rfl
  | date | reference _ =>
    obtain ⟨x, _, rfl⟩ := Option.map_eq_some_iff.1 h
    rfl
  | number => exact Claim.fits_of_number? h
  | boolean => exact Value.fits_of_boolean? h

end Binding

namespace Solution

def ofJson? : Json → Option Solution
  | .object entries => entries.mapM fun (name, j) => (Binding.ofJson? j).map fun b => (name, b)
  | _ => none

def toJson (s : Solution) : Json :=
  .ofEntries (s.map fun (name, b) => (name, b.toJson))

end Solution

namespace Solutions

def empty : Solutions := ⟨[], []⟩

def listMember? {α : Type} (key : String) (read : Json → Option α) (j : Json) : Option (List α) := do
  if Reading.strict.isRecord 1 j then
    Reading.orElse [] (Reading.list? read) (Reading.member? key 0 j)
  else none

def ofJson? (j : Json) : Option Solutions := do
  if Reading.strict.isRecord 2 j then
    let names ← Reading.orElse [] (listMember? "vars" Json.text?) (Reading.member? "head" 0 j)
    let solutions ← Reading.orElse [] (listMember? "bindings" Solution.ofJson?) (Reading.member? "results" 1 j)
    some ⟨names, solutions⟩
  else none

def toJson (s : Solutions) : Json :=
  .ofEntries [("head", .ofEntries [("vars", .array (s.names.map .string))]),
    ("results", .ofEntries [("bindings", .array (s.solutions.map Solution.toJson))])]

def bindingsOf (s : Solutions) (name : String) : List Binding :=
  s.solutions.filterMap (·.lookup name)

end Solutions

end ClaimTables.Sparql
