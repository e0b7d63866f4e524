import ClaimTables.Schema

/-!
Dotted paths through a schema. A path starts at a model and follows references; it ends at a field or,
with the name of the identifier, at the row reached.
-/

namespace ClaimTables

/-- The model that declares a field, and the field's name: what a property is made for. -/
structure FieldKey where
  model : String
  field : String
deriving DecidableEq

namespace ResolvedField

def key (f : ResolvedField) : FieldKey :=
  ⟨f.declaredBy, f.field.name⟩

end ResolvedField

inductive Target where
  | row
  | field (type : FieldType)
deriving DecidableEq

namespace Target

def type? : Target → Option FieldType
  | .row => none
  | .field type => some type

end Target

/-- The fields that a path passes, as far as it goes, and where it ends or why it does not. -/
structure Walk where
  steps : List ResolvedField
  ending : Except Error Target

namespace Path

def segments (path : String) : List String :=
  (path.toList.splitOn '.').map String.ofList

def follow (s : Schema) (model path : String) : (current : String) → List String → Walk
  | _, [] => ⟨[], .error (.unsupportedQuery model path "empty path")⟩
  | current, segment :: rest =>
    if segment = Schema.idField ∧ rest = [] then ⟨[], .ok .row⟩
    else match s.field current segment with
      | .error e => ⟨[], .error e⟩
      | .ok f =>
        if rest = [] then ⟨[f], .ok (.field f.field.type)⟩
        else match f.field.type.target? with
          | none => ⟨[f], .error (.unsupportedQuery model path
              (current ++ "." ++ segment ++ " is not a foreign key"))⟩
          | some target =>
            let walk := follow s model path target rest
            ⟨f :: walk.steps, walk.ending⟩

def walk (s : Schema) (model path : String) : Walk :=
  if path = Schema.idField then ⟨[], .ok .row⟩
  else if (segments path).any (·.isEmpty) then ⟨[], .error (.unsupportedQuery model path "empty path segment")⟩
  else follow s model path model (segments path)

end Path

end ClaimTables
