import ClaimTables.Error
import ClaimTables.FieldType

/-!
Models and the views that inheritance gives of them. A model has at most one parent; its effective fields
are those of its ancestors, the root's first, and then its own.
-/

namespace ClaimTables

structure Field where
  name : String
  type : FieldType
  nullable : Bool
  unique : Bool
deriving DecidableEq

structure Model where
  name : String
  parent : Option String
  fields : List Field
deriving DecidableEq

structure ResolvedField where
  declaredBy : String
  field : Field
deriving DecidableEq

structure Schema where
  models : List Model

namespace Schema

def idField : String := "id"

def find? (s : Schema) (name : String) : Option Model :=
  s.models.find? (·.name = name)

def declares (s : Schema) (name : String) : Bool :=
  (s.find? name).isSome

def model (s : Schema) (name : String) : Except Error Model :=
  match s.find? name with
  | some m => .ok m
  | none => .error (.unknownModel name)

def children (s : Schema) (name : String) : List Model :=
  s.models.filter (·.parent = some name)

def cycleThrough (name : String) : Error :=
  .configuration ("inheritance cycle through " ++ name)

def climb (s : Schema) : (fuel : Nat) → (chain : List Model) → (name : String) → Except Error (List Model)
  | 0, _, name => .error (cycleThrough name)
  | fuel + 1, chain, name =>
    match s.model name with
    | .error e => .error e
    | .ok m =>
      if chain.any (·.name = m.name) then .error (cycleThrough m.name)
      else match m.parent with
        | none => .ok (m :: chain)
        | some parent => s.climb fuel (m :: chain) parent

def ancestry (s : Schema) (name : String) : Except Error (List Model) :=
  -- A chain longer than the schema repeats a model, so the fuel is never used up.
  s.climb (s.models.length + 1) [] name

def collect (s : Schema) : (fuel : Nat) → (found : List Model) → (stack : List String) → List Model
  | 0, found, _ => found
  | _ + 1, found, [] => found
  | fuel + 1, found, name :: stack =>
    let fresh := (s.children name).filter fun m => !found.any (·.name = m.name)
    s.collect fuel (found ++ fresh) ((fresh.map (·.name)).reverse ++ stack)

def descendants (s : Schema) (name : String) : List Model :=
  s.collect (s.models.length + 1) [] [name]

def declared (m : Model) : List ResolvedField :=
  m.fields.map fun f => ⟨m.name, f⟩

def fields (s : Schema) (name : String) : Except Error (List ResolvedField) :=
  (s.ancestry name).map fun chain => chain.flatMap declared

def field (s : Schema) (model name : String) : Except Error ResolvedField := do
  match (← s.fields model).find? (·.field.name = name) with
  | some f => .ok f
  | none => .error (.unmappedField model name)

end Schema

end ClaimTables
