import ClaimTables.Keyed
import ClaimTables.Schema

/-!
Checking a list of model declarations. The names are looked at in the order of declaration; then each
model in the order of names: its parent, its ancestry, its effective fields.
-/

namespace ClaimTables.Schema

def isIdentifier (name : String) : Bool :=
  match name.toList with
  | [] => false
  | c :: cs => (c.isAlpha || c = '_') && cs.all fun c => c.isAlphanum || c = '_'

def declare (seen : List (String × Model)) : List Model → Except Error (List (String × Model))
  | [] => .ok seen
  | m :: rest =>
    if !isIdentifier m.name then .error (.configuration ("invalid model name " ++ Text.quoted m.name))
    else if (seen.lookup m.name).isSome then .error (.configuration ("model " ++ m.name ++ " declared twice"))
    else declare (Keyed.insert m.name m seen) rest

def checkFields (s : Schema) (model : String) : (seen : List String) → List ResolvedField → Except Error Unit
  | _, [] => .ok ()
  | seen, f :: rest =>
    let name := f.field.name
    if !isIdentifier name || name = idField then
      .error (.configuration ("model " ++ model ++ " declares invalid field name " ++ Text.quoted name))
    else if seen.contains name then
      .error (.configuration ("field " ++ name ++ " is declared more than once in the hierarchy of " ++ model))
    else match f.field.type.target? with
      | none => s.checkFields model (name :: seen) rest
      | some target =>
        if s.declares target then s.checkFields model (name :: seen) rest
        else .error (.configuration
          ("field " ++ model ++ "." ++ name ++ " references unknown model " ++ target))

def checkParent (s : Schema) (m : Model) : Except Error Unit :=
  match m.parent with
  | none => .ok ()
  | some parent =>
    if s.declares parent then .ok ()
    else .error (.configuration ("model " ++ m.name ++ " inherits from unknown model " ++ parent))

def checkModel (s : Schema) (m : Model) : Except Error Unit := do
  s.checkParent m
  s.checkFields m.name [] (← s.fields m.name)

def ofModels (models : List Model) : Except Error Schema := do
  let schema : Schema := ⟨(← declare [] models).map (·.2)⟩
  schema.models.forM schema.checkModel
  .ok schema

end ClaimTables.Schema
