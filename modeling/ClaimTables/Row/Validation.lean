import ClaimTables.Claim.Encoding
import ClaimTables.Error
import ClaimTables.Schema

/-!
Checks of values before they are written as a row: against the fields of the model, and against the other
rows of a batch.
-/

namespace ClaimTables

abbrev Values := List (String × Value)

/-- Values of a row that have passed the checks, in the order of the model's fields. -/
abbrev CheckedValues := List (ResolvedField × Value)

namespace Values

def check (model : String) (f : ResolvedField) (v : Value) : Except Error Unit :=
  let refuse := Error.invalidValue model f.field.name
  if v.isNull then
    if f.field.nullable then .ok () else .error (refuse "field is not nullable")
  else if !v.fits f.field.type then
    .error (refuse (v.toText ++ " is not a " ++ f.field.type.datatype))
  else match Claim.snak v with
    | .ok _ => .ok ()
    | .error why => .error (refuse why.message)

def checkFields (model : String) (values : Values) (creating : Bool) :
    List ResolvedField → Except Error CheckedValues
  | [] => .ok []
  | f :: rest =>
    match values.lookup f.field.name with
    | none =>
      if creating && !f.field.nullable then
        .error (.invalidValue model f.field.name "required field is missing")
      else checkFields model values creating rest
    | some v =>
      match check model f v with
      | .error e => .error e
      | .ok () => (checkFields model values creating rest).map ((f, v) :: ·)

def unknown? (values : Values) (fields : List ResolvedField) : Option String :=
  (values.map (·.1)).find? fun name => !fields.any (·.field.name = name)

def validate (s : Schema) (model : String) (values : Values) (creating : Bool) :
    Except Error CheckedValues :=
  match s.fields model with
  | .error e => .error e
  | .ok fields =>
    match values.unknown? fields with
    | some name => .error (.unmappedField model name)
    | none => values.checkFields model creating fields

end Values

namespace CheckedValues

def unique (row : CheckedValues) : CheckedValues :=
  row.filter fun (f, v) => f.field.unique && !v.isNull

structure Mark where
  field : String
  value : Value
  row : Nat

def mark (model : String) (index : Nat) : List Mark → CheckedValues → Except Error (List Mark)
  | seen, [] => .ok seen
  | seen, (f, v) :: rest =>
    match seen.find? fun m => m.field = f.field.name && m.value.equals v with
    | some m => .error (.invalidValue model f.field.name ("rows " ++ Text.decimal m.row ++ " and "
        ++ Text.decimal index ++ " of the batch share the unique value " ++ v.toText))
    | none => mark model index (seen ++ [⟨f.field.name, v, index⟩]) rest

def markAll (model : String) : (index : Nat) → List Mark → List CheckedValues → Except Error Unit
  | _, _, [] => .ok ()
  | index, seen, row :: rest =>
    match mark model index seen row.unique with
    | .error e => .error e
    | .ok seen => markAll model (index + 1) seen rest

def checkBatch (model : String) (rows : List CheckedValues) : Except Error Unit :=
  markAll model 0 [] rows

end CheckedValues

end ClaimTables
