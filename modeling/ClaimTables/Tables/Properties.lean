import ClaimTables.Claim.Encoding
import ClaimTables.Tables.Basic

/-!
The properties of fields, and those that all namespaces share. A field has the property of the model that
declares it, so a model and its descendants share the properties of inherited fields.
-/

namespace ClaimTables

namespace Client

def propertyData (c : Client) (label datatype : String) : Json :=
  .ofEntries [("labels", Claim.labels c.language label), ("datatype", .string datatype)]

def ambiguous (model label kinds : String) (ids : List String) : Error :=
  .inconsistentData model none
    ("label " ++ Text.quoted label ++ " is carried by several " ++ kinds ++ ": " ++ ", ".intercalate ids)

def readProperty (model id : String) : Except Error PropertyId :=
  match PropertyId.ofText? id with
  | some p => .ok p
  | none => .error (.inconsistentData model (some id) (id ++ " is not a property id"))

def property (c : Client) (label datatype model : String) : Action PropertyId := do
  match ← c.searchExact label .property with
  | [] =>
    let id ← c.createEntity .property (c.propertyData label datatype)
    liftExcept (readProperty model id)
  | [id] => liftExcept (readProperty model id)
  | ids => throw (ambiguous model label "properties" ids)

end Client

namespace Tables

def sharedProperty (c : Client) (label : String) : Action PropertyId := do
  match (← Action.mappings).shared.lookup label with
  | some p => pure p
  | none =>
    let p ← c.property label "string" "(reserved)"
    Action.update fun m => { m with shared := (label, p) :: m.shared }
    pure p

def findReserved (c : Client) (instanceOf subclassOf : PropertyId) : Action Reserved := do
  let tag ← sharedProperty c Namespace.tagLabel
  let deleted ← sharedProperty c Namespace.deletedLabel
  pure ⟨instanceOf, subclassOf, tag, deleted⟩

def lookUpProperty (t : Tables) (f : ResolvedField) : Action PropertyId := do
  match (← Action.mappings).fields.lookup f.key with
  | some p => pure p
  | none =>
    let label := t.space.propertyLabel f.key.model f.key.field
    let p ← t.client.property label f.field.type.datatype f.key.model
    Action.update fun m => { m with fields := (f.key, p) :: m.fields }
    pure p

def own (p : PropertyId) (key : FieldKey) : Action Unit := do
  match (← Action.mappings).owners.lookup p with
  | none => Action.update fun m => { m with owners := (p, key) :: m.owners }
  | some owner =>
    if owner ≠ key then
      throw (.inconsistentData key.model none (p.text ++ " is mapped to both " ++ owner.model ++ "."
        ++ owner.field ++ " and " ++ key.model ++ "." ++ key.field))

def propertyOf (t : Tables) (f : ResolvedField) : Action PropertyId := do
  let p ← t.lookUpProperty f
  own p f.key
  pure p

def property (t : Tables) (model field : String) : Action PropertyId := do
  let f ← Action.ofExcept (t.schema.field model field)
  t.propertyOf f

def propertiesOf (t : Tables) : List ResolvedField → Action (List (FieldKey × PropertyId))
  | [] => pure []
  | f :: rest => do
    let p ← t.propertyOf f
    let ps ← t.propertiesOf rest
    pure ((f.key, p) :: ps)

end Tables

end ClaimTables
