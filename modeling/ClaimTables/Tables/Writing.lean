import ClaimTables.Claim.Edit
import ClaimTables.Row.Validation
import ClaimTables.Tables.Reading

/-!
Writing tables. Values are checked, then looked up where they have to be unique, and only then written: a
row that is refused leaves the store as it was. A row is changed or deleted only if it belongs to the
namespace and is not deleted, and only its own claims are touched.
-/

namespace ClaimTables

namespace Tables

def checkHolders (t : Tables) (own : Option String) : CheckedValues → Action Unit
  | [] => pure ()
  | (f, v) :: rest => do
    match (← t.holders f v).find? fun i => some i.text ≠ own with
    | some other => throw (.uniqueViolation f.declaredBy f.field.name other.text)
    | none => t.checkHolders own rest

def checkUnique (t : Tables) (own : Option String) (values : CheckedValues) : Action Unit :=
  t.checkHolders own values.unique

def valueStatement (model : String) (f : ResolvedField) (p : PropertyId) (v : Value) : Except Error Json :=
  match Claim.datavalue v with
  | .ok d => .ok (Claim.statement p d)
  | .error why => .error (.invalidValue model f.field.name why.message)

def valueStatements (t : Tables) (model : String) : CheckedValues → Action (List Json)
  | [] => pure []
  | (f, v) :: rest =>
    if v.isNull then t.valueStatements model rest
    else do
      let p ← t.propertyOf f
      let statement ← Action.ofExcept (valueStatement model f p v)
      let statements ← t.valueStatements model rest
      pure (statement :: statements)

def rowStatements (t : Tables) (type : ItemId) : List Json :=
  [Claim.statement t.reserved.instanceOf (Claim.itemDatavalue type),
    Claim.statement t.reserved.tag (Claim.stringDatavalue t.space.tag)]

def insert (t : Tables) (model : String) (values : CheckedValues) : Action String := do
  let type ← t.typeItem model
  let statements ← t.valueStatements model values
  let label := t.space.rowLabel model (← Action.freshName)
  t.client.createEntity .item (t.client.itemData label (t.rowStatements type ++ statements))

def prepare (t : Tables) (model : String) (values : Values) : Action CheckedValues := do
  let checked ← Action.ofExcept (values.validate t.schema model true)
  t.checkUnique none checked
  pure checked

def create (t : Tables) (model : String) (values : Values) : Action String := do
  let checked ← t.prepare model values
  t.insert model checked

def prepareAll (t : Tables) (model : String) : List Values → Action (List CheckedValues)
  | [] => pure []
  | values :: rest => do
    let checked ← t.prepare model values
    let more ← t.prepareAll model rest
    pure (checked :: more)

def batchError (model : String) (created : List String) (e : Error) : Error :=
  if created.isEmpty then e else .partialBatch model created e

def insertAll (t : Tables) (model : String) : (created : List String) → List CheckedValues →
    Action (List String)
  | created, [] => pure created
  | created, values :: rest => do
    match ← (t.insert model values).outcome with
    | .ok id => t.insertAll model (created ++ [id]) rest
    | .error e => throw (batchError model created e)

def createMany (t : Tables) (model : String) (rows : List Values) : Action (List String) := do
  let checked ← t.prepareAll model rows
  Action.ofExcept (CheckedValues.checkBatch model checked)
  t.insertAll model [] checked

def naturalKey (t : Tables) (model : String) (values : Values) (key : String) :
    Except Error (ResolvedField × Value) := do
  let f ← t.schema.field model key
  if !f.field.unique then .error (.invalidValue model key "natural key must be a unique field")
  else match (values.lookup key).filter fun v => !v.isNull with
    | some v => .ok (f, v)
    | none => .error (.invalidValue model key "natural key value is required")

/-- The row with the given key, which is made if there is none, and whether it was made. -/
def createWithKey (t : Tables) (model : String) (values : Values) (key : String) :
    Action (String × Bool) := do
  let (f, v) ← Action.ofExcept (t.naturalKey model values key)
  match ← t.holders f v with
  | i :: _ => pure (i.text, false)
  | [] =>
    let id ← t.create model values
    pure (id, true)

def absent (id info : String) : Error :=
  .remoteWrite (some id) "no-such-entity" info

def ownedClaims (t : Tables) (model id : String) : Action ClaimSet := do
  match ← t.client.getClaims id with
  | none => throw (absent id "entity does not exist")
  | some claims =>
    if !claims.hasString t.reserved.tag t.space.tag then
      throw (.inconsistentData model (some id) "entity does not belong to this namespace")
    if claims.hasString t.reserved.deleted t.space.tag then
      throw (absent id "entity was deleted")
    let allowed ← t.rowTypes model
    if !(claims.items t.reserved.instanceOf).any allowed.contains then
      throw (.inconsistentData model (some id) ("entity is not a " ++ model))
    pure claims

def sendEdit (c : Client) (id : String) (p : PropertyId) : ClaimEdit → Client.Action Unit
  | .add snak => do
    let _ ← c.createClaim id p.text snak
  | .replace guid snak => c.setClaimValue id guid snak
  | .remove guids => c.removeClaims id guids

def sendEdits (c : Client) (id : String) (p : PropertyId) : List ClaimEdit → Client.Action Unit
  | [] => pure ()
  | edit :: rest => do
    sendEdit c id p edit
    sendEdits c id p rest

structure Change where
  field : ResolvedField
  property : PropertyId
  value : Value

def applyChange (c : Client) (model id : String) (claims : ClaimSet) (change : Change) :
    Client.Action Bool := do
  let stored := claims.get change.property
  match ClaimEdit.plan change.field.field.type change.value stored with
  | .error why => throw (.invalidValue model change.field.field.name why.message)
  | .ok edits =>
    sendEdits c id change.property edits
    pure (!edits.isEmpty)

def applyChanges (c : Client) (model id : String) (claims : ClaimSet) :
    List Change → Client.Action (List (String × Except Error Bool))
  | [] => pure []
  | change :: rest => do
    let result ← (applyChange c model id claims change).outcome
    let results ← applyChanges c model id claims rest
    pure ((change.field.field.name, result) :: results)

def applied (results : List (String × Except Error Bool)) : List String :=
  results.filterMap fun (name, result) =>
    match result with
    | .ok true => some name
    | _ => none

def failures (results : List (String × Except Error Bool)) : List (String × Error) :=
  results.filterMap fun (name, result) =>
    match result with
    | .ok _ => none
    | .error e => some (name, e)

/-- What an update comes to: if some fields failed, that depends on whether others took an edit. -/
def updateResult (id : String) (results : List (String × Except Error Bool)) :
    Except Error (List String) :=
  match failures results with
  | [] => .ok (applied results)
  | (name, e) :: more =>
    if (applied results).isEmpty then .error e
    else .error (.partialWrite id (applied results)
      (((name, e) :: more).map fun (name, e) => (name, e.message)))

def changesOf (t : Tables) : CheckedValues → Action (List Change)
  | [] => pure []
  | (f, v) :: rest => do
    let p ← t.propertyOf f
    let changes ← t.changesOf rest
    pure (⟨f, p, v⟩ :: changes)

def update (t : Tables) (model id : String) (values : Values) : Action (List String) := do
  let checked ← Action.ofExcept (values.validate t.schema model false)
  let claims ← t.ownedClaims model id
  t.checkUnique (some id) checked
  let changes ← t.changesOf checked
  let results ← (applyChanges t.client model id claims changes : Client.Action _)
  Action.ofExcept (updateResult id results)

def discard (t : Tables) (id : String) : Client.Action Unit := do
  if t.hardDelete then
    let _ ← t.client.deletePage id (t.itemPageStart ++ id)
  else
    let _ ← t.client.createClaim id t.reserved.deleted.text (.string t.space.tag)

def delete (t : Tables) (id : String) : Client.Action Unit := do
  match ← t.client.getClaims id with
  | none => pure ()
  | some claims =>
    let refuse := Error.inconsistentData t.space.tag (some id)
    if !claims.hasString t.reserved.tag t.space.tag then
      throw (refuse "entity does not belong to this namespace")
    if (claims.items t.reserved.instanceOf).isEmpty then
      throw (refuse "entity is not a row; type items cannot be deleted")
    if claims.hasString t.reserved.deleted t.space.tag then pure ()
    else t.discard id

end Tables

end ClaimTables
