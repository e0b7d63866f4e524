import ClaimTables.Tables.Properties

/-!
The items of models. The item of a model is a subclass of its parent's, so that asking for the rows of a
model gives those of its descendants as well.
-/

namespace ClaimTables

namespace Client

def readItem (model id : String) : Except Error ItemId :=
  match ItemId.ofText? id with
  | some i => .ok i
  | none => .error (.inconsistentData model (some id) (id ++ " is not an item id"))

def findItem (c : Client) (label model : String) : Action (Option ItemId) := do
  match ← c.searchExact label .item with
  | [] => pure none
  | [id] => some <$> liftExcept (readItem model id)
  | ids => throw (ambiguous model label "items" ids)

def itemData (c : Client) (label : String) (statements : List Json) : Json :=
  .ofEntries [("labels", Claim.labels c.language label), ("claims", .array statements)]

end Client

namespace Tables

def typeStatements (t : Tables) (parent : Option ItemId) : List Json :=
  Claim.statement t.reserved.tag (Claim.stringDatavalue t.space.tag)
    :: (parent.map fun i => Claim.statement t.reserved.subclassOf (Claim.itemDatavalue i)).toList

def findOrCreateType (t : Tables) (model : String) (parent : Option ItemId) : Client.Action ItemId := do
  let label := t.space.typeLabel model
  match ← t.client.findItem label model with
  | some i => pure i
  | none =>
    let id ← t.client.createEntity .item (t.client.itemData label (t.typeStatements parent))
    liftExcept (Client.readItem model id)

def typeBelow (t : Tables) (model : String) (parent : Option ItemId) : Action ItemId := do
  match (← Action.mappings).types.lookup model with
  | some i => pure i
  | none =>
    let i ← (t.findOrCreateType model parent : Client.Action ItemId)
    Action.update fun m => { m with types := (model, i) :: m.types }
    pure i

def typeAlong (t : Tables) : (parent : Option ItemId) → List Model → Action (Option ItemId)
  | parent, [] => pure parent
  | parent, m :: rest => do
    let i ← t.typeBelow m.name parent
    t.typeAlong (some i) rest

def typeItem (t : Tables) (model : String) : Action ItemId := do
  let chain ← Action.ofExcept (t.schema.ancestry model)
  match ← t.typeAlong none chain with
  | some i => pure i
  | none => throw (.unknownModel model)

def typeItems (t : Tables) : List String → Action (List ItemId)
  | [] => pure []
  | model :: rest => do
    let i ← t.typeItem model
    let is ← t.typeItems rest
    pure (i :: is)

def insertItem (i : ItemId) : List ItemId → List ItemId
  | [] => [i]
  | j :: rest =>
    if i.number < j.number then i :: j :: rest
    else if i = j then j :: rest
    else j :: insertItem i rest

theorem mem_insertItem {i k : ItemId} {items : List ItemId} :
    k ∈ insertItem i items ↔ k = i ∨ k ∈ items := by
  induction items with
  | nil => simp [insertItem]
  | cons j rest ih =>
    simp only [insertItem]
    split
    · simp
    · split
      · next h =>
        subst h
        simp
      · simp only [List.mem_cons, ih]
        constructor
        · rintro (h | h | h) <;> simp [h]
        · rintro (h | h | h) <;> simp [h]

def rowTypes (t : Tables) (model : String) : Action (List ItemId) := do
  let items ← t.typeItems (model :: (t.schema.descendants model).map (·.name))
  -- Each once, and in ascending order.
  pure (items.foldr insertItem [])

def findType (t : Tables) (model : String) : Action (Option ItemId) := do
  let _ ← Action.ofExcept (t.schema.model model)
  match (← Action.mappings).types.lookup model with
  | some i => pure (some i)
  | none => t.client.findItem (t.space.typeLabel model) model

end Tables

end ClaimTables
