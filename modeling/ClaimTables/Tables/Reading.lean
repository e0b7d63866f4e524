import ClaimTables.Query.Outline
import ClaimTables.Row.Stream
import ClaimTables.Tables.Types

/-!
Reading tables: a query is put into the store's words, sent, and its solutions read as rows.
-/

namespace ClaimTables

namespace Tables

def vocabulary (t : Tables) (type : ItemId) (properties : List (FieldKey × PropertyId)) : Vocabulary where
  base := t.base
  tag := t.space.tag
  reserved := t.reserved
  type := type
  property key := (properties.lookup key).getD ⟨0⟩

def select (t : Tables) (model : String) (q : Query) (counting : Bool) : Action Sparql.Select := do
  let fields ← Action.ofExcept (t.schema.fields model)
  let type ← t.typeItem model
  let properties ← t.propertiesOf (q.mentions t.schema model fields counting)
  let outline ← Action.ofExcept (q.outline t.schema model fields counting)
  let v := t.vocabulary type properties
  pure (if counting then outline.count v else outline.rows v q.limit q.offset)

def rowsText (t : Tables) (model : String) (q : Query) : Action String :=
  Sparql.Select.text <$> t.select model q false

def countText (t : Tables) (model : String) (q : Query) : Action String :=
  Sparql.Select.text <$> t.select model q true

def rows (t : Tables) (model : String) (q : Query) : Action RowStream := do
  let text ← t.rowsText model q
  let solutions ← t.client.query text
  Action.ofExcept (RowStream.ofSolutions t.schema model solutions)

def readCount (model : String) (solutions : Sparql.Solutions) : Except Error UInt64 :=
  match solutions.solutions.head?.bind (·.lookup Sparql.Variable.count.name) with
  | none => .ok 0
  | some b =>
    match Text.word? b.value.toList with
    | some n => .ok n
    | none => .error (.inconsistentData model none
        ("query service returned count " ++ Text.quoted b.value))

def count (t : Tables) (model : String) (q : Query) : Action UInt64 := do
  let text ← t.countText model q
  let solutions ← t.client.query text
  Action.ofExcept (readCount model solutions)

def rowQuery (id : String) : Query :=
  .havingValue Schema.idField (.reference id)

def row? (t : Tables) (model id : String) : Action (Option Row) := do
  let stream ← t.rows model (rowQuery id)
  match stream.next? with
  | none => pure none
  | some (row, _) => some <$> Action.ofExcept row

def typesAmong (t : Tables) : List Model → Action (List (String × ItemId))
  | [] => pure []
  | m :: rest => do
    let item ← t.findType m.name
    let found ← t.typesAmong rest
    pure ((item.map fun i => (m.name, i)).toList ++ found)

def storedModels (t : Tables) : Action (List (String × ItemId)) :=
  t.typesAmong t.schema.models

def itemsOf (solutions : Sparql.Solutions) : List ItemId :=
  (solutions.bindingsOf Sparql.Variable.item.name).filterMap fun b => ItemId.ofIri? b.value

def holders (t : Tables) (f : ResolvedField) (v : Value) : Action (List ItemId) := do
  let text ← t.rowsText f.declaredBy (.havingValue f.field.name v)
  itemsOf <$> (t.client.query text : Client.Action Sparql.Solutions)

end Tables

end ClaimTables
