import ClaimTables.Client.Edits
import ClaimTables.Namespace
import ClaimTables.Query.Path

/-!
One namespace of a store seen as tables. The property of a field and the item of a model are found by
their labels, or made, and remembered until they are forgotten on purpose; the properties that all
namespaces share are never forgotten.
-/

namespace ClaimTables

structure Mappings where
  fields : List (FieldKey × PropertyId)
  owners : List (PropertyId × FieldKey)
  types : List (String × ItemId)
  shared : List (String × PropertyId) := []

namespace Mappings

def empty : Mappings := ⟨[], [], [], []⟩

def forget (m : Mappings) : Mappings :=
  { empty with shared := m.shared }

end Mappings

structure Tables where
  client : Client
  schema : Schema
  space : Namespace
  reserved : Reserved
  base : String
  hardDelete : Bool
  itemPageStart : String

namespace Tables

/-- What the tables do: talk to the store, and keep the session and the mappings, also when it fails. -/
abbrev Action := ExceptT Error (StateT Mappings (StateT Session Dialogue))

namespace Action

variable {α : Type}

def ofClient (x : Client.Action α) : Action α :=
  ExceptT.mk (StateT.lift x.run)

instance : MonadLift Client.Action Action := ⟨ofClient⟩

def mappings : Action Mappings :=
  getThe Mappings

def update (f : Mappings → Mappings) : Action Unit :=
  modifyThe Mappings f

def ofExcept : Except Error α → Action α
  | .ok a => pure a
  | .error e => throw e

def outcome (x : Action α) : Action (Except Error α) :=
  ExceptT.mk (do
    let r ← x.run
    pure (.ok r))

def freshName : Action String :=
  ofClient (Client.Action.ofDialogue (.perform .freshName fun name => .done (.ok name)))

/-- What is done with nothing known, and nothing remembered of it. -/
def alone (x : Action α) : Client.Action α :=
  ExceptT.mk (Prod.fst <$> x.run.run .empty)

end Action

def clear : Action Unit :=
  Action.update Mappings.forget

end Tables

end ClaimTables
