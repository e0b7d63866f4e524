import ClaimTables.Tables.Basic
import ClaimTables.Tables.Properties

/-!
Opening the tables of a schema in the namespace that settings name.
-/

namespace ClaimTables

namespace Tables

def baseOf (c : Client) (s : Settings) : Client.Action String :=
  match s.conceptBase with
  | some base => pure (Client.withoutEndSlashes base)
  | none => c.siteServer

def openWith (c : Client) (settings : Settings) (schema : Schema) : Action Tables := do
  Action.ofExcept settings.validate
  let base ← (baseOf c settings : Client.Action String)
  let reserved ← findReserved c ⟨settings.instanceOf⟩ ⟨settings.subclassOf⟩
  pure {
    client := c
    schema := schema
    space := ⟨settings.namespaceTag⟩
    reserved := reserved
    base := base
    hardDelete := settings.hardDelete
    itemPageStart := settings.itemPageStart }

def connect (settings : Settings) (schema : Schema) : Client.Action Tables :=
  (openWith (.ofSettings settings) settings schema).alone

end Tables

end ClaimTables
