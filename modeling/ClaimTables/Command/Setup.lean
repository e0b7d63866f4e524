import ClaimTables.Command.Error
import ClaimTables.Schema.Validation
import ClaimTables.Settings.Layers

/-!
What a command reads before it runs: the settings, those of the log, and the models of its schema.
-/

namespace ClaimTables.Command

abbrev Files := List (String × String)

namespace Files

def find? (files : Files) (name : String) : Option String :=
  match files.lookup name with
  | some text => if name.endsWith ".json" then some text else none
  | none => files.lookup (name ++ ".json")

def candidates (name : String) : List String :=
  [name, name ++ ".json"]

end Files

def schemaOf (path : String) (text : Option String) : Except Fault Schema :=
  match text.bind Layers.models? with
  | none => .error (.config Layers.unreadable)
  | some [] => .error (.config ("schema " ++ path ++ " declares no models"))
  | some models => ofTables (Schema.ofModels models)

def loggingOf (l : Layers) : Except Fault Logging :=
  match l.logging? with
  | some logging => .ok logging
  | none => .error (.config Layers.unreadable)

end ClaimTables.Command
