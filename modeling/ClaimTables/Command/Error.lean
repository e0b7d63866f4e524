import ClaimTables.Error

/-!
What can go wrong in a command.
-/

namespace ClaimTables.Command

inductive Fault where
  | tables (e : Error)
  | config (reason : String)
  | argument (text reason : String)
deriving DecidableEq

namespace Fault

def message : Fault → String
  | .tables e => "Adapter error: " ++ e.message
  | .config reason => "Config error: " ++ reason
  | .argument text reason => "Invalid argument " ++ Text.quoted text ++ ": " ++ reason

def causes : Fault → List String
  | .tables e => e.message :: e.causes
  | _ => []

end Fault

def ofTables {α : Type} (r : Except Error α) : Except Fault α :=
  r.mapError .tables

end ClaimTables.Command
