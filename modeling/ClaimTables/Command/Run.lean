import ClaimTables.Command.Arguments
import ClaimTables.Command.Filter
import ClaimTables.Command.Setup
import ClaimTables.Json.Printer
import ClaimTables.Tables.Connection
import ClaimTables.Tables.Writing

/-!
Running a command: what it makes of the tables, what it prints, and with what code it ends. The session is
closed when the command is done, also when it failed.
-/

namespace ClaimTables.Command

inductive Failure where
  | tables (e : Error)
  | command (f : Fault)
deriving DecidableEq

namespace Failure

def message : Failure → String
  | .tables e => e.message
  | .command f => f.message

def causes : Failure → List String
  | .tables e => e.causes
  | .command f => f.causes

def indented (margin : String) (s : String) : String :=
  ("\n" ++ margin).intercalate ((s.toList.splitOn '\n').map String.ofList)

def numbered : (index : Nat) → List String → List String
  | _, [] => []
  | index, cause :: rest =>
    let number := Text.digits index
    (String.ofList (List.replicate (5 - number.length) ' ' ++ number) ++ ": " ++ indented "       " cause)
      :: numbered (index + 1) rest

def causeLines : List String → List String
  | [] => []
  | [cause] => ["", "Caused by:", "    " ++ indented "    " cause]
  | causes => "" :: "Caused by:" :: numbered 0 causes

def report (f : Failure) : String :=
  "\n".intercalate (("Error: " ++ f.message) :: causeLines f.causes)

end Failure

abbrev Action := ExceptT Failure (StateT Mappings (StateT Session Dialogue))

namespace Action

variable {α : Type}

def ofTables (x : Tables.Action α) : Action α :=
  ExceptT.mk (Except.mapError .tables <$> x.run)

def ofClient (x : Client.Action α) : Action α :=
  ofTables (Tables.Action.ofClient x)

def ofError : Except Error α → Action α
  | .ok a => pure a
  | .error e => throw (.tables e)

def ofFault : Except Fault α → Action α
  | .ok a => pure a
  | .error f => throw (.command f)

def reported (x : Tables.Action α) : Action α :=
  ExceptT.mk (Except.mapError (fun e => .command (.tables e)) <$> x.run)

end Action

def rowsDocument (t : Tables) (model : String) (q : Query) : Tables.Action Json := do
  let stream ← t.rows model q
  let rows ← Tables.Action.ofExcept stream.collect
  pure (.array (rows.map Row.toJson))

def Selection.read (t : Tables) (s : Selection) : Action Query :=
  Action.ofFault (parseQuery t.schema s.model s.filters s.order s.limit s.offset)

def assigned (t : Tables) (model : String) (assignments : List String) : Action Values := do
  let pairs ← Action.ofFault (assignments.mapM parseAssignment)
  Action.ofError (parseValues t.schema model pairs)

namespace Job

def perform (t : Tables) : Job → Action Json
  | .query s => do
    let q ← s.read t
    Action.reported (rowsDocument t s.model q)
  | .sparql s => do
    let q ← s.read t
    .string <$> Action.ofTables (t.rowsText s.model q)
  | .count s => do
    let q ← s.read t
    let n ← Action.ofTables (t.count s.model q)
    pure (.ofEntries [("model", .string s.model), ("count", .natural n.toNat)])
  | .models => do
    let stored ← Action.ofTables t.storedModels
    pure (.array (stored.map fun (model, i) =>
      .ofEntries [("model", .string model), ("type_item", .string i.text)]))
  | .get model id => do
    let row ← Action.ofTables (t.row? model id)
    pure ((row.map Row.toJson).getD .null)
  | .create model assignments none => do
    let values ← assigned t model assignments
    let id ← Action.ofTables (t.create model values)
    pure (.ofEntries [("id", .string id), ("created", .bool true)])
  | .create model assignments (some key) => do
    let values ← assigned t model assignments
    let (id, created) ← Action.ofTables (t.createWithKey model values key)
    pure (.ofEntries [("id", .string id), ("created", .bool created)])
  | .update model id assignments => do
    let values ← assigned t model assignments
    let changed ← Action.ofTables (t.update model id values)
    pure (.ofEntries [("id", .string id), ("changed", .array (changed.map .string))])
  | .delete id => do
    Action.ofClient (t.delete id)
    pure (.ofEntries [("id", .string id), ("deleted", .bool true)])

def run (settings : Settings) (schema : Schema) (job : Job) : Dialogue (Except Failure Json) := do
  let ((opened, known), session) ←
    ((Tables.openWith (.ofSettings settings) settings schema).run.run .empty).run Session.fresh
  match opened with
  | .error e => pure (.error (.tables e))
  | .ok t =>
    let ((result, _), session) ← ((job.perform t).run.run known).run session
    let _ ← Client.logOut.run.run session
    pure result

end Job

structure Ending where
  code : UInt8
  output : String
  report : String
deriving DecidableEq

namespace Ending

def ofResult : Except Failure Json → Ending
  | .ok j => ⟨0, j.pretty ++ "\n", ""⟩
  | .error f => ⟨1, "", f.report⟩

def usageText : String :=
  "Usage: wikigraph [OPTIONS] <COMMAND>"

def ofRefusal : Refusal → Ending
  | .usage => ⟨2, "", usageText⟩
  | .help => ⟨0, usageText ++ "\n", ""⟩

end Ending

def prepare (a : Arguments) (files : Files) (environment : List (String × String)) :
    Except Failure (Settings × Schema) := do
  let layers : Layers := ⟨files.find? a.config, environment⟩
  let _ ← (loggingOf layers).mapError .command
  let settings ← layers.settings.mapError .tables
  let schema ← (schemaOf a.schema (files.find? a.schema)).mapError .command
  .ok (settings, schema)

def run (a : Arguments) (files : Files) (environment : List (String × String)) : Dialogue Ending :=
  match prepare a files environment with
  | .error f => pure (.ofResult (.error f))
  | .ok (settings, schema) => Ending.ofResult <$> a.job.run settings schema

end ClaimTables.Command
