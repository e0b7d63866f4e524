import ClaimTables.Command.Run
import ClaimTables.Http.Relay
import ClaimTables.Text.Unique

/-!
The program. It has no network of its own: every message to the store is handed out as a line on the error
stream, and the answer is read as a line from the input. An empty line stands for a connection without an
answer.
-/

namespace ClaimTables

namespace Command

def perform (e : Http.Endpoints) : (effect : Effect) → StateT Http.Jar IO effect.Answer
  | .send r => do
    let jar ← get
    (IO.eprintln (jar.attach (Http.message e r)).toJson.compact : IO Unit)
    let line ← (do (← IO.getStdin).getLine : IO String)
    let outcome := Http.Outcome.ofDocument (Json.parse? line)
    if let .answered answer := outcome then set (jar.receive answer)
    pure (Http.reply e r outcome)
  | .wait milliseconds => (IO.sleep milliseconds.toUInt32 : IO Unit)
  | .clock => do
    let now ← (IO.monoMsNow : IO Nat)
    pure (Int.ofNat (now / 1000))
  | .freshName => do
    let n ← (IO.rand 0 (Nat.pow 2 128 - 1) : IO Nat)
    pure (Text.uniqueName n)

def readFile (name : String) : IO (Option (String × String)) := do
  try
    let text ← IO.FS.readFile name
    pure (some (name, text))
  catch _ => pure none

def readEnvironment : IO (List (String × String)) :=
  Layers.variableNames.filterMapM fun name => do
    pure ((← IO.getEnv name).map fun value => (name, value))

def finish (e : Ending) : IO UInt32 := do
  IO.print e.output
  unless e.report.isEmpty do IO.eprintln e.report
  pure e.code.toUInt32

end Command

end ClaimTables

open ClaimTables Command in
def main (args : List String) : IO UInt32 := do
  match Arguments.read args with
  | .error refusal => finish (.ofRefusal refusal)
  | .ok a =>
    let names := Files.candidates a.config ++ Files.candidates a.schema
    let files ← names.filterMapM readFile
    let environment ← readEnvironment
    let endpoints := match prepare a files environment with
      | .ok (settings, _) => Http.Endpoints.ofSettings settings
      | .error _ => ⟨"", "", 0⟩
    let (ending, _) ← ((run a files environment).run (perform endpoints)).run .empty
    finish ending
