import ClaimTables.Http.Cookie

/-!
Messages and their answers as documents, for a network that is reached through another program.
-/

namespace ClaimTables.Http

namespace Message

def toJson (m : Message) : Json :=
  .ofEntries [("method", .string m.method), ("url", .string m.url),
    ("headers", .array (m.headers.map fun (name, value) => .array [.string name, .string value])),
    ("body", .string m.body)]

end Message

namespace Outcome

def headersIn (j : Json) : List (String × String) :=
  (j.get "headers").items.filterMap fun h =>
    match h.items with
    | [.string name, .string value] => some (name, value)
    | _ => none

def ofDocument : Option Json → Outcome
  | none => .unanswered
  | some j =>
    match (j.get "status").word?, (j.get "body").text? with
    | some status, some body => .answered ⟨status.toNat, headersIn j, body⟩
    | _, _ => .unanswered

end Outcome

end ClaimTables.Http
