import ClaimTables.Error
import ClaimTables.Sparql.Solutions

/-!
Requests to the two services of the store: the edit API, which takes named parameters and answers with a
JSON document, and the query service, which takes a query and answers with its solutions.
-/

namespace ClaimTables

inductive ParameterValue where
  | text (s : String)
  | json (document : Json)

abbrev Parameters := List (String × ParameterValue)

inductive Request where
  | get (parameters : Parameters)
  | post (parameters : Parameters)
  | query (text : String)

abbrev Request.Reply : Request → Type
  | .get _ => Json
  | .post _ => Json
  | .query _ => Sparql.Solutions

namespace Parameters

def ofTexts (pairs : List (String × String)) : Parameters :=
  pairs.map fun (name, s) => (name, .text s)

/-- The action that parameters ask for; the edit API as a whole where they name none. -/
def action (ps : Parameters) : String :=
  match ps.lookup "action" with
  | some (.text s) => s
  | _ => "api"

end Parameters

namespace Request

def readReply : (r : Request) → Json → Except Error r.Reply
  | .get _, document => .ok document
  | .post _, document => .ok document
  | .query _, document =>
    match Sparql.Solutions.ofJson? document with
    | some solutions => .ok solutions
    | none => .error (.serialization "the document holds no solutions")

end Request

end ClaimTables
