import ClaimTables.Text.Digits
import ClaimTables.Text.Quoted

/-!
What can go wrong between a caller and the store, with enough detail to tell what was asked of whom.
-/

namespace ClaimTables

inductive Error where
  | configuration (reason : String)
  | unknownModel (model : String)
  | unmappedField (model field : String)
  | unsupportedQuery (model path reason : String)
  | invalidValue (model field reason : String)
  | uniqueViolation (model field existing : String)
  | authentication (reason : String)
  | remoteWrite (entity : Option String) (code info : String)
  | partialWrite (entity : String) (applied : List String) (failed : List (String × String))
  | partialBatch (model : String) (created : List String) (cause : Error)
  | timeout (operation : String) (seconds : Nat)
  | inconsistentData (model : String) (entity : Option String) (reason : String)
  | api (action code info : String)
  | queryRejected (status : Nat) (body : String)
  | transport (reason : String)
  | serialization (reason : String)
deriving DecidableEq

namespace Error

def entitySuffix : Option String → String
  | some id => " (" ++ id ++ ")"
  | none => ""

def quotedPair (p : String × String) : String :=
  "(" ++ Text.quoted p.1 ++ ", " ++ Text.quoted p.2 ++ ")"

def message : Error → String
  | .configuration reason => "Configuration error: " ++ reason
  | .unknownModel model => "Unknown model: " ++ model
  | .unmappedField model field => "Field " ++ field ++ " is not mapped for model " ++ model
  | .unsupportedQuery model path reason => "Unsupported query on " ++ model ++ "." ++ path ++ ": " ++ reason
  | .invalidValue model field reason => "Invalid value for " ++ model ++ "." ++ field ++ ": " ++ reason
  | .uniqueViolation model field existing =>
    "Value of unique field " ++ model ++ "." ++ field ++ " is already used by " ++ existing
  | .authentication reason => "Authentication error: " ++ reason
  | .remoteWrite entity code info => "Store rejected edit" ++ entitySuffix entity ++ ": " ++ code ++ ": " ++ info
  | .partialWrite entity applied failed =>
    "Partial write on " ++ entity ++ ": applied " ++ Text.bracketed (applied.map Text.quoted)
      ++ ", failed " ++ Text.bracketed (failed.map quotedPair)
  | .partialBatch model created cause =>
    "Bulk insert into " ++ model ++ " stopped after " ++ Text.decimal created.length ++ " rows: "
      ++ cause.message
  | .timeout operation seconds =>
    "Timed out after " ++ Text.decimal seconds ++ "s during " ++ operation
  | .inconsistentData model entity reason =>
    "Inconsistent data in " ++ model ++ entitySuffix entity ++ ": " ++ reason
  | .api action code info => "Edit API error during " ++ action ++ ": " ++ code ++ ": " ++ info
  | .queryRejected status body =>
    "SPARQL endpoint rejected query (HTTP " ++ Text.decimal status ++ "): " ++ body
  | .transport reason => "Transport error: " ++ reason
  | .serialization reason => "Serialization error: " ++ reason

def causes : Error → List String
  | .partialBatch _ _ cause => cause.message :: cause.causes
  | .serialization reason => [reason]
  | _ => []

def isRetryable : Error → Bool
  | .timeout _ _ | .transport _ => true
  -- A query that was put off, not refused.
  | .queryRejected status _ => status == 429
  | _ => false

/-- Codes by which the store says that a session or its edit token is no longer good. -/
def isExpiryCode (code : String) : Bool :=
  ["badtoken", "notoken", "assertuserfailed", "assertbotfailed"].contains code

def isExpiry : Error → Bool
  | .remoteWrite _ code _ => isExpiryCode code
  | _ => false

def withEntity (id : String) : Error → Error
  | .remoteWrite _ code info => .remoteWrite (some id) code info
  | e => e

end Error

end ClaimTables
