import ClaimTables.Http.Form
import ClaimTables.Json.Parser
import ClaimTables.Settings

/-!
Requests as messages of the hypertext protocol, and what the answers to such messages mean.
-/

namespace ClaimTables.Http

structure Endpoints where
  api : String
  sparql : String
  timeoutSeconds : Nat

def Endpoints.ofSettings (s : Settings) : Endpoints :=
  ⟨s.apiUrl, s.sparqlUrl, s.timeoutSeconds.toNat⟩

structure Message where
  method : String
  url : String
  headers : List (String × String)
  body : String

structure Response where
  status : Nat
  headers : List (String × String)
  body : String

inductive Outcome where
  | answered (r : Response)
  | expired
  | unanswered

def format : String × ParameterValue := ("format", .text "json")

def addQuery (url : String) (ps : Parameters) : String :=
  url ++ (if url.contains '?' then "&" else "?") ++ Form.text ps

def parameters : Request → Parameters
  | .get ps => format :: ps
  | .post ps => ps ++ [format]
  | .query _ => []

def agent : String := "wikigraph/0.1.0"

def message (e : Endpoints) (r : Request) : Message :=
  match r with
  | .get _ => ⟨"GET", addQuery e.api (parameters r), [("accept", "*/*"), ("user-agent", agent)], ""⟩
  | .post _ =>
    ⟨"POST", e.api, [("accept", "*/*"), ("content-type", "application/x-www-form-urlencoded"),
      ("user-agent", agent)], Form.text (parameters r)⟩
  | .query text =>
    ⟨"POST", e.sparql, [("accept", "application/sparql-results+json"),
      ("content-type", "application/sparql-query; charset=utf-8"), ("user-agent", agent)], text⟩

def operation : Request → String
  | .get ps => ps.action
  | .post ps => ps.action
  | .query _ => "sparql"

def reasons : List (Nat × String) := [
  (100, "Continue"), (101, "Switching Protocols"), (102, "Processing"), (200, "OK"), (201, "Created"),
  (202, "Accepted"), (203, "Non Authoritative Information"), (204, "No Content"), (205, "Reset Content"),
  (206, "Partial Content"), (207, "Multi-Status"), (208, "Already Reported"), (226, "IM Used"),
  (300, "Multiple Choices"), (301, "Moved Permanently"), (302, "Found"), (303, "See Other"),
  (304, "Not Modified"), (305, "Use Proxy"), (307, "Temporary Redirect"), (308, "Permanent Redirect"),
  (400, "Bad Request"), (401, "Unauthorized"), (402, "Payment Required"), (403, "Forbidden"),
  (404, "Not Found"), (405, "Method Not Allowed"), (406, "Not Acceptable"),
  (407, "Proxy Authentication Required"), (408, "Request Timeout"), (409, "Conflict"), (410, "Gone"),
  (411, "Length Required"), (412, "Precondition Failed"), (413, "Payload Too Large"),
  (414, "URI Too Long"), (415, "Unsupported Media Type"), (416, "Range Not Satisfiable"),
  (417, "Expectation Failed"), (418, "I'm a teapot"), (421, "Misdirected Request"),
  (422, "Unprocessable Entity"), (423, "Locked"), (424, "Failed Dependency"), (425, "Too Early"),
  (426, "Upgrade Required"), (428, "Precondition Required"), (429, "Too Many Requests"),
  (431, "Request Header Fields Too Large"), (451, "Unavailable For Legal Reasons"),
  (500, "Internal Server Error"), (501, "Not Implemented"), (502, "Bad Gateway"),
  (503, "Service Unavailable"), (504, "Gateway Timeout"), (505, "HTTP Version Not Supported"),
  (506, "Variant Also Negotiates"), (507, "Insufficient Storage"), (508, "Loop Detected"),
  (510, "Not Extended"), (511, "Network Authentication Required")]

def statusText (status : Nat) : String :=
  Text.decimal status ++ " " ++ (reasons.lookup status).getD "<unknown status code>"

def undecodable (r : Request) : Error :=
  .transport (operation r ++ ": error decoding response body")

def readBody (r : Request) (body : String) : Except Error r.Reply :=
  match Json.parse? body with
  | none => .error (undecodable r)
  | some document => (r.readReply document).mapError fun _ => undecodable r

def statusError? (r : Request) (answer : Response) : Option Error :=
  if 500 ≤ answer.status && answer.status < 600 then
    some (.transport (match r with
      | .query _ => "SPARQL endpoint returned HTTP " ++ statusText answer.status
      | _ => operation r ++ ": edit API returned HTTP " ++ statusText answer.status))
  else match r with
    | .query _ =>
      if 200 ≤ answer.status && answer.status < 300 then none
      else some (.queryRejected answer.status answer.body)
    -- The edit API reports its errors in documents.
    | _ => none

def reply (e : Endpoints) (r : Request) : Outcome → Except Error r.Reply
  | .answered answer =>
    match statusError? r answer with
    | some error => .error error
    | none => readBody r answer.body
  | .expired => .error (.timeout (operation r) e.timeoutSeconds)
  | .unanswered => .error (.transport
      (operation r ++ ": error sending request for url (" ++ (message e r).url ++ ")"))

end ClaimTables.Http
