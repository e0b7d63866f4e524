import ClaimTables.Client.Session

/-!
Requests of a client. A request that the store puts off is sent again after a pause, so often at most; an
edit whose answer was lost is never sent again, since it may have been applied. An edit whose token is
turned down is sent once more with a new one.
-/

namespace ClaimTables

structure ApiError where
  code : String
  info : String
deriving DecidableEq

namespace ApiError

def ofJson? (body : Json) : Option ApiError :=
  (body.get? "error").map fun e =>
    ⟨(e.get "code").text?.getD "unknown", (e.get "info").text?.getD ""⟩

def transientCodes : List String :=
  ["maxlag", "ratelimited", "actionthrottledtext", "failed-save", "no-automatic-entity-id", "readonly"]

def isTransient (body : Json) : Bool :=
  match ofJson? body with
  | some e => transientCodes.contains e.code
  | none => false

end ApiError

namespace Client

def pause (attempt : Nat) : Nat :=
  -- Milliseconds: one second, 1.27 times as long with each further attempt, and rounded up. Left out are the end of 64
  -- bits of seconds, which attempt 186 passes, and a first pause other than one second: of none at all, the product with
  -- a factor that is past the largest number would be no number.
  (1000 * Nat.pow 127 attempt + Nat.pow 100 attempt - 1) / Nat.pow 100 attempt

def putsOff : (r : Request) → Except Error r.Reply → Bool
  | .get _, .ok body => ApiError.isTransient body
  | .post _, .ok body => ApiError.isTransient body
  | .query _, .ok _ => false
  | .post _, .error _ => false
  | .get _, .error e => e.isRetryable
  | .query _, .error e => e.isRetryable

def sendAgain (r : Request) : (left : Nat) → (attempt : Nat) → Dialogue (Except Error r.Reply)
  | 0, _ => Dialogue.send r
  | left + 1, attempt => do
    let answer ← Dialogue.send r
    if putsOff r answer then
      Dialogue.wait (pause attempt)
      sendAgain r left (attempt + 1)
    else pure answer

def request (c : Client) (r : Request) : Action r.Reply :=
  Action.ofDialogue (sendAgain r (c.attempts - 1) 0)

def read (c : Client) (ps : Parameters) : Action Json := do
  let body ← c.request (.get ps)
  match ApiError.ofJson? body with
  | some e => throw (.api ps.action e.code e.info)
  | none => pure body

def signed (token : Token) (ps : Parameters) : Parameters :=
  ps ++ .ofTexts [("token", token.csrf), ("assert", "user"), ("bot", "1")]

def writeWith (c : Client) (token : Token) (ps : Parameters) : Action Json := do
  let body ← c.request (.post (signed token ps))
  match ApiError.ofJson? body with
  | some e => throw (.remoteWrite none e.code e.info)
  | none => pure body

def writeAnew (c : Client) (stale : Token) (ps : Parameters) : Action Json := do
  let token ← c.refresh stale
  match ← (c.writeWith token ps).outcome with
  | .ok body => pure body
  | .error e =>
    if e.isExpiry then
      invalidate
      throw (.authentication ("edit token rejected again after re-login: " ++ e.message))
    else throw e

def write (c : Client) (ps : Parameters) : Action Json := do
  let token ← c.ensureAuthenticated
  match ← (c.writeWith token ps).outcome with
  | .ok body => pure body
  | .error e => if e.isExpiry then c.writeAnew token ps else throw e

def query (c : Client) (text : String) : Action Sparql.Solutions :=
  c.request (.query text)

end Client

end ClaimTables
