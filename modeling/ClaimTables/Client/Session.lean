import ClaimTables.Exchange.Dialogue
import ClaimTables.Settings

/-!
The session of a bot and the token that its edits carry. A session is opened by the first edit; a token
that the store turns down is replaced by logging in again, unless that has happened since. Once the store
has refused the password no further login is tried.
-/

namespace ClaimTables

structure Token where
  username : String
  csrf : String
  acquired : Int
  expires : Int
  generation : Nat
deriving DecidableEq

namespace Token

def lifetime : Int := 1800

def isExpired (t : Token) (now : Int) : Bool :=
  t.expires ≤ now

def anonymous : String := "+\\"

end Token

structure Session where
  current : Option Token
  generation : Nat
  refused : Option String
deriving DecidableEq

def Session.fresh : Session := ⟨none, 0, none⟩

structure Client where
  username : String
  password : String
  attempts : Nat
  language : String

namespace Client

def ofSettings (s : Settings) : Client :=
  ⟨s.botUsername, s.botPassword, max 1 s.maxRetries.toNat, s.language⟩

abbrev Action := ExceptT Error (StateT Session Dialogue)

namespace Action

variable {α : Type}

def ofDialogue (d : Dialogue (Except Error α)) : Action α :=
  ExceptT.mk (StateT.lift d)

def outcome (x : Action α) : Action (Except Error α) :=
  ExceptT.mk (do
    let r ← x.run
    pure (.ok r))

def send (r : Request) : Action r.Reply :=
  ofDialogue (Dialogue.send r)

def clock : Action Int :=
  ofDialogue (.perform .clock fun now => .done (.ok now))

def setCurrent (token : Option Token) : Action Unit :=
  modify fun s => { s with current := token }

end Action

def textAt (keys : List String) (j : Json) : Option String :=
  (keys.foldl (fun j key => j.get key) j).text?

def fetchToken (kind : String) : Action String := do
  let body ← Action.send (.get (.ofTexts [("action", "query"), ("meta", "tokens"), ("type", kind)]))
  match textAt ["query", "tokens", kind ++ "token"] body with
  | some token => pure token
  | none => throw (.authentication ("store issued no " ++ kind ++ " token"))

def logInRequest (c : Client) (token : String) : Request :=
  .post (.ofTexts [("action", "login"), ("lgname", c.username), ("lgpassword", c.password),
    ("lgtoken", token)])

def loginReason (body : Json) : String :=
  ((textAt ["login", "reason"] body).or (textAt ["error", "info"] body)).getD "login rejected"

def checkLogin (c : Client) (body : Json) : Action Unit := do
  let result := (textAt ["login", "result"] body).getD ""
  if result = "Success" then pure ()
  else
    let message := "login as " ++ c.username ++ " failed (" ++ result ++ "): " ++ loginReason body
    -- An answer that it failed, and none other, is final.
    if result = "Failed" then modify fun s => { s with refused := some message }
    throw (.authentication message)

def keepToken (c : Client) (csrf : String) (now : Int) : Action Token := do
  let s ← get
  let token : Token := ⟨c.username, csrf, now, now + Token.lifetime, s.generation + 1⟩
  set { s with current := some token, generation := token.generation }
  pure token

def logIn (c : Client) : Action Token := do
  Action.setCurrent none
  let loginToken ← fetchToken "login"
  let body ← Action.send (c.logInRequest loginToken)
  c.checkLogin body
  let csrf ← fetchToken "csrf"
  if csrf = Token.anonymous then
    throw (.authentication ("login as " ++ c.username ++ " succeeded but the session is anonymous"))
  c.keepToken csrf (← Action.clock)

def checkRefused (s : Session) : Action Unit :=
  match s.refused with
  | some reason => throw (.authentication reason)
  | none => pure ()

def ensureAuthenticated (c : Client) : Action Token := do
  let s ← get
  checkRefused s
  match s.current with
  | some token => if token.isExpired (← Action.clock) then c.logIn else pure token
  | none => c.logIn

def refresh (c : Client) (stale : Token) : Action Token := do
  let s ← get
  checkRefused s
  match s.current with
  | some token => if stale.generation < token.generation then pure token else c.logIn
  | none => c.logIn

def invalidate : Action Unit :=
  Action.setCurrent none

def logOut : Action Unit := do
  match (← get).current with
  | none => pure ()
  | some token =>
    -- The session is over even if the store does not answer.
    Action.setCurrent none
    let _ ← Action.send (.post (.ofTexts [("action", "logout"), ("token", token.csrf)]))

end Client

end ClaimTables
