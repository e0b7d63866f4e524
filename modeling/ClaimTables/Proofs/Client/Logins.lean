import ClaimTables.Client.Requests
import ClaimTables.Proofs.Exchange.Ensures

/-!
What logging in leaves alone. A session is opened by two kinds of requests, for tokens and to log in; a
condition that neither of them disturbs holds after a token was asked for if it held before.
-/

namespace ClaimTables.Client

inductive OpensSession : Request → Prop
  | token (kind : String) :
    OpensSession (.get (.ofTexts [("action", "query"), ("meta", "tokens"), ("type", kind)]))
  | logIn (c : Client) (token : String) : OpensSession (c.logInRequest token)

def Keeps {α W : Type} (world : World W) (I : W → Prop) (x : Action α) : Prop :=
  ∀ s w, I w → x.Ensures world s w fun _ _ w' => I w'

structure Undisturbed {W : Type} (world : World W) (I : W → Prop) : Prop where
  clock : ∀ w now w', I w → world w .clock now w' → I w'
  session : ∀ r, OpensSession r → ∀ w answer w', I w → world w (.send r) answer w' → I w'

variable {α β W : Type} {world : World W} {I : W → Prop}

theorem Keeps.bind {x : Action α} {f : α → Action β} (hx : Keeps world I x)
    (hf : ∀ a, Keeps world I (f a)) : Keeps world I (x >>= f) := by
  intro s w hw
  exact (hx s w hw).bind (fun a s' w' hw' => hf a s' w' hw') fun _ _ _ hw' => hw'

theorem keeps_pure (a : α) : Keeps world I (pure a : Action α) :=
  fun _ _ hw => hw

theorem keeps_throw (e : Error) : Keeps world I (throw e : Action α) :=
  fun _ _ hw => hw

theorem keeps_check {c : Prop} [Decidable c] {e : Error} {x : Action α} (hx : Keeps world I x) :
    Keeps world I (if c then (throw e : Action PUnit) >>= fun _ => x else x) := by
  split
  · exact (keeps_throw e).bind fun _ => hx
  · exact hx

theorem keeps_liftExcept (r : Except Error α) : Keeps world I (liftExcept r : Action α) :=
  fun _ _ hw => Action.ensures_liftExcept.2 hw

theorem keeps_get : Keeps world I (get : Action Session) :=
  fun _ _ hw => hw

theorem keeps_set (t : Session) : Keeps world I (set t : Action PUnit) :=
  fun _ _ hw => hw

theorem keeps_modify (f : Session → Session) : Keeps world I (modify f : Action PUnit) :=
  fun _ _ hw => hw

theorem keeps_send (hI : Undisturbed world I) {r : Request} (hr : OpensSession r) :
    Keeps world I (Action.send r) :=
  fun _ w hw => Action.ensures_send.2 fun answer w' => hI.session r hr w answer w' hw

theorem keeps_clock (hI : Undisturbed world I) : Keeps world I Action.clock :=
  fun _ w hw => Action.ensures_clock.2 fun now w' => hI.clock w now w' hw

theorem keeps_fetchToken (hI : Undisturbed world I) (kind : String) : Keeps world I (fetchToken kind) := by
  refine (keeps_send hI (.token kind)).bind fun body => ?_
  split
  · exact keeps_pure _
  · exact keeps_throw _

theorem keeps_checkLogin (c : Client) (body : Json) : Keeps world I (c.checkLogin body) := by
  unfold checkLogin
  dsimp only
  split
  · exact keeps_pure _
  · split
    · exact (keeps_modify _).bind fun _ => keeps_throw _
    · exact keeps_throw _

theorem keeps_keepToken (c : Client) (csrf : String) (now : Int) : Keeps world I (c.keepToken csrf now) :=
  keeps_get.bind fun _ => (keeps_set _).bind fun _ => keeps_pure _

theorem keeps_logIn (hI : Undisturbed world I) (c : Client) : Keeps world I c.logIn := by
  refine (keeps_modify _).bind fun _ => (keeps_fetchToken hI "login").bind fun loginToken => ?_
  refine (keeps_send hI (.logIn c loginToken)).bind fun body => (keeps_checkLogin c body).bind fun _ => ?_
  refine (keeps_fetchToken hI "csrf").bind fun csrf => ?_
  have hrest : Keeps world I (Action.clock >>= c.keepToken csrf) :=
    (keeps_clock hI).bind fun now => keeps_keepToken c csrf now
  dsimp only
  split
  · exact (keeps_throw _).bind fun _ => hrest
  · exact hrest

theorem keeps_checkRefused (s : Session) : Keeps world I (checkRefused s) := by
  unfold checkRefused
  split
  · exact keeps_throw _
  · exact keeps_pure _

theorem keeps_ensureAuthenticated (hI : Undisturbed world I) (c : Client) :
    Keeps world I c.ensureAuthenticated := by
  refine keeps_get.bind fun s => (keeps_checkRefused s).bind fun _ => ?_
  split
  · refine (keeps_clock hI).bind fun now => ?_
    split
    · exact keeps_logIn hI c
    · exact keeps_pure _
  · exact keeps_logIn hI c

theorem keeps_refresh (hI : Undisturbed world I) (c : Client) (stale : Token) :
    Keeps world I (c.refresh stale) := by
  refine keeps_get.bind fun s => (keeps_checkRefused s).bind fun _ => ?_
  split
  · split
    · exact keeps_pure _
    · exact keeps_logIn hI c
  · exact keeps_logIn hI c

end ClaimTables.Client
