import ClaimTables.Client.Edits
import ClaimTables.Proofs.Exchange.Fails
import ClaimTables.Tables.Types

/-!
With which errors a client fails: with those of its requests, and with a few of its own.
-/

namespace ClaimTables

def Error.OfStore : Error → Prop
  | .authentication _ | .remoteWrite _ _ _ | .api _ _ _ | .inconsistentData _ _ _ => True
  | _ => False

namespace Client

open Client.Action

variable {α : Type} {E : Error → Prop}

theorem yields_sendAgain (r : Request) (left attempt : Nat) : (sendAgain r left attempt).Yields E (FailsAs E) := by
  induction left generalizing attempt with
  | zero => exact fun _ hadmits => hadmits
  | succ left ih =>
    intro answer hadmits
    change Dialogue.Yields E _ (if putsOff r answer then _ else pure answer)
    split
    · exact fun _ _ => ih (attempt + 1)
    · exact hadmits

theorem fails_request (c : Client) (r : Request) : (c.request r).Fails E :=
  fails_ofDialogue (yields_sendAgain r _ 0)

theorem fails_query (c : Client) (text : String) : (c.query text).Fails E :=
  fails_request c _

section LogIn

variable (hE : ∀ reason, E (.authentication reason))

include hE

theorem fails_fetchToken (kind : String) : (fetchToken kind).Fails E := by
  refine (fails_send _).bind fun body => ?_
  split
  · exact fails_pure _
  · exact fails_throw (hE _)

theorem fails_checkLogin (c : Client) (body : Json) : (c.checkLogin body).Fails E := by
  unfold checkLogin
  dsimp only
  split
  · exact fails_pure _
  · split
    · exact (fails_modify _).bind fun _ => fails_throw (hE _)
    · exact fails_throw (hE _)

theorem fails_logIn (c : Client) : c.logIn.Fails E := by
  have hkeep : ∀ csrf now, (c.keepToken csrf now).Fails E := fun csrf now =>
    fails_get.bind fun _ => (fails_set _).bind fun _ => fails_pure _
  refine (fails_modify _).bind fun _ => (fails_fetchToken hE "login").bind fun token => ?_
  refine (fails_send _).bind fun body => (fails_checkLogin hE c body).bind fun _ => ?_
  refine (fails_fetchToken hE "csrf").bind fun csrf => ?_
  exact fails_check (hE _) (fails_clock.bind fun now => hkeep csrf now)

theorem fails_checkRefused (s : Session) : (checkRefused s).Fails E := by
  unfold checkRefused
  split
  · exact fails_throw (hE _)
  · exact fails_pure _

theorem fails_ensureAuthenticated (c : Client) : c.ensureAuthenticated.Fails E := by
  refine fails_get.bind fun s => (fails_checkRefused hE s).bind fun _ => ?_
  split
  · refine fails_clock.bind fun now => ?_
    split
    · exact fails_logIn hE c
    · exact fails_pure _
  · exact fails_logIn hE c

theorem fails_refresh (c : Client) (stale : Token) : (c.refresh stale).Fails E := by
  refine fails_get.bind fun s => (fails_checkRefused hE s).bind fun _ => ?_
  split
  · split
    · exact fails_pure _
    · exact fails_logIn hE c
  · exact fails_logIn hE c

end LogIn

variable (hE : ∀ e, e.OfStore → E e)

include hE

theorem fails_read (c : Client) (ps : Parameters) : (c.read ps).Fails E := by
  refine (fails_request c _).bind fun body => ?_
  split
  · exact fails_throw (hE _ trivial)
  · exact fails_pure _

theorem fails_writeWith (c : Client) (token : Token) (ps : Parameters) : (c.writeWith token ps).Fails E := by
  refine (fails_request c _).bind fun body => ?_
  split
  · exact fails_throw (hE _ trivial)
  · exact fails_pure _

theorem fails_writeAnew (c : Client) (stale : Token) (ps : Parameters) : (c.writeAnew stale ps).Fails E := by
  refine (fails_refresh (fun _ => hE _ trivial) c stale).bind fun token => ?_
  refine (fails_writeWith hE c token ps).outcome_bind (fun body => fails_pure body) fun e he => ?_
  dsimp only
  split
  · exact (fails_modify _).bind fun _ => fails_throw (hE _ trivial)
  · exact fails_throw he

theorem fails_write (c : Client) (ps : Parameters) : (c.write ps).Fails E := by
  refine (fails_ensureAuthenticated (fun _ => hE _ trivial) c).bind fun token => ?_
  refine (fails_writeWith hE c token ps).outcome_bind (fun body => fails_pure body) fun e he => ?_
  dsimp only
  split
  · exact fails_writeAnew hE c token ps
  · exact fails_throw he

theorem fails_createEntity (c : Client) (kind : EntityKind) (data : Json) : (c.createEntity kind data).Fails E := by
  refine (fails_write hE c _).bind fun body => ?_
  split
  · exact fails_pure _
  · exact fails_throw (hE _ trivial)

theorem fails_searchExact (c : Client) (label : String) (kind : EntityKind) : (c.searchExact label kind).Fails E :=
  (fails_read hE c _).bind fun _ => fails_pure _

theorem fails_findItem (c : Client) (label model : String) : (c.findItem label model).Fails E := by
  have hitem : ∀ id, FailsAs E (readItem model id) := by
    intro id
    unfold readItem
    split
    · exact failsAs_ok _
    · exact failsAs_error (hE _ trivial)
  refine (fails_searchExact hE c label .item).bind fun hits => ?_
  split
  · exact fails_pure _
  · exact (fails_liftExcept (hitem _)).bind fun _ => fails_pure _
  · exact fails_throw (hE _ trivial)

theorem fails_property (c : Client) (label datatype model : String) : (c.property label datatype model).Fails E := by
  have hproperty : ∀ id, FailsAs E (readProperty model id) := by
    intro id
    unfold readProperty
    split
    · exact failsAs_ok _
    · exact failsAs_error (hE _ trivial)
  refine (fails_searchExact hE c label .property).bind fun hits => ?_
  split
  · exact (fails_createEntity hE c _ _).bind fun _ => fails_liftExcept (hproperty _)
  · exact fails_liftExcept (hproperty _)
  · exact fails_throw (hE _ trivial)

theorem fails_getClaims (c : Client) (id : String) : (c.getClaims id).Fails E := by
  refine (fails_read hE c _).outcome_bind (fun body => fails_pure _) fun e he => ?_
  cases e with
  | api action code info =>
    dsimp only
    split
    · exact fails_pure _
    · exact fails_throw he
  | _ => exact fails_throw he

end Client

end ClaimTables
