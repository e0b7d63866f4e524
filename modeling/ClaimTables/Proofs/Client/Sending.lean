import ClaimTables.Client.Edits
import ClaimTables.Proofs.Client.Logins
import ClaimTables.Proofs.Exchange.Sends
import ClaimTables.Tables.Types

/-!
Which requests a client sends. A read sends itself; an edit sends itself with some token, and besides it opens
sessions.
-/

namespace ClaimTables.Client

open Client.Action

variable {α : Type} {P : Request → Prop}

theorem sends_sendAgain {r : Request} (h : P r) (left attempt : Nat) : (sendAgain r left attempt).Sends P := by
  induction left generalizing attempt with
  | zero => exact Dialogue.sends_send h
  | succ left ih =>
    refine (Dialogue.sends_send h).bind fun answer => ?_
    split
    · exact (Dialogue.sends_wait _).bind fun _ => ih (attempt + 1)
    · trivial

theorem sendAgain_rule {W : Type} {world : World W} {I : W → Prop} {r : Request}
    {post : Except Error r.Reply → W → Prop}
    (hoff : ∀ v answer v', I v → world v (.send r) answer v' → putsOff r answer = true → I v')
    (hwait : ∀ v milliseconds answer v', I v → world v (.wait milliseconds) answer v' → I v')
    (hlast : ∀ v answer v', I v → world v (.send r) answer v' → post answer v') (left attempt : Nat) {v : W}
    (hv : I v) : (sendAgain r left attempt).Ensures world v post := by
  induction left generalizing attempt v with
  | zero => exact fun answer v' h => hlast v answer v' hv h
  | succ left ih =>
    rw [sendAgain, Dialogue.ensures_bind]
    intro answer v' h
    by_cases hputsOff : putsOff r answer = true
    · simp only [Dialogue.Ensures, hputsOff, if_true, Dialogue.ensures_bind]
      exact fun _ v'' hwaited => ih (attempt + 1) (hwait v' _ _ v'' (hoff v answer v' hv h hputsOff) hwaited)
    · simp only [Dialogue.Ensures, hputsOff]
      exact hlast v answer v' hv h

theorem sendAgain_settled {W : Type} {world : World W} {w : W} {r : Request}
    (hsettled : ∀ answer w', world w (.send r) answer w' → putsOff r answer = false)
    (left attempt : Nat) : (sendAgain r left attempt).Ensures world w fun answer w' => world w (.send r) answer w' := by
  cases left with
  | zero => exact fun answer w' h => h
  | succ left =>
    rw [sendAgain, Dialogue.ensures_bind]
    intro answer w' h
    simp only [Dialogue.Ensures, hsettled answer w' h]
    exact h

theorem sends_request (c : Client) {r : Request} (h : P r) : (c.request r).Sends P :=
  sends_ofDialogue (sends_sendAgain h _ 0)

theorem sends_read (c : Client) {ps : Parameters} (h : P (.get ps)) : (c.read ps).Sends P := by
  refine (sends_request c h).bind fun body => ?_
  split
  · exact sends_throw _
  · exact sends_pure _

theorem sends_query (c : Client) {text : String} (h : P (.query text)) : (c.query text).Sends P :=
  sends_request c h

theorem sends_writeWith (c : Client) {token : Token} {ps : Parameters} (h : P (.post (signed token ps))) :
    (c.writeWith token ps).Sends P := by
  refine (sends_request c h).bind fun body => ?_
  split
  · exact sends_throw _
  · exact sends_pure _

theorem sends_onEntity {id : String} {x : Action α} (h : x.Sends P) : (onEntity id x).Sends P := by
  refine h.outcome.bind fun r => ?_
  cases r with
  | ok a => exact sends_pure a
  | error e => exact sends_throw _

def searchParameters (c : Client) (label : String) (kind : EntityKind) : Parameters :=
  .ofTexts [("action", "wbsearchentities"), ("search", label), ("language", c.language), ("type", kind.name),
    ("limit", "50")]

theorem sends_searchExact (c : Client) {label : String} {kind : EntityKind}
    (h : P (.get (c.searchParameters label kind))) : (c.searchExact label kind).Sends P :=
  (sends_read c h).bind fun body => sends_pure (exactHits label body)

theorem sends_findItem (c : Client) {label model : String} (h : P (.get (c.searchParameters label .item))) :
    (c.findItem label model).Sends P := by
  refine (sends_searchExact c h).bind fun hits => ?_
  split
  · exact sends_pure _
  · exact (sends_liftExcept _).bind fun i => sends_pure _
  · exact sends_throw _

section Edits

variable (hsession : ∀ r, OpensSession r → P r)

include hsession

theorem sends_fetchToken (kind : String) : (fetchToken kind).Sends P := by
  refine (sends_send (hsession _ (.token kind))).bind fun body => ?_
  split
  · exact sends_pure _
  · exact sends_throw _

theorem sends_logIn (c : Client) : c.logIn.Sends P := by
  have hcheck : ∀ body, (c.checkLogin body).Sends P := by
    intro body
    unfold checkLogin
    dsimp only
    split
    · exact sends_pure _
    · split
      · exact (sends_modify _).bind fun _ => sends_throw _
      · exact sends_throw _
  have hkeep : ∀ csrf now, (c.keepToken csrf now).Sends P := fun csrf now =>
    sends_get.bind fun _ => (sends_set _).bind fun _ => sends_pure _
  refine (sends_modify _).bind fun _ => (sends_fetchToken hsession "login").bind fun token => ?_
  refine (sends_send (hsession _ (.logIn c token))).bind fun body => (hcheck body).bind fun _ => ?_
  refine (sends_fetchToken hsession "csrf").bind fun csrf => ?_
  exact sends_check (sends_clock.bind fun now => hkeep csrf now)

omit hsession in
theorem sends_checkRefused (s : Session) : (checkRefused s).Sends P := by
  unfold checkRefused
  split
  · exact sends_throw _
  · exact sends_pure _

theorem sends_ensureAuthenticated (c : Client) : c.ensureAuthenticated.Sends P := by
  refine sends_get.bind fun s => (sends_checkRefused s).bind fun _ => ?_
  split
  · refine sends_clock.bind fun now => ?_
    split
    · exact sends_logIn hsession c
    · exact sends_pure _
  · exact sends_logIn hsession c

theorem sends_refresh (c : Client) (stale : Token) : (c.refresh stale).Sends P := by
  refine sends_get.bind fun s => (sends_checkRefused s).bind fun _ => ?_
  split
  · split
    · exact sends_pure _
    · exact sends_logIn hsession c
  · exact sends_logIn hsession c

variable {ps : Parameters} (hps : ∀ token, P (.post (signed token ps)))

include hps

theorem sends_writeAnew (c : Client) (stale : Token) : (c.writeAnew stale ps).Sends P := by
  refine (sends_refresh hsession c stale).bind fun token => (sends_writeWith c (hps token)).outcome.bind fun r => ?_
  cases r with
  | ok body => exact sends_pure body
  | error e =>
    dsimp only
    split
    · exact (sends_modify _).bind fun _ => sends_throw _
    · exact sends_throw _

theorem sends_write (c : Client) : (c.write ps).Sends P := by
  refine (sends_ensureAuthenticated hsession c).bind fun token => ?_
  refine (sends_writeWith c (hps token)).outcome.bind fun r => ?_
  cases r with
  | ok body => exact sends_pure body
  | error e =>
    dsimp only
    split
    · exact sends_writeAnew hsession hps c token
    · exact sends_throw _

end Edits

theorem sends_createEntity (c : Client) {kind : EntityKind} {data : Json} (hsession : ∀ r, OpensSession r → P r)
    (h : ∀ token, P (.post (signed token (createEntityParameters kind data)))) :
    (c.createEntity kind data).Sends P := by
  refine (sends_write hsession h c).bind fun body => ?_
  split
  · exact sends_pure _
  · exact sends_throw _

theorem sends_createClaim (c : Client) {id property : String} {value : Json}
    (hsession : ∀ r, OpensSession r → P r)
    (h : ∀ token, P (.post (signed token (createClaimParameters id property value)))) :
    (c.createClaim id property value).Sends P :=
  (sends_onEntity (sends_write hsession h c)).bind fun _ => sends_pure _

theorem sends_setClaimValue (c : Client) {id guid : String} {value : Json} (hsession : ∀ r, OpensSession r → P r)
    (h : ∀ token, P (.post (signed token (setClaimValueParameters guid value)))) :
    (c.setClaimValue id guid value).Sends P :=
  (sends_onEntity (sends_write hsession h c)).bind fun _ => sends_pure _

theorem sends_removeClaims (c : Client) {id : String} {guids : List String} (hsession : ∀ r, OpensSession r → P r)
    (h : guids ≠ [] → ∀ token, P (.post (signed token (removeClaimsParameters guids)))) :
    (c.removeClaims id guids).Sends P := by
  unfold removeClaims
  split
  · exact sends_pure _
  · next hne =>
    have hne : guids ≠ [] := by simpa using hne
    exact (sends_onEntity (sends_write hsession (h hne) c)).bind fun _ => sends_pure _

theorem sends_deletePage (c : Client) {id title : String} (hsession : ∀ r, OpensSession r → P r)
    (h : ∀ token, P (.post (signed token (deletePageParameters title)))) : (c.deletePage id title).Sends P := by
  refine (sends_write hsession h c).outcome.bind fun r => ?_
  split
  · exact sends_pure _
  · split
    · exact sends_pure _
    · exact sends_throw _
  · exact sends_throw _

theorem sends_property (c : Client) {label datatype model : String} (hsession : ∀ r, OpensSession r → P r)
    (hsearch : P (.get (c.searchParameters label .property)))
    (hmake : ∀ token, P (.post (signed token (createEntityParameters .property (c.propertyData label datatype))))) :
    (c.property label datatype model).Sends P := by
  refine (sends_searchExact c hsearch).bind fun hits => ?_
  split
  · exact (sends_createEntity c hsession hmake).bind fun id => sends_liftExcept _
  · exact sends_liftExcept _
  · exact sends_throw _

end ClaimTables.Client
