import Mathlib.Data.Nat.Init
import ClaimTables.Proofs.Client.Sending

/-!
The session of a client over any run of its calls. Which logins there were is read off the exchanges, since one
of them ends each login. Every call keeps the session in step with them, and so does a run: the counter is the
number of logins that opened a session, a token that is held is that of the last login, and after a login that
was refused nothing more is sent.
-/

namespace ClaimTables.Client

open Client.Action

inductive LoginEnd where
  | opened (csrf : String)
  | failed
  | refused (message : String)

def LoginEnd.opened? : LoginEnd → Option String
  | .opened csrf => some csrf
  | _ => none

def tokenRequest (kind : String) : Request :=
  .get (.ofTexts [("action", "query"), ("meta", "tokens"), ("type", kind)])

def tokenIn (kind : String) : Except Error Json → Option String
  | .ok body => textAt ["query", "tokens", kind ++ "token"] body
  | .error _ => none

def tokenEnd? (kind : String) : Option String → Option LoginEnd
  | none => some .failed
  | some token =>
    if kind = "login" then none
    else if token = Token.anonymous then some .failed else some (.opened token)

def passwordEnd? (username : String) : Except Error Json → Option LoginEnd
  | .error _ => some .failed
  | .ok body =>
    let result := (textAt ["login", "result"] body).getD ""
    if result = "Success" then none
    else if result = "Failed" then
      some (.refused ("login as " ++ username ++ " failed (" ++ result ++ "): " ++ loginReason body))
    else some .failed

def loginEnd? : Exchange → Option LoginEnd
  | ⟨.get [("action", .text "query"), ("meta", .text "tokens"), ("type", .text kind)], reply⟩ =>
    tokenEnd? kind (tokenIn kind reply)
  | ⟨.post [("action", .text "login"), ("lgname", .text username), ("lgpassword", _), ("lgtoken", _)], reply⟩ =>
    passwordEnd? username reply
  | _ => none

def logins (trace : List Exchange) : List LoginEnd :=
  trace.filterMap loginEnd?

def issued (trace : List Exchange) : List (String × Nat) :=
  ((logins trace).filterMap LoginEnd.opened?).zipIdx 1

inductive LoggedIn (s : Session) : LoginEnd → Except Error Token → Session → Prop
  | opened (t : Token) (generation : t.generation = s.generation + 1) (named : t.csrf ≠ Token.anonymous) :
    LoggedIn s (.opened t.csrf) (.ok t) ⟨some t, t.generation, s.refused⟩
  | failed (e : Error) : LoggedIn s .failed (.error e) ⟨none, s.generation, s.refused⟩
  | refused (message : String) :
    LoggedIn s (.refused message) (.error (.authentication message)) ⟨none, s.generation, some message⟩

def LogsIn (s : Session) (trace : List Exchange) (r : Except Error Token) (s' : Session) (later : List Exchange) :
    Prop :=
  ∃ ending, logins later = logins trace ++ [ending] ∧ LoggedIn s ending r s'

structure Tracks (trace : List Exchange) (s : Session) : Prop where
  generation_eq : s.generation = (issued trace).length
  current_last : ∀ t, s.current = some t → (logins trace).getLast? = some (.opened t.csrf) ∧
    (issued trace).getLast? = some (t.csrf, t.generation) ∧ t.csrf ≠ Token.anonymous
  refused_iff : ∀ message, s.refused = some message ↔ .refused message ∈ logins trace
  refused_last : ∀ message, .refused message ∈ logins trace → (logins trace).getLast? = some (.refused message)

section Ends

theorem logins_append (trace more : List Exchange) : logins (trace ++ more) = logins trace ++ logins more :=
  List.filterMap_append

theorem loginEnd?_token (kind : String) (reply : Except Error Json) :
    loginEnd? ⟨tokenRequest kind, reply⟩ = tokenEnd? kind (tokenIn kind reply) := rfl

theorem loginEnd?_password (c : Client) (token : String) (reply : Except Error Json) :
    loginEnd? ⟨c.logInRequest token, reply⟩ = passwordEnd? c.username reply := rfl

theorem loginEnd?_signed (t : Token) (ps : Parameters) (reply : Except Error Json) :
    loginEnd? ⟨.post (signed t ps), reply⟩ = none := by
  have hlast : (signed t ps).getLast? = some ("bot", .text "1") := by simp [signed, Parameters.ofTexts]
  generalize signed t ps = qs at hlast
  unfold loginEnd?
  split
  · next heq => cases heq
  · next heq =>
    cases heq
    simp at hlast
  · rfl

theorem loginEnd?_logOut (csrf : String) (reply : Except Error Json) :
    loginEnd? ⟨.post (.ofTexts [("action", "logout"), ("token", csrf)]), reply⟩ = none := rfl

theorem logins_concat (trace : List Exchange) (x : Exchange) :
    logins (trace ++ [x]) = logins trace ++ (loginEnd? x).toList := by
  rw [logins_append]
  cases h : loginEnd? x <;> simp [logins, h]

end Ends

section LogIn

variable (c : Client) (s : Session) (trace : List Exchange)

theorem fetchToken_ensures (kind : String) :
    (fetchToken kind).Ensures World.noting s trace fun r s' later =>
      s' = s ∧ logins later = logins trace ++ (tokenEnd? kind r.toOption).toList := by
  have hsent : ∀ reply later, later = trace ++ [⟨tokenRequest kind, reply⟩] →
      logins later = logins trace ++ (tokenEnd? kind (tokenIn kind reply)).toList := by
    rintro reply _ rfl
    rw [logins_concat, loginEnd?_token]
  rw [fetchToken, ensures_bind, ensures_send]
  intro reply later hlater
  have hlogins := hsent reply later hlater
  cases reply with
  | error e => exact ⟨rfl, hlogins⟩
  | ok body =>
    dsimp only
    split
    · next token htoken => exact ⟨rfl, by rwa [tokenIn, htoken] at hlogins⟩
    · next htoken => exact ⟨rfl, by rwa [tokenIn, htoken] at hlogins⟩

theorem sendPassword_ensures (token : String) :
    Ensures World.noting (send (c.logInRequest token) : Action Json) s trace fun r s' later =>
      s' = s ∧ logins later = logins trace ++ (passwordEnd? c.username r).toList := by
  intro reply later hlater
  refine ⟨rfl, ?_⟩
  have hlater : later = trace ++ [Exchange.mk (c.logInRequest token) reply] := hlater
  rw [hlater, logins_concat]
  exact congrArg (logins trace ++ Option.toList ·) (loginEnd?_password c token reply)

theorem checkLogin_ensures (body : Json) :
    (c.checkLogin body).Ensures World.noting { s with current := none } trace fun r s' later => later = trace ∧
      match passwordEnd? c.username (.ok body) with
      | none => r = .ok () ∧ s' = { s with current := none }
      | some ending => ∃ e, r = .error e ∧ LoggedIn s ending (.error e) s' := by
  unfold checkLogin passwordEnd?
  dsimp only
  split
  · exact ⟨rfl, rfl, rfl⟩
  · split
    · exact ⟨rfl, _, rfl, .refused _⟩
    · exact ⟨rfl, _, rfl, .failed _⟩

theorem logsIn_failed (e : Error) {later : List Exchange} (h : logins later = logins trace ++ [.failed]) :
    LogsIn s trace (.error e) { s with current := none } later :=
  ⟨.failed, h, .failed e⟩

theorem openSession_ensures :
    Ensures World.noting (do
      let csrf ← fetchToken "csrf"
      if csrf = Token.anonymous then
        throw (.authentication ("login as " ++ c.username ++ " succeeded but the session is anonymous"))
      c.keepToken csrf (← clock)) { s with current := none } trace (LogsIn s trace) := by
  refine (fetchToken_ensures _ trace "csrf").bind ?hok ?herror
  case herror =>
    rintro e _ later ⟨rfl, hlater⟩
    exact logsIn_failed s trace e hlater
  case hok =>
    rintro csrf _ later ⟨rfl, hlater⟩
    apply ensures_check
    · rintro rfl
      exact logsIn_failed s trace _ hlater
    · intro hnamed
      rw [ensures_bind, ensures_clock]
      rintro now later rfl
      have hopened : logins later = logins trace ++ [.opened csrf] := by
        simpa [tokenEnd?, Except.toOption, hnamed] using hlater
      exact ⟨.opened csrf, hopened,
        .opened ⟨c.username, csrf, now, now + Token.lifetime, s.generation + 1⟩ rfl hnamed⟩

theorem logIn_ensures : c.logIn.Ensures World.noting s trace (LogsIn s trace) := by
  rw [logIn, ensures_bind]
  change Ensures World.noting _ { s with current := none } trace _
  refine (fetchToken_ensures _ trace "login").bind ?hok ?herror
  case herror =>
    rintro e _ asked ⟨rfl, hasked⟩
    exact logsIn_failed s trace e hasked
  case hok =>
    rintro token _ asked ⟨rfl, hasked⟩
    have hasked : logins asked = logins trace := by simpa [tokenEnd?, Except.toOption] using hasked
    refine (sendPassword_ensures c _ asked token).bind ?_ ?_
    · rintro (body : Json) _ answered ⟨rfl, hanswered⟩
      have hanswered : logins answered = logins trace ++ (passwordEnd? c.username (.ok body)).toList :=
        hasked ▸ hanswered
      have hcheck := checkLogin_ensures c s answered body
      -- Either the answer to the password ends the login, or opening the session does.
      cases hending : passwordEnd? c.username (.ok body) with
      | none =>
        have hanswered : logins answered = logins trace := by simpa [hending] using hanswered
        rw [hending] at hcheck
        refine hcheck.bind ?_ (by rintro e s' checked ⟨-, h, -⟩; cases h)
        rintro _ _ checked ⟨rfl, -, rfl⟩
        refine (openSession_ensures c s checked).mono ?_
        rintro r s' later ⟨ending, hlater, hlogged⟩
        exact ⟨ending, hanswered ▸ hlater, hlogged⟩
      | some ending =>
        have hanswered : logins answered = logins trace ++ [ending] := by simpa [hending] using hanswered
        rw [hending] at hcheck
        refine hcheck.bind (by rintro _ s' checked ⟨-, e, h, -⟩; cases h) ?_
        rintro e s' checked ⟨rfl, _, ⟨⟩, hlogged⟩
        exact ⟨ending, hanswered, hlogged⟩
    · rintro e _ answered ⟨rfl, hanswered⟩
      exact logsIn_failed s trace e (hasked ▸ hanswered)

end LogIn

section Tracking

variable {trace later : List Exchange} {s s' : Session}

theorem issued_opened {csrf : String} (h : logins later = logins trace ++ [.opened csrf]) :
    issued later = issued trace ++ [(csrf, (issued trace).length + 1)] := by
  simp [issued, h, LoginEnd.opened?, List.zipIdx_append, Nat.add_comm]

theorem issued_of_not_opened {ending : LoginEnd} (h : logins later = logins trace ++ [ending])
    (hending : ending.opened? = none) : issued later = issued trace := by
  simp [issued, h, hending]

theorem issued_of_logins_eq (h : logins later = logins trace) : issued later = issued trace := by
  rw [issued, h, issued]

theorem issued_extends (h : logins trace <+: logins later) : issued trace <+: issued later := by
  obtain ⟨more, hmore⟩ := h
  simp only [issued, ← hmore, List.filterMap_append, List.zipIdx_append]
  exact List.prefix_append _ _

theorem issued_pairwise (trace : List Exchange) : (issued trace).Pairwise fun x y => x.2 < y.2 := by
  have h : ((issued trace).map Prod.snd).Pairwise (· < ·) := by
    rw [issued, List.zipIdx_map_snd]
    exact List.pairwise_lt_range'
  exact List.pairwise_map.1 h

theorem tracks_fresh : Tracks [] Session.fresh :=
  ⟨rfl, nofun, fun _ => iff_of_false nofun nofun, nofun⟩

theorem Tracks.of_logins_eq (h : Tracks trace s) (hlater : logins later = logins trace) : Tracks later s := by
  obtain ⟨hgeneration, hcurrent, hrefused, hlast⟩ := h
  rw [← hlater] at hrefused hlast
  rw [← hlater, ← issued_of_logins_eq hlater] at hcurrent
  exact ⟨issued_of_logins_eq hlater ▸ hgeneration, hcurrent, hrefused, hlast⟩

theorem Tracks.forget (h : Tracks trace s) : Tracks trace { s with current := none } :=
  ⟨h.generation_eq, nofun, h.refused_iff, h.refused_last⟩

theorem Tracks.current_of_refused (h : Tracks trace s) {message : String} (hs : s.refused = some message) :
    s.current = none := by
  have hlast := h.refused_last message ((h.refused_iff message).1 hs)
  rw [Option.eq_none_iff_forall_ne_some]
  intro t ht
  have hopened := (h.current_last t ht).1
  simp [hlast] at hopened

theorem Tracks.generation_of_current (h : Tracks trace s) {t : Token} (ht : s.current = some t) :
    t.generation = s.generation := by
  obtain ⟨-, hlast, -⟩ := h.current_last t ht
  have hpos : 0 < (issued trace).length := by
    rw [List.length_pos_iff]
    exact List.getLast?_isSome.1 (by simp [hlast])
  rw [List.getLast?_eq_getElem?, issued, List.getElem?_zipIdx] at hlast
  simp only [Option.map_eq_some_iff, Prod.mk.injEq] at hlast
  obtain ⟨_, -, -, hindex⟩ := hlast
  rw [h.generation_eq, ← hindex]
  change 1 + ((issued trace).length - 1) = _
  omega

theorem Tracks.logsIn {r : Except Error Token} (h : Tracks trace s) (hs : s.refused = none)
    (hlogs : LogsIn s trace r s' later) : Tracks later s' := by
  -- A session that is not refused has seen no refusal, and a login adds one ending to what it has seen.
  have hnever : ∀ message, LoginEnd.refused message ∉ logins trace := fun message hm => by
    simp [(h.refused_iff message).2 hm] at hs
  obtain ⟨ending, hlater, hlogged⟩ := hlogs
  cases hlogged with
  | opened t hgeneration hnamed =>
    have hissued := issued_opened hlater
    rw [← h.generation_eq, ← hgeneration] at hissued
    constructor
    case generation_eq =>
      simp [hissued, hgeneration, h.generation_eq]
    case current_last =>
      rintro _ ⟨⟩
      exact ⟨by simp [hlater], by simp [hissued], hnamed⟩
    case refused_iff =>
      simp [hs, hlater, hnever]
    case refused_last =>
      simp [hlater, hnever]
  | failed e =>
    constructor
    case generation_eq =>
      rw [issued_of_not_opened hlater rfl]
      exact h.generation_eq
    case current_last =>
      nofun
    case refused_iff =>
      simp [hs, hlater, hnever]
    case refused_last =>
      simp [hlater, hnever]
  | refused message =>
    constructor
    case generation_eq =>
      rw [issued_of_not_opened hlater rfl]
      exact h.generation_eq
    case current_last =>
      nofun
    case refused_iff =>
      simp [hlater, hnever, eq_comm]
    case refused_last =>
      simp [hlater, hnever]

end Tracking

section Calls

variable (c : Client) {s : Session} {trace : List Exchange}

/-- How an action comes by a token: none after a refusal, the one that is held, or that of a new login. -/
inductive Given (s : Session) (trace : List Exchange) : Except Error Token → Session → List Exchange → Prop
  | refused {message : String} (h : s.refused = some message) :
    Given s trace (.error (.authentication message)) s trace
  | held {t : Token} (hrefused : s.refused = none) (h : s.current = some t) : Given s trace (.ok t) s trace
  | loggedIn {r : Except Error Token} {s' : Session} {later : List Exchange} (hrefused : s.refused = none)
    (h : LogsIn s trace r s' later) : Given s trace r s' later

theorem Given.tracks {r : Except Error Token} {s' : Session} {later : List Exchange} (hgiven : Given s trace r s' later)
    (h : Tracks trace s) :
    Tracks later s' ∧ logins trace <+: logins later ∧ ∀ t, r = .ok t → s'.current = some t := by
  cases hgiven with
  | refused hs => exact ⟨h, List.prefix_rfl, nofun⟩
  | held hs ht => exact ⟨h, List.prefix_rfl, by rintro _ ⟨⟩; exact ht⟩
  | loggedIn hs hlogs =>
    refine ⟨h.logsIn hs hlogs, ?_⟩
    obtain ⟨ending, hlater, hlogged⟩ := hlogs
    refine ⟨hlater ▸ List.prefix_append _ _, ?_⟩
    rintro t rfl
    cases hlogged
    rfl

theorem Given.of_refused {r : Except Error Token} {s' : Session} {later : List Exchange}
    (hgiven : Given s trace r s' later) {message : String} (hs : s.refused = some message) :
    r = .error (.authentication message) ∧ s' = s ∧ later = trace := by
  cases hgiven with
  | refused h =>
    obtain rfl := Option.some.inj (hs.symm.trans h)
    exact ⟨rfl, rfl, rfl⟩
  | held h | loggedIn h => simp [hs] at h

theorem ensures_unlessRefused {α : Type} {f : Session → Action α}
    {post : Except Error α → Session → List Exchange → Prop}
    (hrefused : ∀ message, s.refused = some message → post (.error (.authentication message)) s trace)
    (hopen : s.refused = none → (f s).Ensures World.noting s trace post) :
    Ensures World.noting (do let s ← get; checkRefused s; f s) s trace post := by
  have hrun : Ensures World.noting (checkRefused s >>= fun _ => f s) s trace post := by
    cases hs : s.refused with
    | some message =>
      simp only [checkRefused, hs]
      exact hrefused message hs
    | none =>
      simp only [checkRefused, hs]
      exact hopen hs
  exact ensures_bind.2 hrun

theorem ensureAuthenticated_given (s : Session) (trace : List Exchange) :
    c.ensureAuthenticated.Ensures World.noting s trace (Given s trace) := by
  refine ensures_unlessRefused (fun message hs => .refused hs) fun hs => ?_
  have hlogIn : c.logIn.Ensures World.noting s trace (Given s trace) :=
    (logIn_ensures c s trace).mono fun _ _ _ => .loggedIn hs
  cases ht : s.current with
  | none => exact hlogIn
  | some t =>
    change Ensures World.noting (clock >>= fun now => if t.isExpired now then c.logIn else pure t) s trace _
    rw [ensures_bind, ensures_clock]
    rintro now _ rfl
    dsimp only
    split
    · exact hlogIn
    · exact .held hs ht

def NeedsLogin (s : Session) (stale : Token) : Prop :=
  s.refused = none ∧ ∀ t, s.current = some t → t.generation ≤ stale.generation

theorem refresh_given (stale : Token) (s : Session) (trace : List Exchange) :
    (c.refresh stale).Ensures World.noting s trace fun r s' later => Given s trace r s' later ∧
      (NeedsLogin s stale → LogsIn s trace r s' later) ∧ (¬ NeedsLogin s stale → s' = s ∧ later = trace) := by
  refine ensures_unlessRefused (fun message hs => ?_) fun hs => ?_
  · exact ⟨.refused hs, fun hneeds => absurd hneeds.1 (by simp [hs]), fun _ => ⟨rfl, rfl⟩⟩
  have hlogIn (hneeds : NeedsLogin s stale) : c.logIn.Ensures World.noting s trace fun r s' later =>
      Given s trace r s' later ∧ (NeedsLogin s stale → LogsIn s trace r s' later) ∧
        (¬ NeedsLogin s stale → s' = s ∧ later = trace) :=
    (logIn_ensures c s trace).mono fun _ _ _ hlogs =>
      ⟨.loggedIn hs hlogs, fun _ => hlogs, fun h => absurd hneeds h⟩
  cases ht : s.current with
  | none => exact hlogIn ⟨hs, by simp [ht]⟩
  | some t =>
    by_cases hnewer : stale.generation < t.generation
    · simp only [hnewer]
      have hno : ¬ NeedsLogin s stale := fun hneeds => absurd (hneeds.2 t ht) (Nat.not_le.2 hnewer)
      exact ⟨.held hs ht, fun hneeds => absurd hneeds hno, fun _ => ⟨rfl, rfl⟩⟩
    · simp only [hnewer]
      refine hlogIn ⟨hs, ?_⟩
      rintro _ h
      obtain rfl := Option.some.inj (ht.symm.trans h)
      exact Nat.not_lt.1 hnewer

theorem writeWith_keeps (t : Token) (ps : Parameters) (s : Session) (trace : List Exchange) :
    (c.writeWith t ps).Ensures World.noting s trace fun _ s' later => s' = s ∧ logins later = logins trace := by
  have hsent : (sendAgain (.post (signed t ps)) (c.attempts - 1) 0).Ensures World.noting trace fun _ later =>
      logins later = logins trace := by
    apply sendAgain_rule (I := fun later => logins later = logins trace)
    case hoff =>
      rintro v answer _ hv rfl -
      rw [logins_concat, loginEnd?_signed, hv, Option.toList_none, List.append_nil]
    case hwait =>
      rintro v _ _ _ hv rfl
      exact hv
    case hlast =>
      rintro v answer _ hv rfl
      rw [logins_concat, loginEnd?_signed, hv, Option.toList_none, List.append_nil]
    case hv =>
      rfl
  rw [writeWith, ensures_bind, request, ensures_ofDialogue]
  refine hsent.mono fun answer later hlater => ?_
  cases answer with
  | error e => exact ⟨rfl, hlater⟩
  | ok body =>
    dsimp only
    split <;> exact ⟨rfl, hlater⟩

theorem writeAnew_tracks (stale : Token) (ps : Parameters) (h : Tracks trace s) :
    (c.writeAnew stale ps).Ensures World.noting s trace fun _ s' later =>
      Tracks later s' ∧ logins trace <+: logins later := by
  refine (refresh_given c stale s trace).bind ?hok ?herror
  case herror =>
    rintro e s' later ⟨hgiven, -⟩
    exact ⟨(hgiven.tracks h).1, (hgiven.tracks h).2.1⟩
  case hok =>
    rintro t s' fetched ⟨hgiven, -⟩
    obtain ⟨htracks, hextends, -⟩ := hgiven.tracks h
    rw [ensures_bind, ensures_outcome]
    refine (writeWith_keeps c t ps s' fetched).mono ?_
    rintro r s'' later ⟨rfl, hlater⟩
    have hkept : Tracks later s'' ∧ logins trace <+: logins later :=
      ⟨htracks.of_logins_eq hlater, hlater ▸ hextends⟩
    cases r with
    | ok body => exact hkept
    | error e =>
      dsimp only
      split
      · exact ⟨hkept.1.forget, hkept.2⟩
      · exact hkept

theorem write_tracks (ps : Parameters) (h : Tracks trace s) :
    (c.write ps).Ensures World.noting s trace fun r s' later =>
      Tracks later s' ∧ logins trace <+: logins later ∧
        ∀ message, s.refused = some message → r = .error (.authentication message) ∧ s' = s ∧ later = trace := by
  refine (ensureAuthenticated_given c s trace).bind ?hok ?herror
  case herror =>
    intro e s' later hgiven
    obtain ⟨htracks, hextends, -⟩ := hgiven.tracks h
    exact ⟨htracks, hextends, fun message hs => by simpa using hgiven.of_refused hs⟩
  case hok =>
    intro t s' given hgiven
    obtain ⟨htracks, hextends, -⟩ := hgiven.tracks h
    have hopen : s.refused = none := by cases hgiven <;> assumption
    simp only [hopen, reduceCtorEq, false_implies, implies_true, and_true]
    rw [ensures_bind, ensures_outcome]
    refine (writeWith_keeps c t ps s' given).mono ?_
    rintro r s'' later ⟨rfl, hlater⟩
    have hkept : Tracks later s'' ∧ logins trace <+: logins later :=
      ⟨htracks.of_logins_eq hlater, hlater ▸ hextends⟩
    cases r with
    | ok body => exact hkept
    | error e =>
      dsimp only
      split
      · refine (writeAnew_tracks c t ps hkept.1).mono fun _ _ _ hanew => ?_
        exact ⟨hanew.1, hkept.2.trans hanew.2⟩
      · exact hkept

theorem logOut_tracks (h : Tracks trace s) :
    logOut.Ensures World.noting s trace fun r s' later => Tracks later s' ∧ logins trace <+: logins later ∧
      (s.current = none → r = .ok () ∧ s' = s ∧ later = trace) := by
  obtain ⟨current, generation, refused⟩ := s
  cases current with
  | none => exact ⟨h, List.prefix_rfl, fun _ => ⟨rfl, rfl, rfl⟩⟩
  | some t =>
    rintro reply _ rfl
    have hlogins : ∀ x, loginEnd? x = none → logins (trace ++ [x]) = logins trace := fun x hx => by
      rw [logins_concat, hx, Option.toList_none, List.append_nil]
    have hlater := hlogins _ (loginEnd?_logOut t.csrf reply)
    cases reply <;> exact ⟨h.forget.of_logins_eq hlater, hlater ▸ List.prefix_rfl, nofun⟩

end Calls

inductive SessionCall where
  | ensureAuthenticated
  | refresh (stale : Token)
  | invalidate
  | logOut
  | write (ps : Parameters)

namespace SessionCall

def perform (c : Client) : SessionCall → Action (Option Token)
  | ensureAuthenticated => do return some (← c.ensureAuthenticated)
  | refresh stale => do return some (← c.refresh stale)
  | invalidate => do Client.invalidate; return none
  | logOut => do Client.logOut; return none
  | write ps => do let _ ← c.write ps; return none

def afterRefusal (message : String) : SessionCall → Except Error (Option Token)
  | invalidate | logOut => .ok none
  | _ => .error (.authentication message)

def performAll (c : Client) : List SessionCall → Action (List (Except Error (Option Token)))
  | [] => pure []
  | call :: rest => do
    let r ← (call.perform c).outcome
    let rs ← performAll c rest
    pure (r :: rs)

variable (c : Client) {s : Session} {trace : List Exchange}

theorem perform_tracks (call : SessionCall) (h : Tracks trace s) :
    (call.perform c).Ensures World.noting s trace fun r s' later =>
      Tracks later s' ∧ logins trace <+: logins later ∧ (∀ t, r = .ok (some t) → s'.current = some t) ∧
        ∀ message, s.refused = some message → r = call.afterRefusal message ∧ s' = s ∧ later = trace := by
  have hgiven {r : Except Error Token} {s' : Session} {later : List Exchange} (hr : Given s trace r s' later) :
      Tracks later s' ∧ logins trace <+: logins later ∧ (∀ t, r = .ok t → s'.current = some t) ∧
        ∀ message, s.refused = some message → r = .error (.authentication message) ∧ s' = s ∧ later = trace := by
    obtain ⟨htracks, hextends, hcurrent⟩ := hr.tracks h
    exact ⟨htracks, hextends, hcurrent, fun message hs => hr.of_refused hs⟩
  cases call with
  | ensureAuthenticated =>
    refine (ensureAuthenticated_given c s trace).bind (fun t s' later hr => ?_) fun e s' later hr => ?_
    · simpa [afterRefusal, ensures_pure] using hgiven hr
    · simpa [afterRefusal] using hgiven hr
  | refresh stale =>
    refine (refresh_given c stale s trace).bind (fun t s' later hr => ?_) fun e s' later hr => ?_
    · simpa [afterRefusal, ensures_pure] using hgiven hr.1
    · simpa [afterRefusal] using hgiven hr.1
  | invalidate =>
    refine ⟨h.forget, List.prefix_rfl, nofun, fun message hs => ⟨rfl, ?_, rfl⟩⟩
    have hcurrent := h.current_of_refused hs
    cases s
    exact congrArg (Session.mk · _ _) hcurrent.symm
  | logOut =>
    refine (logOut_tracks h).bind (fun _ s' later hr => ?_) fun e s' later hr => ?_
    · obtain ⟨htracks, hextends, hclosed⟩ := hr
      exact ⟨htracks, hextends, nofun, fun message hs => ⟨rfl, (hclosed (h.current_of_refused hs)).2⟩⟩
    · obtain ⟨htracks, hextends, hclosed⟩ := hr
      exact ⟨htracks, hextends, nofun, fun message hs => by simpa using hclosed (h.current_of_refused hs)⟩
  | write ps =>
    refine (write_tracks c ps h).bind (fun _ s' later hr => ?_) fun e s' later hr => ?_
    · obtain ⟨htracks, hextends, hrefused⟩ := hr
      exact ⟨htracks, hextends, nofun, fun message hs => by simpa using hrefused message hs⟩
    · obtain ⟨htracks, hextends, hrefused⟩ := hr
      exact ⟨htracks, hextends, nofun, fun message hs => by simpa [afterRefusal] using hrefused message hs⟩

def given (outcomes : List (Except Error (Option Token))) : List Token :=
  outcomes.filterMap fun r => r.toOption.join

/-- A run of calls keeps the session in step, and each token it gives is one that a login was given. -/
theorem performAll_tracks (calls : List SessionCall) (h : Tracks trace s) :
    (performAll c calls).Ensures World.noting s trace fun r s' later =>
      Tracks later s' ∧ logins trace <+: logins later ∧ ∃ outcomes, r = .ok outcomes ∧
        (∀ t ∈ given outcomes, (t.csrf, t.generation) ∈ issued later ∧ s.generation ≤ t.generation) ∧
        (given outcomes).Pairwise fun t u => t.generation ≤ u.generation := by
  -- What is carried from call to call is that the session is in step; a token is compared only with those after it,
  -- whose numbers are at least that of the session it was given in.
  induction calls generalizing s trace with
  | nil => exact ⟨h, List.prefix_rfl, [], rfl, by simp [given], by simp [given]⟩
  | cons call rest ih =>
    rw [performAll, ensures_bind, ensures_outcome]
    refine (perform_tracks c call h).mono ?_
    rintro r s' later ⟨htracks, hextends, hcurrent, -⟩
    refine (ih htracks).bind ?_ (by rintro e s'' last ⟨-, -, _, herror, -⟩; cases herror)
    rintro outcomes s'' last ⟨htracks', hextends', _, ⟨⟩, hgiven, hpairwise⟩
    refine ⟨htracks', hextends.trans hextends', r :: outcomes, rfl, ?_⟩
    have hle : s.generation ≤ s'.generation := by
      rw [h.generation_eq, htracks.generation_eq]
      exact (issued_extends hextends).length_le
    have hrest : ∀ t ∈ given outcomes, (t.csrf, t.generation) ∈ issued last ∧ s.generation ≤ t.generation :=
      fun t ht => ⟨(hgiven t ht).1, Nat.le_trans hle (hgiven t ht).2⟩
    cases hr : r.toOption.join with
    | none =>
      have hcons : given (r :: outcomes) = given outcomes := by simp [given, hr]
      rw [hcons]
      exact ⟨hrest, hpairwise⟩
    | some t =>
      have hcons : given (r :: outcomes) = t :: given outcomes := by simp [given, hr]
      have ht : s'.current = some t := hcurrent t (by
        cases r with
        | ok u => simpa [Except.toOption] using hr
        | error e => simp [Except.toOption] at hr)
      have hgeneration := htracks.generation_of_current ht
      have hissued : (t.csrf, t.generation) ∈ issued later :=
        List.mem_of_getLast? (htracks.current_last t ht).2.1
      rw [hcons, List.forall_mem_cons, List.pairwise_cons]
      refine ⟨⟨⟨(issued_extends hextends').subset hissued, ?_⟩, hrest⟩, fun u hu => ?_, hpairwise⟩
      · omega
      · rw [hgeneration]
        exact (hgiven u hu).2

theorem performAll_refused (calls : List SessionCall) (h : Tracks trace s) {message : String}
    (hs : s.refused = some message) :
    (performAll c calls).Ensures World.noting s trace fun r s' later =>
      r = .ok (calls.map (afterRefusal message)) ∧ s' = s ∧ later = trace := by
  induction calls with
  | nil => exact ⟨rfl, rfl, rfl⟩
  | cons call rest ih =>
    rw [performAll, ensures_bind, ensures_outcome]
    refine (perform_tracks c call h).mono ?_
    rintro r s' later ⟨-, -, -, hrefused⟩
    obtain ⟨rfl, rfl, rfl⟩ := hrefused message hs
    refine ih.bind ?_ (by rintro e s'' last ⟨h, -⟩; cases h)
    rintro _ s'' last ⟨⟨⟩, rfl, rfl⟩
    exact ⟨rfl, rfl, rfl⟩

/--
The session after any run of calls, whatever the store answers. The counter is the number of logins that were
completed, and a login that is completed next is given the next number. A token is held only if the last login
gave it, and it is never the anonymous one; the tokens that calls give are among those of the logins, in the
order of their numbers. A token that was turned down is replaced by one login if none has happened since and the
password was not refused, and otherwise nothing is sent for it. Once a login was refused no token is held, and
whatever is called afterwards sends nothing and fails with the words of that refusal.
-/
theorem session_of_calls (c : Client) (calls : List SessionCall) :
    (performAll c calls).Ensures World.noting Session.fresh [] fun r s trace =>
      Tracks trace s ∧ (issued trace).Pairwise (fun x y => x.2 < y.2) ∧
      (∃ outcomes, r = .ok outcomes ∧ (∀ t ∈ given outcomes, (t.csrf, t.generation) ∈ issued trace) ∧
        (given outcomes).Pairwise fun t u => t.generation ≤ u.generation) ∧
      c.logIn.Ensures World.noting s trace (LogsIn s trace) ∧
      (∀ stale, (c.refresh stale).Ensures World.noting s trace fun r s' later =>
        (NeedsLogin s stale → LogsIn s trace r s' later) ∧ (¬ NeedsLogin s stale → s' = s ∧ later = trace)) ∧
      ∀ message, .refused message ∈ logins trace → s.current = none ∧
        ∀ more, (performAll c more).Ensures World.noting s trace fun r s' later =>
          r = .ok (more.map (afterRefusal message)) ∧ s' = s ∧ later = trace := by
  refine (performAll_tracks c calls tracks_fresh).mono ?_
  rintro r s trace ⟨htracks, -, outcomes, rfl, hgiven, hpairwise⟩
  refine ⟨htracks, issued_pairwise trace, ⟨outcomes, rfl, fun t ht => (hgiven t ht).1, hpairwise⟩,
    logIn_ensures c s trace, fun stale => ?_, fun message hmessage => ?_⟩
  · exact (refresh_given c stale s trace).mono fun _ _ _ h => h.2
  · have hs := (htracks.refused_iff message).2 hmessage
    exact ⟨htracks.current_of_refused hs, fun more => performAll_refused c more htracks hs⟩

end SessionCall

end ClaimTables.Client
