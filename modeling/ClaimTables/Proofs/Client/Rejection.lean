import ClaimTables.Proofs.Client.AppliedOnce
import ClaimTables.Proofs.Client.Fails
import ClaimTables.Proofs.Client.Sessions
import ClaimTables.Proofs.Exchange.Paths

/-!
Edits whose token is turned down. The token is replaced once and by a newer one, and when that is turned down as well the
session is given up. Which courses an edit can take is said first, each with its exchanges, its result and the session it
leaves; that an edit takes one of them is the main statement.
-/

namespace ClaimTables

def Session.Sound (s : Session) : Prop :=
  ∀ t, s.current = some t → t.generation ≤ s.generation

namespace Client

open Client.Action

def verdict (reply : Except Error Json) : Except Error Json :=
  match turnedDown? reply with
  | some e => .error (.remoteWrite none e.code e.info)
  | none => reply

/-- That an edit was sent with a token, again only while it was put off and within a bound, with this reply in the end. -/
def Tried (bound : Nat) (ps : Parameters) (t : Token) (exchanged : List Exchange) (last : Except Error Json) : Prop :=
  ∃ before, exchanged = (before ++ [last]).map (Exchange.mk (.post (signed t ps))) ∧ Attempts bound (before ++ [last])

def StartsWithLogin (c : Client) (s : Session) : Prop :=
  ∀ ps, (c.write ps).Ensures World.noting s [] fun _ _ trace =>
    ∃ reply rest, trace = ⟨tokenRequest "login", reply⟩ :: rest

inductive Renewal (c : Client) (ps : Parameters) (stale : Token) (s : Session) :
    List Exchange → Except Error Json → Session → Prop
  | stuck {renewing : List Exchange} {e : Error} {s' : Session}
    (renewed : (c.refresh stale).Goes s renewing (.error e) s') : Renewal c ps stale s renewing (.error e) s'
  | settled {renewing sent : List Exchange} {t : Token} {s' : Session} {last : Except Error Json}
    (renewed : (c.refresh stale).Goes s renewing (.ok t) s') (newer : stale.generation < t.generation)
    (tried : Tried c.attempts ps t sent last) (good : ¬IsExpired last) :
    Renewal c ps stale s (renewing ++ sent) (verdict last) s'
  | rejected {renewing sent : List Exchange} {t : Token} {s' : Session} {last : Except Error Json} {e : ApiError}
    (renewed : (c.refresh stale).Goes s renewing (.ok t) s') (newer : stale.generation < t.generation)
    (tried : Tried c.attempts ps t sent last) (down : turnedDown? last = some e)
    (expired : Error.isExpiryCode e.code = true) (login : StartsWithLogin c { s' with current := none }) :
    Renewal c ps stale s (renewing ++ sent)
      (.error (.authentication ("edit token rejected again after re-login: " ++
        (Error.remoteWrite none e.code e.info).message))) { s' with current := none }

inductive Course (c : Client) (ps : Parameters) (s : Session) : List Exchange → Except Error Json → Session → Prop
  | locked {opening : List Exchange} {e : Error} {s' : Session}
    (opened : c.ensureAuthenticated.Goes s opening (.error e) s') : Course c ps s opening (.error e) s'
  | settled {opening sent : List Exchange} {t : Token} {s' : Session} {last : Except Error Json}
    (opened : c.ensureAuthenticated.Goes s opening (.ok t) s') (tried : Tried c.attempts ps t sent last)
    (good : ¬IsExpired last) : Course c ps s (opening ++ sent) (verdict last) s'
  | expired {opening sent rest : List Exchange} {t : Token} {s₁ s' : Session} {last r : Except Error Json}
    (opened : c.ensureAuthenticated.Goes s opening (.ok t) s₁) (tried : Tried c.attempts ps t sent last)
    (bad : IsExpired last) (renewal : Renewal c ps t s₁ rest r s') : Course c ps s (opening ++ (sent ++ rest)) r s'

variable {c : Client} {ps : Parameters} {s s' : Session} {exchanged : List Exchange}

section Tokens

variable {t stale : Token} {trace later : List Exchange} {r : Except Error Token}

theorem Given.sound (hgiven : Given s trace r s' later) (hs : s.Sound) : s'.Sound := by
  cases hgiven with
  | refused => exact hs
  | held => exact hs
  | loggedIn hopen hlogs =>
    obtain ⟨ending, -, hlogged⟩ := hlogs
    cases hlogged with
    | opened t => rintro _ ⟨⟩; exact Nat.le_refl _
    | failed | refused => nofun

theorem Given.held_after (hgiven : Given s trace (.ok t) s' later) : s'.current = some t ∧ s'.refused = none := by
  cases hgiven with
  | held hopen ht => exact ⟨ht, hopen⟩
  | loggedIn hopen hlogs =>
    obtain ⟨ending, -, hlogged⟩ := hlogs
    cases hlogged
    exact ⟨rfl, hopen⟩

/-- A token is replaced by a newer one, also if somebody else has used the session since it was given. -/
theorem refresh_newer (h : (c.refresh stale).Goes s exchanged (.ok t) s') (hstale : stale.generation ≤ s.generation) :
    stale.generation < t.generation := by
  obtain ⟨hgiven, hlogs, hkept⟩ := (refresh_given c stale s []).goes h
  by_cases hneeds : NeedsLogin s stale
  · obtain ⟨ending, -, hlogged⟩ := hlogs hneeds
    cases hlogged with
    | opened t hgeneration => omega
  · obtain ⟨rfl, rfl⟩ := hkept hneeds
    obtain ⟨ht, hopen⟩ := hgiven.held_after
    refine Nat.lt_of_not_le fun hle => hneeds ⟨hopen, fun u hu => ?_⟩
    obtain rfl := Option.some.inj (ht.symm.trans hu)
    exact hle

theorem startsWithLogin (c : Client) (hopen : s.refused = none) (hcurrent : s.current = none) : StartsWithLogin c s := by
  obtain ⟨current, generation, refused⟩ := s
  obtain rfl := hopen
  obtain rfl := hcurrent
  rintro ps reply _ rfl
  refine (Dialogue.ensures_extends _ _).mono ?_
  rintro _ _ ⟨rest, rfl⟩
  exact ⟨reply, rest, rfl⟩

end Tokens

section Sent

variable {t : Token} {r last : Except Error Json}

theorem verdict_of_not_expired (hfair : FailsAs Error.OnTheWay last) (h : ¬IsExpired last) :
    FailsAs (·.isExpiry = false) (verdict last) := by
  unfold verdict
  split
  · next e he =>
    refine failsAs_error ?_
    rw [Error.isExpiry, ← Bool.not_eq_true]
    exact fun hcode => h ⟨e, he, hcode⟩
  · exact fun e he => (hfair e he).isExpiry_eq

theorem Tried.fair {bound : Nat} (h : Tried bound ps t exchanged last)
    (hfair : ∀ x ∈ exchanged, FailsAs Error.OnTheWay x.reply) : FailsAs Error.OnTheWay last := by
  obtain ⟨before, rfl, -⟩ := h
  exact hfair (Exchange.mk (.post (signed t ps)) last) (by simp)

theorem request_tried (hc : 0 < c.attempts) (h : (c.request (.post (signed t ps))).Goes s exchanged last s')
    (hfair : ∀ x ∈ exchanged, FailsAs Error.OnTheWay x.reply) : s' = s ∧ Tried c.attempts ps t exchanged last := by
  obtain ⟨hgoes, rfl⟩ := goes_ofDialogue.1 h
  have hrecords := sendAgain_records (.post (signed t ps)) (c.attempts - 1) 0 []
  obtain ⟨-, before, rfl, hlength, hbefore⟩ := Dialogue.ensures_recording_iff.1 hrecords _ _ hgoes hfair
  refine ⟨rfl, before, rfl, ?_, fun reply hreply => ?_⟩
  · rw [List.length_append, List.length_singleton]
    omega
  · rw [List.dropLast_concat] at hreply
    exact isPutOff_of_putsOff (hbefore reply hreply)

theorem writeWith_tried (hc : 0 < c.attempts) (h : (c.writeWith t ps).Goes s exchanged r s')
    (hfair : ∀ x ∈ exchanged, FailsAs Error.OnTheWay x.reply) :
    s' = s ∧ ∃ last, Tried c.attempts ps t exchanged last ∧ r = verdict last := by
  rcases goes_bind.1 h with ⟨body, s₁, first, rest, hfirst, hrest, rfl⟩ | ⟨e, hfailed, rfl⟩
  · rw [List.forall_mem_append] at hfair
    obtain ⟨rfl, htried⟩ := request_tried hc hfirst hfair.1
    have hverdict : verdict (.ok body) = match ApiError.ofJson? body with
      | some e => .error (.remoteWrite none e.code e.info)
      | none => .ok body := rfl
    split at hrest
    · next e he =>
      obtain ⟨rfl, rfl, rfl⟩ := goes_throw.1 hrest
      rw [List.append_nil]
      exact ⟨rfl, _, htried, by rw [hverdict, he]⟩
    · next he =>
      obtain ⟨rfl, rfl, rfl⟩ := goes_pure.1 hrest
      rw [List.append_nil]
      exact ⟨rfl, _, htried, by rw [hverdict, he]⟩
  · obtain ⟨rfl, htried⟩ := request_tried hc hfailed hfair
    exact ⟨rfl, _, htried, rfl⟩

theorem outcome_tried {f : Except Error Json → Action Json} (hc : 0 < c.attempts)
    (hok : ∀ body, f (.ok body) = pure body) (herror : ∀ e, e.isExpiry = false → f (.error e) = throw e)
    (h : ((c.writeWith t ps).outcome >>= f).Goes s exchanged r s')
    (hfair : ∀ x ∈ exchanged, FailsAs Error.OnTheWay x.reply) :
    ∃ sent last, Tried c.attempts ps t sent last ∧
      ((¬IsExpired last ∧ exchanged = sent ∧ r = verdict last ∧ s' = s) ∨
        ∃ e rest, turnedDown? last = some e ∧ Error.isExpiryCode e.code = true ∧ exchanged = sent ++ rest ∧
          (f (.error (.remoteWrite none e.code e.info))).Goes s rest r s') := by
  rcases goes_bind.1 h with ⟨q, s₁, sent, rest, hsent, hrest, rfl⟩ | ⟨e, hfailed, rfl⟩
  · obtain ⟨q, hsent, hq⟩ := goes_outcome.1 hsent
    obtain rfl := Except.ok.inj hq
    rw [List.forall_mem_append] at hfair
    obtain ⟨rfl, last, htried, rfl⟩ := writeWith_tried hc hsent hfair.1
    refine ⟨sent, last, htried, ?_⟩
    -- A document that turns the token down is read as a refusal with its code, and that is what `f` is given.
    by_cases hexpired : IsExpired last
    · obtain ⟨e, hdown, hcode⟩ := hexpired
      have hverdict : verdict last = .error (.remoteWrite none e.code e.info) := by rw [verdict, hdown]
      exact .inr ⟨e, rest, hdown, hcode, rfl, hverdict ▸ hrest⟩
    · have hsettled : f (verdict last) = liftExcept (verdict last) := by
        have hfails := verdict_of_not_expired (htried.fair hfair.1) hexpired
        cases hq : verdict last with
        | ok body => exact hok body
        | error e => exact herror e (hfails e hq)
      rw [hsettled] at hrest
      obtain ⟨rfl, rfl, rfl⟩ := goes_liftExcept.1 hrest
      exact .inl ⟨hexpired, List.append_nil sent, rfl, rfl⟩
  · obtain ⟨q, -, hq⟩ := goes_outcome.1 hfailed
    cases hq

end Sent

section Edits

variable {r : Except Error Json}

theorem writeAnew_renewal {stale : Token} (hc : 0 < c.attempts) (hstale : stale.generation ≤ s.generation)
    (h : (c.writeAnew stale ps).Goes s exchanged r s') (hfair : ∀ x ∈ exchanged, FailsAs Error.OnTheWay x.reply) :
    Renewal c ps stale s exchanged r s' := by
  rcases goes_bind.1 h with ⟨t, s₁, renewing, rest, hrenewed, hrest, rfl⟩ | ⟨e, hfailed, rfl⟩
  · rw [List.forall_mem_append] at hfair
    have hnewer := refresh_newer hrenewed hstale
    obtain ⟨sent, last, htried, ⟨hgood, rfl, rfl, rfl⟩ | ⟨e, after, hdown, hcode, rfl, hafter⟩⟩ :=
      outcome_tried hc (fun _ => rfl) (fun e he => if_neg (by simp [he])) hrest hfair.2
    · exact .settled hrenewed hnewer htried hgood
    · have hexpiry : (Error.remoteWrite none e.code e.info).isExpiry = true := hcode
      simp only [hexpiry, if_true] at hafter
      rcases goes_bind.1 hafter with ⟨_, s₂, first, more, hfirst, hmore, rfl⟩ | ⟨e', hfailed, -⟩
      · obtain ⟨rfl, -, rfl⟩ := goes_pure.1 hfirst
        obtain ⟨rfl, rfl, rfl⟩ := goes_throw.1 hmore
        have hopen := ((refresh_given c stale s []).goes hrenewed).1.held_after.2
        rw [List.append_nil, List.append_nil]
        exact .rejected hrenewed hnewer htried hdown hcode (startsWithLogin c hopen rfl)
      · obtain ⟨-, he, -⟩ := goes_pure.1 hfailed
        cases he
  · exact .stuck hfailed

theorem write_course (hc : 0 < c.attempts) (hs : s.Sound) (h : (c.write ps).Goes s exchanged r s')
    (hfair : ∀ x ∈ exchanged, FailsAs Error.OnTheWay x.reply) : Course c ps s exchanged r s' := by
  rcases goes_bind.1 h with ⟨t, s₁, opening, rest, hopened, hrest, rfl⟩ | ⟨e, hfailed, rfl⟩
  · rw [List.forall_mem_append] at hfair
    have hgiven := (ensureAuthenticated_given c s []).goes hopened
    have hle := hgiven.sound hs t hgiven.held_after.1
    obtain ⟨sent, last, htried, ⟨hgood, rfl, rfl, rfl⟩ | ⟨e, after, hdown, hcode, rfl, hafter⟩⟩ :=
      outcome_tried hc (fun _ => rfl) (fun e he => if_neg (by simp [he])) hrest hfair.2
    · exact .settled hopened htried hgood
    · have hexpiry : (Error.remoteWrite none e.code e.info).isExpiry = true := hcode
      simp only [hexpiry, if_true] at hafter
      rw [List.forall_mem_append] at hfair
      exact .expired hopened htried ⟨e, hdown, hcode⟩ (writeAnew_renewal hc hle hafter hfair.2.2)
  · exact .locked hfailed

theorem Renewal.not_expiry {stale : Token} (h : Renewal c ps stale s exchanged r s')
    (hfair : ∀ x ∈ exchanged, FailsAs Error.OnTheWay x.reply) : FailsAs (·.isExpiry = false) r := by
  cases h with
  | stuck hfailed =>
    have hrefresh := (fails_refresh (fun _ => rfl) c stale).goes hfailed fun x hx e he => (hfair x hx e he).isExpiry_eq
    exact failsAs_error (hrefresh _ rfl)
  | settled _ _ htried hgood =>
    exact verdict_of_not_expired (htried.fair (List.forall_mem_append.1 hfair).2) hgood
  | rejected => exact failsAs_error rfl

theorem Course.not_expiry (h : Course c ps s exchanged r s')
    (hfair : ∀ x ∈ exchanged, FailsAs Error.OnTheWay x.reply) : FailsAs (·.isExpiry = false) r := by
  cases h with
  | locked hfailed =>
    have hopen := (fails_ensureAuthenticated (fun _ => rfl) c).goes hfailed fun x hx e he => (hfair x hx e he).isExpiry_eq
    exact failsAs_error (hopen _ rfl)
  | settled _ htried hgood => exact verdict_of_not_expired (htried.fair (List.forall_mem_append.1 hfair).2) hgood
  | expired _ _ _ hrenewal =>
    rw [List.forall_mem_append, List.forall_mem_append] at hfair
    exact hrenewal.not_expiry hfair.2.2

end Edits

/--
What comes of an edit, whatever the store answers, unless a request fails on its way like an edit that was turned down. It
takes one of its courses: a token that is turned down is replaced once at most and by a newer one, and if that is turned down
too the edit fails for want of authentication, no token is held and the next edit logs in. It never fails with the refusal of
a token, and besides what opens sessions it sends nothing but itself: the caller's parameters, then the token and the
assertion that a bot sends it. A session may be any in which no token is newer than the last login, and calls lead to no
others.
-/
theorem rejection_handled_once (settings : Settings) (ps : Parameters) :
    (∀ calls, (SessionCall.performAll (ofSettings settings) calls).Ensures World.noting Session.fresh [] fun _ s _ =>
      s.Sound) ∧
    ∀ s : Session, s.Sound → ((ofSettings settings).write ps).Ensures World.recording s [] fun r s' trace =>
      Course (ofSettings settings) ps s trace r s' ∧ (∀ e, r = .error e → e.isExpiry = false) ∧
        ∀ x ∈ trace, OpensSession x.request ∨
          ∃ token, x.request = .post (ps ++ .ofTexts [("token", token), ("assert", "user"), ("bot", "1")]) := by
  constructor
  · intro calls
    refine (SessionCall.performAll_tracks _ calls tracks_fresh).mono ?_
    rintro _ s _ ⟨htracks, -⟩ t ht
    exact Nat.le_of_eq (htracks.generation_of_current ht)
  · intro s hs
    have hpos : 0 < (ofSettings settings).attempts := Nat.lt_of_lt_of_le Nat.one_pos (Nat.le_max_left 1 _)
    refine Dialogue.ensures_recording_iff.2 ?_
    rintro trace ⟨r, s'⟩ hgoes hfair
    have hsends : ((ofSettings settings).write ps).Sends fun r => OpensSession r ∨
        ∃ token, r = .post (ps ++ .ofTexts [("token", token), ("assert", "user"), ("bot", "1")]) :=
      sends_write (fun _ h => .inl h) (fun token => .inr ⟨token.csrf, rfl⟩) _
    have hcourse := write_course hpos hs hgoes hfair
    exact ⟨hcourse, hcourse.not_expiry hfair, hsends.goes hgoes⟩

/-! A store that turns down the token that is held and the next one. -/

section Scripted

def bot : Settings :=
  { Settings.default with botUsername := "Admin@wikigraph", botPassword := "secret" }

def loggedInOnce : Session := .loggedIn "Admin@wikigraph"

def textReply (keys : List String) (s : String) : ScriptedReply :=
  .document (keys.foldr (fun key j => .ofEntries [(key, j)]) (.string s))

def turnedDownTwice : Conversation :=
  .start [textReply ["error", "code"] "badtoken", textReply ["query", "tokens", "logintoken"] "lt+\\",
    textReply ["login", "result"] "Success", textReply ["query", "tokens", "csrftoken"] "csrf2+\\",
    textReply ["error", "code"] "ratelimited", textReply ["error", "code"] "badtoken"] 0 ""

def removal : Parameters := removeClaimsParameters ["Q7$c"]

def removalRun : (Except Error Json × Session) × List Exchange :=
  Dialogue.follow (((ofSettings bot).write removal).run.run loggedInOnce) turnedDownTwice []

theorem rejected_after_login : loggedInOnce.Sound ∧ Course (ofSettings bot) removal loggedInOnce removalRun.2
    (.error (.authentication "edit token rejected again after re-login: Store rejected edit: badtoken: "))
    ⟨none, 2, none⟩ ∧ removalRun.2.length = 6 := by
  have hsound : loggedInOnce.Sound := by
    rintro _ ⟨⟩
    exact Nat.le_refl 1
  have hrun : removalRun.1 = (.error (.authentication
      "edit token rejected again after re-login: Store rejected edit: badtoken: "), ⟨none, 2, none⟩) := by rfl
  have hok : ∀ x ∈ removalRun.2, x.reply.isOk = true := by decide +kernel
  have hfair : ∀ x ∈ removalRun.2, FailsAs Error.OnTheWay x.reply := by
    intro x hx e he
    have hx := hok x hx
    rw [he] at hx
    cases hx
  obtain ⟨trace, htrace, hgoes⟩ := Dialogue.goes_follow
    (((ofSettings bot).write removal).run.run loggedInOnce) turnedDownTwice []
  obtain rfl : removalRun.2 = trace := htrace
  have hgoes : Dialogue.Goes _ removalRun.2 removalRun.1 := hgoes
  rw [hrun] at hgoes
  have hensures := (rejection_handled_once bot removal).2 loggedInOnce hsound
  exact ⟨hsound, (Dialogue.ensures_recording_iff.1 hensures _ _ hgoes hfair).1, by decide +kernel⟩

end Scripted

end Client

end ClaimTables
