import ClaimTables.Proofs.Client.Logins
import Mathlib.Data.List.Forall2

/-!
How often one edit is sent. A client sends an edit again only after the store has turned it down, so of all
its sendings the last alone can have been applied.
-/

namespace ClaimTables.Client

structure Sending where
  parameters : Parameters
  csrf : String
  reply : Except Error Json

def unsigned? (ps : Parameters) : Option (Parameters × String) :=
  match ps.reverse with
  | ("bot", _) :: ("assert", _) :: ("token", .text csrf) :: rest => some (rest.reverse, csrf)
  | _ => none

def sending? : Exchange → Option Sending
  | ⟨.post ps, reply⟩ => (unsigned? ps).map fun (ps, csrf) => ⟨ps, csrf, reply⟩
  | _ => none

def sendings (trace : List Exchange) : List Sending :=
  trace.filterMap sending?

structure Records (trace : List Exchange) (xs : List Sending) : Prop where
  sendings_eq : sendings trace = xs
  other : ∀ x ∈ trace, sending? x = none → OpensSession x.request

def turnedDown? : Except Error Json → Option ApiError
  | .ok body => ApiError.ofJson? body
  | .error _ => none

def IsPutOff (reply : Except Error Json) : Prop :=
  ∃ e, turnedDown? reply = some e ∧ ApiError.transientCodes.contains e.code = true

def IsExpired (reply : Except Error Json) : Prop :=
  ∃ e, turnedDown? reply = some e ∧ Error.isExpiryCode e.code = true

/-- Replies to an edit that is sent again, so many times at most, only while it is put off. -/
structure Attempts (bound : Nat) (replies : List (Except Error Json)) : Prop where
  length_le : replies.length ≤ bound
  putOff : ∀ reply ∈ replies.dropLast, IsPutOff reply

theorem unsigned?_signed (t : Token) (ps : Parameters) : unsigned? (signed t ps) = some (ps, t.csrf) := by
  simp [unsigned?, signed, Parameters.ofTexts]

theorem sending?_opensSession {r : Request} (hr : OpensSession r) (reply : Except Error r.Reply) :
    sending? ⟨r, reply⟩ = none := by
  cases hr with
  | token kind => rfl
  | logIn c token => simp [sending?, logInRequest, unsigned?, Parameters.ofTexts]

theorem sending?_signed (t : Token) (ps : Parameters) (reply : Except Error Json) :
    sending? ⟨.post (signed t ps), reply⟩ = some ⟨ps, t.csrf, reply⟩ := by
  simp [sending?, unsigned?_signed]

theorem Records.signed {trace : List Exchange} {xs : List Sending} (h : Records trace xs) (t : Token)
    (ps : Parameters) (replies : List (Except Error Json)) :
    Records (trace ++ replies.map (Exchange.mk (.post (signed t ps))))
      (xs ++ replies.map (Sending.mk ps t.csrf)) := by
  have hmap : sending? ∘ Exchange.mk (.post (Client.signed t ps)) = some ∘ Sending.mk ps t.csrf :=
    funext fun reply => sending?_signed t ps reply
  refine ⟨?_, fun x hx hnone => ?_⟩
  · rw [sendings, List.filterMap_append, List.filterMap_map, hmap, List.filterMap_eq_map]
    exact congrArg (· ++ replies.map (Sending.mk ps t.csrf)) h.sendings_eq
  · rcases List.mem_append.1 hx with hx | hx
    · exact h.other x hx hnone
    · obtain ⟨reply, -, rfl⟩ := List.mem_map.1 hx
      simp [sending?_signed] at hnone

theorem isPutOff_of_putsOff {ps : Parameters} {reply : Except Error Json}
    (h : putsOff (.post ps) reply = true) : IsPutOff reply := by
  cases reply with
  | error e => simp [putsOff] at h
  | ok body =>
    simp only [putsOff, ApiError.isTransient] at h
    split at h
    · next e he => exact ⟨e, he, h⟩
    · simp at h

theorem sendAgain_records (r : Request) (left attempt : Nat) (trace : List Exchange) :
    (sendAgain r left attempt).Ensures World.recording trace fun answer later =>
      (∀ entity code info, answer ≠ .error (.remoteWrite entity code info)) ∧
      ∃ before, later = trace ++ (before ++ [answer]).map (Exchange.mk r) ∧ before.length ≤ left ∧
        ∀ reply ∈ before, putsOff r reply = true := by
  induction left generalizing attempt trace with
  | zero =>
    rintro answer later ⟨hfair, rfl⟩
    exact ⟨hfair, [], rfl, Nat.le_refl 0, by simp⟩
  | succ left ih =>
    rw [sendAgain, Dialogue.ensures_bind]
    rintro answer later ⟨hfair, rfl⟩
    by_cases hoff : putsOff r answer = true
    · simp only [Dialogue.Ensures, hoff, if_true, Dialogue.ensures_bind]
      rintro _ _ rfl
      refine (ih (attempt + 1) _).mono fun last later h => ?_
      obtain ⟨hfair', before, rfl, hlen, hbefore⟩ := h
      refine ⟨hfair', answer :: before, by simp, Nat.succ_le_succ hlen, fun reply hr => ?_⟩
      rcases List.mem_cons.1 hr with rfl | hr
      · exact hoff
      · exact hbefore reply hr
    · simp only [Dialogue.Ensures, hoff]
      exact ⟨hfair, [], rfl, Nat.zero_le _, by simp⟩

theorem writeWith_records (c : Client) (hc : 0 < c.attempts) (t : Token) (ps : Parameters) (s : Session)
    {trace : List Exchange} {xs : List Sending} (htrace : Records trace xs) :
    (c.writeWith t ps).Ensures World.recording s trace fun r _ later =>
      ∃ replies, Records later (xs ++ replies.map (Sending.mk ps t.csrf)) ∧
        Attempts c.attempts replies ∧
        ∀ e, r = .error e → e.isExpiry = true → ∃ reply ∈ replies.getLast?, IsExpired reply := by
  rw [writeWith, Action.ensures_bind, request, Action.ensures_ofDialogue]
  refine (sendAgain_records (.post (signed t ps)) _ 0 trace).mono fun answer later h => ?_
  obtain ⟨hfair, before, rfl, hlen, hoff⟩ := h
  have hattempts : Attempts c.attempts (before ++ [answer]) := by
    refine ⟨by simp; omega, fun reply hr => ?_⟩
    rw [List.dropLast_concat] at hr
    exact isPutOff_of_putsOff (hoff reply hr)
  have hlast : (before ++ [answer]).getLast? = some answer := by simp
  cases answer with
  | error e =>
    refine ⟨before ++ [.error e], htrace.signed t ps _, hattempts, fun e' he hexp => ?_⟩
    obtain rfl := Except.error.inj he
    cases e with
    | remoteWrite entity code info => exact absurd rfl (hfair entity code info)
    | _ => simp [Error.isExpiry] at hexp
  | ok body =>
    dsimp only
    cases he : ApiError.ofJson? body with
    | none => exact ⟨before ++ [.ok body], htrace.signed t ps _, hattempts, by simp⟩
    | some e =>
      refine ⟨before ++ [.ok body], htrace.signed t ps _, hattempts, fun e' he' hexp => ?_⟩
      obtain rfl := Except.error.inj he'
      exact ⟨.ok body, hlast, e, he, hexp⟩

theorem undisturbed_records (xs : List Sending) :
    Undisturbed World.recording fun trace => Records trace xs where
  clock := by
    rintro trace now later h rfl
    exact h
  session := by
    rintro r hr trace answer later h ⟨_, rfl⟩
    refine ⟨?_, fun x hx hnone => ?_⟩
    · rw [sendings, List.filterMap_append, List.filterMap_cons, sending?_opensSession hr, List.filterMap_nil,
        List.append_nil]
      exact h.sendings_eq
    · rcases List.mem_append.1 hx with hx | hx
      · exact h.other x hx hnone
      · obtain rfl := List.mem_singleton.1 hx
        exact hr

def WriteAttempts (bound : Nat) (ps : Parameters) (xs : List Sending) : Prop :=
  ∃ (t u : Token) (first second : List (Except Error Json)),
    xs = first.map (Sending.mk ps t.csrf) ++ second.map (Sending.mk ps u.csrf) ∧
    Attempts bound first ∧ Attempts bound second ∧
    (second ≠ [] → ∃ reply ∈ first.getLast?, IsExpired reply)

theorem attempts_nil (bound : Nat) : Attempts bound [] :=
  ⟨Nat.zero_le _, by simp⟩

theorem writeAttempts_of_first {bound : Nat} {ps : Parameters} {t : Token} {replies : List (Except Error Json)}
    (h : Attempts bound replies) : WriteAttempts bound ps (replies.map (Sending.mk ps t.csrf)) :=
  ⟨t, t, replies, [], by simp, h, attempts_nil bound, by simp⟩

def WriteTrace (bound : Nat) (ps : Parameters) (trace : List Exchange) : Prop :=
  ∃ xs, Records trace xs ∧ WriteAttempts bound ps xs

theorem writeAnew_records (c : Client) (hc : 0 < c.attempts) (t : Token) (ps : Parameters) (s : Session)
    {trace : List Exchange} {first : List (Except Error Json)}
    (htrace : Records trace (first.map (Sending.mk ps t.csrf))) (hfirst : Attempts c.attempts first)
    (hexpired : ∃ reply ∈ first.getLast?, IsExpired reply) :
    (c.writeAnew t ps).Ensures World.recording s trace fun _ _ later => WriteTrace c.attempts ps later := by
  refine (keeps_refresh (undisturbed_records _) c t s trace htrace).bind (fun u s' later hlater => ?_)
    fun e s' later hlater => ⟨_, hlater, writeAttempts_of_first hfirst⟩
  rw [Action.ensures_bind, Action.ensures_outcome]
  refine (writeWith_records c hc u ps s' hlater).mono fun r s'' last hlast => ?_
  obtain ⟨second, hsecond, hattempts, -⟩ := hlast
  have hall : WriteTrace c.attempts ps last :=
    ⟨_, hsecond, t, u, first, second, rfl, hfirst, hattempts, fun _ => hexpired⟩
  cases r with
  | ok body => exact hall
  | error e => by_cases he : e.isExpiry = true <;> simp only [he] <;> exact hall

theorem write_records (c : Client) (hc : 0 < c.attempts) (ps : Parameters) (s : Session) :
    (c.write ps).Ensures World.recording s [] fun _ _ trace => WriteTrace c.attempts ps trace := by
  have hnil : Records [] [] := ⟨rfl, by simp⟩
  refine (keeps_ensureAuthenticated (undisturbed_records []) c s [] hnil).bind (fun t s' trace htrace => ?_)
    fun e s' trace htrace => ⟨[], htrace, writeAttempts_of_first (t := ⟨"", "", 0, 0, 0⟩) (attempts_nil _)⟩
  rw [Action.ensures_bind, Action.ensures_outcome]
  refine (writeWith_records c hc t ps s' htrace).mono fun r s'' later hlater => ?_
  obtain ⟨first, hfirst, hattempts, hexpired⟩ := hlater
  have hall : WriteTrace c.attempts ps later := ⟨_, hfirst, writeAttempts_of_first hattempts⟩
  cases r with
  | ok body => exact hall
  | error e =>
    by_cases he : e.isExpiry = true
    · simp only [he, if_true]
      exact writeAnew_records c hc t ps s'' hfirst hattempts (hexpired e rfl he)
    · simp only [he]
      exact hall

theorem Attempts.turnedDown {n : Nat} {replies : List (Except Error Json)} (h : Attempts n replies)
    {reply : Except Error Json} (hr : reply ∈ replies.dropLast) : turnedDown? reply ≠ none := by
  obtain ⟨e, he, -⟩ := h.putOff reply hr
  simp [he]

theorem WriteAttempts.turnedDown {bound : Nat} {ps : Parameters} {xs : List Sending}
    (h : WriteAttempts bound ps xs) {x : Sending} (hx : x ∈ xs.dropLast) : turnedDown? x.reply ≠ none := by
  obtain ⟨t, u, first, second, rfl, hfirst, hsecond, hexpired⟩ := h
  by_cases hnil : second = []
  · subst hnil
    rw [List.map_nil, List.append_nil, ← List.map_dropLast] at hx
    obtain ⟨reply, hr, rfl⟩ := List.mem_map.1 hx
    exact hfirst.turnedDown hr
  · rw [List.dropLast_append_of_ne_nil (by simpa using hnil), ← List.map_dropLast] at hx
    rcases List.mem_append.1 hx with hx | hx
    · obtain ⟨reply, hr, rfl⟩ := List.mem_map.1 hx
      obtain ⟨last, hlast, e, he, -⟩ := hexpired hnil
      obtain ⟨before, rfl⟩ := List.getLast?_eq_some_iff.1 hlast
      rcases List.mem_append.1 hr with hr | hr
      · exact hfirst.turnedDown (by simpa using hr)
      · obtain rfl := List.mem_singleton.1 hr
        simp [he]
    · obtain ⟨reply, hr, rfl⟩ := List.mem_map.1 hx
      exact hsecond.turnedDown hr

theorem count_true_le_one {α : Type} {p : α → Prop} {xs : List α} {marks : List Bool}
    (hmarks : List.Forall₂ (fun x mark => mark = true → p x) xs marks) (h : ∀ x ∈ xs.dropLast, ¬ p x) :
    marks.count true ≤ 1 := by
  induction hmarks with
  | nil => simp
  | @cons x mark xs marks hx hrest ih =>
    cases xs with
    | nil =>
      cases hrest
      cases mark <;> simp
    | cons y ys =>
      have hmark : mark = false := by
        cases mark
        · rfl
        · exact absurd (hx rfl) (h x (by simp))
      subst hmark
      simpa using ih fun z hz => h z (by simp [hz])

/--
One write sends its edit, and nothing else that could be an edit. It sends it again only after the store has
turned it down: with the same token if it was put off, less than `maxRetries` times so, and with a second
token only after the first has expired. So if the store applies only what it does not turn down, it applies
the edit once at most.
-/
theorem write_applied_once (settings : Settings) (ps : Parameters) (s : Session) :
    ((ofSettings settings).write ps).Ensures World.recording s [] fun _ _ trace =>
      ∃ xs, Records trace xs ∧ WriteAttempts (max 1 settings.maxRetries.toNat) ps xs ∧
        xs.length ≤ 2 * max 1 settings.maxRetries.toNat ∧
        (∀ x ∈ xs.dropLast, turnedDown? x.reply ≠ none) ∧
        ∀ applied : List Bool,
          List.Forall₂ (fun x mark => mark = true → turnedDown? x.reply = none) xs applied →
            applied.count true ≤ 1 := by
  have hpos : 0 < (ofSettings settings).attempts := Nat.lt_of_lt_of_le Nat.one_pos (Nat.le_max_left 1 _)
  refine (write_records (ofSettings settings) hpos ps s).mono fun _ _ trace htrace => ?_
  obtain ⟨xs, hrecords, hxs⟩ := htrace
  have hlength : xs.length ≤ 2 * (ofSettings settings).attempts := by
    obtain ⟨t, u, first, second, rfl, hfirst, hsecond, -⟩ := hxs
    have h1 := hfirst.length_le
    have h2 := hsecond.length_le
    rw [List.length_append, List.length_map, List.length_map]
    omega
  refine ⟨xs, hrecords, hxs, hlength, fun x hx => hxs.turnedDown hx, fun applied happlied => ?_⟩
  exact count_true_le_one happlied fun x hx hnone => hxs.turnedDown hx hnone

end ClaimTables.Client
