import ClaimTables.Proofs.Client.AppliedOnce

/-!
How often a request is sent, and which of its replies counts. Main statement: if the first `k` replies ask for the request
again and the next does not, it is sent `k + 1` times within the client's bound, and the last of these replies is taken.
-/

namespace ClaimTables

/-- The world that has replies to every request in store, and gives them out in turn. It notes what was exchanged. -/
def World.replying (replies : (r : Request) → ℕ → Except Error r.Reply) : World (List Exchange)
  | trace, .send r, answer, later => answer = replies r trace.length ∧ later = trace ++ [⟨r, answer⟩]
  | trace, .wait _, _, later => later = trace
  | trace, .clock, _, later => later = trace
  | trace, .freshName, _, later => later = trace

namespace Client

open Client.Action

def AsksAgain : (r : Request) → Except Error r.Reply → Prop
  | .get _, reply => IsPutOff reply ∨ ∃ e, reply = .error e ∧ e.isRetryable = true
  | .post _, reply => IsPutOff reply
  | .query _, reply => ∃ e, reply = .error e ∧ e.isRetryable = true

theorem isTransient_iff (body : Json) : ApiError.isTransient body = true ↔ IsPutOff (.ok body) := by
  rw [ApiError.isTransient, IsPutOff, turnedDown?]
  cases ApiError.ofJson? body <;> simp

theorem putsOff_iff (r : Request) (reply : Except Error r.Reply) : putsOff r reply = true ↔ AsksAgain r reply := by
  have herror (e : Error) : ¬IsPutOff (.error e) := by simp [IsPutOff, turnedDown?]
  cases r with
  | get ps =>
    cases reply with
    | error e => simp [putsOff, AsksAgain, herror]
    | ok body => simp [putsOff, AsksAgain, isTransient_iff]
  | post ps =>
    cases reply with
    | error e => simp [putsOff, AsksAgain, herror]
    | ok body => simp [putsOff, AsksAgain, isTransient_iff]
  | query text => cases reply <;> simp [putsOff, AsksAgain]

def exchanges (r : Request) (replies : ℕ → Except Error r.Reply) (calls : ℕ) : List Exchange :=
  (List.range calls).map fun n => ⟨r, replies n⟩

theorem exchanges_succ (r : Request) (replies : ℕ → Except Error r.Reply) (calls : ℕ) :
    exchanges r replies (calls + 1) = ⟨r, replies 0⟩ :: exchanges r (fun n => replies (n + 1)) calls := by
  rw [exchanges, List.range_succ_eq_map, List.map_cons, List.map_map]
  rfl

/-- That a request was sent so often, at most up to a bound, because only the replies before the last ask for it again. -/
structure Answered (bound : ℕ) (r : Request) (replies : ℕ → Except Error r.Reply) (calls : ℕ)
    (trace : List Exchange) (answer : Except Error r.Reply) : Prop where
  trace_eq : trace = exchanges r replies calls
  answer_eq : answer = replies (calls - 1)
  settled : ∀ k, (∀ n < k, AsksAgain r (replies n)) → ¬AsksAgain r (replies k) → calls = min bound (k + 1)
  unsettled : (∀ n, AsksAgain r (replies n)) → calls = bound

section Sending

variable {replies : (r : Request) → ℕ → Except Error r.Reply} {r : Request} {trace : List Exchange} {s : Session}

theorem sendAgain_replying (left attempt : ℕ) :
    (sendAgain r left attempt).Ensures (.replying replies) trace fun answer later =>
      ∃ n ≤ left, (∀ i < n, AsksAgain r (replies r (trace.length + i))) ∧
        (n < left → ¬AsksAgain r (replies r (trace.length + n))) ∧
        later = trace ++ exchanges r (fun i => replies r (trace.length + i)) (n + 1) ∧
        answer = replies r (trace.length + n) := by
  induction left generalizing attempt trace with
  | zero =>
    rintro answer later ⟨rfl, rfl⟩
    exact ⟨0, Nat.le_refl 0, by simp, by simp, rfl, rfl⟩
  | succ left ih =>
    rw [sendAgain, Dialogue.ensures_bind]
    rintro answer later ⟨hanswer, rfl⟩
    by_cases hoff : putsOff r answer = true
    · simp only [Dialogue.Ensures, hoff, if_true, Dialogue.ensures_bind]
      rintro _ _ rfl
      refine (ih (attempt + 1)).mono ?_
      rintro last later ⟨n, hn, hagain, hsettled, rfl, rfl⟩
      -- Counted from what has been sent now, the sendings that follow are one further on.
      have hshift (i : ℕ) : (trace ++ [Exchange.mk r answer]).length + i = trace.length + (i + 1) := by
        rw [List.length_append, List.length_singleton]
        omega
      simp only [hshift] at hagain hsettled ⊢
      refine ⟨n + 1, Nat.succ_le_succ hn, fun i hi => ?_, fun h => hsettled (Nat.lt_of_succ_lt_succ h), ?_, rfl⟩
      · cases i with
        | zero => exact (putsOff_iff r _).1 (hanswer ▸ hoff)
        | succ i => exact hagain i (Nat.lt_of_succ_lt_succ hi)
      · rw [exchanges_succ r _ (n + 1), hanswer, List.append_assoc]
        rfl
    · simp only [Dialogue.Ensures, hoff]
      refine ⟨0, Nat.zero_le _, by simp, fun _ hagain => hoff ?_, ?_, hanswer⟩
      · rw [hanswer]
        exact (putsOff_iff r _).2 hagain
      · rw [hanswer]
        rfl

theorem request_answered (c : Client) (hc : 0 < c.attempts) (r : Request) :
    (c.request r).Ensures (.replying replies) s [] fun answer s' trace =>
      s' = s ∧ ∃ calls, Answered c.attempts r (replies r) calls trace answer := by
  rw [request, ensures_ofDialogue]
  refine (sendAgain_replying _ 0).mono ?_
  rintro answer trace ⟨n, hn, hagain, hlast, rfl, rfl⟩
  simp only [List.length_nil, Nat.zero_add, List.nil_append] at hagain hlast ⊢
  refine ⟨trivial, n + 1, rfl, rfl, fun k hk hsettled => ?_, fun hall => ?_⟩
  · -- The first reply that does not ask again is the last one, unless the bound came first.
    have hle : n ≤ k := Nat.le_of_not_lt fun hlt => hsettled (hagain k hlt)
    rcases Nat.lt_or_ge n k with hlt | hge
    · have hbound : ¬n < c.attempts - 1 := fun h => hlast h (hk n hlt)
      omega
    · omega
  · have hbound : ¬n < c.attempts - 1 := fun h => hlast h (hall n)
    omega

end Sending

/-- What reading comes to by the reply that is taken: an error in it is the store's. -/
structure Reads (ps : Parameters) (answer result : Except Error Json) : Prop where
  failed : ∀ e, answer = .error e → result = .error e
  refused : ∀ body e, answer = .ok body → body.get? "error" = some e →
    result = .error (.api ps.action ((e.get "code").text?.getD "unknown") ((e.get "info").text?.getD ""))
  taken : ∀ body, answer = .ok body → body.get? "error" = none → result = .ok body

theorem read_answered (c : Client) (hc : 0 < c.attempts) {replies : (r : Request) → ℕ → Except Error r.Reply}
    (ps : Parameters) (s : Session) : (c.read ps).Ensures (.replying replies) s [] fun result s' trace => s' = s ∧
      ∃ calls answer, Answered c.attempts (.get ps) (replies (.get ps)) calls trace answer ∧ Reads ps answer result := by
  refine (request_answered c hc (.get ps)).bind ?_ ?_
  · rintro (body : Json) s' trace ⟨rfl, calls, hcalls⟩
    cases herror : body.get? "error" with
    | none =>
      have hnone : ApiError.ofJson? body = none := by rw [ApiError.ofJson?, herror]; rfl
      rw [hnone]
      refine ⟨rfl, calls, _, hcalls, by simp, ?_, ?_⟩
      · rintro _ e ⟨⟩ he
        cases herror.symm.trans he
      · rintro _ ⟨⟩ -
        rfl
    | some e =>
      have hsome : ApiError.ofJson? body =
          some ⟨(e.get "code").text?.getD "unknown", (e.get "info").text?.getD ""⟩ := by rw [ApiError.ofJson?, herror]; rfl
      rw [hsome]
      refine ⟨rfl, calls, _, hcalls, by simp, ?_, ?_⟩
      · rintro _ e' ⟨⟩ he
        obtain rfl := Option.some.inj (herror.symm.trans he)
        rfl
      · rintro _ ⟨⟩ hnone
        cases herror.symm.trans hnone
  · rintro e s' trace ⟨rfl, calls, hcalls⟩
    exact ⟨rfl, calls, _, hcalls, by simp, by simp, by simp⟩

/-! The sendings can be counted in 32 bits. -/

section Counting

def next? (n : UInt32) : Option UInt32 :=
  if n.toNat + 1 < UInt32.size then some (n + 1) else none

/--
Sends a request again while it is put off, counting the sendings before the one at hand in 32 bits. There is no answer if
that count overflows, or if so many sendings as are given do not suffice.
-/
def sendCounting (bound : UInt32) (r : Request) :
    (sendings : ℕ) → (attempt : UInt32) → Dialogue (Option (Except Error r.Reply))
  | 0, _ => pure none
  | sendings + 1, attempt => do
    let answer ← Dialogue.send r
    if putsOff r answer then
      match next? attempt with
      | none => pure none
      | some next =>
        if next < bound then do
          Dialogue.wait (pause attempt.toNat)
          sendCounting bound r sendings next
        else pure (some answer)
    else pure (some answer)

theorem toNat_max_one (n : UInt32) : (max 1 n).toNat = max 1 n.toNat := by
  have hmax : max 1 n = if 1 ≤ n then n else 1 := rfl
  rw [hmax]
  split
  · next h => exact (Nat.max_eq_right (UInt32.le_iff_toNat_le.1 h)).symm
  · next h => exact (Nat.max_eq_left (Nat.le_of_not_le (mt UInt32.le_iff_toNat_le.2 h))).symm

theorem next?_eq_some {n bound : UInt32} (h : n < bound) : next? n = some (n + 1) ∧ (n + 1).toNat = n.toNat + 1 := by
  have hlt := UInt32.lt_iff_toNat_lt.1 h
  have hbound := bound.toNat_lt_size
  have hnext : n.toNat + 1 < UInt32.size := by omega
  refine ⟨if_pos hnext, ?_⟩
  rw [UInt32.toNat_add]
  exact Nat.mod_eq_of_lt hnext

theorem sendCounting_eq {bound : UInt32} (r : Request) {sendings : ℕ} {attempt : UInt32} (hattempt : attempt < bound)
    (hsendings : bound.toNat ≤ attempt.toNat + sendings) : sendCounting bound r sendings attempt =
      some <$> sendAgain r (bound.toNat - attempt.toNat - 1) attempt.toNat := by
  induction sendings generalizing attempt with
  | zero =>
    have hlt := UInt32.lt_iff_toNat_lt.1 hattempt
    omega
  | succ sendings ih =>
    obtain ⟨hnext, hsucc⟩ := next?_eq_some hattempt
    have hlt := UInt32.lt_iff_toNat_lt.1 hattempt
    rw [sendCounting, hnext]
    -- Either the count may go on, or this is the last sending that the bound allows.
    by_cases hlast : attempt + 1 < bound
    · have hlater := UInt32.lt_iff_toNat_lt.1 hlast
      have hleft : bound.toNat - attempt.toNat - 1 = bound.toNat - (attempt + 1).toNat - 1 + 1 := by omega
      rw [hleft, sendAgain, map_bind]
      refine congrArg (Dialogue.send r >>= ·) (funext fun answer => ?_)
      dsimp only
      split
      · rw [map_bind, ih hlast (by omega), hsucc]
      · rfl
    · have hlater := mt UInt32.lt_iff_toNat_lt.2 hlast
      have hleft : bound.toNat - attempt.toNat - 1 = 0 := by omega
      rw [hleft, sendAgain]
      dsimp only
      rw [map_eq_pure_bind]
      refine congrArg (Dialogue.send r >>= ·) (funext fun answer => ?_)
      split <;> rfl

end Counting

/--
Bounded retry gives the right answer, for every setting and all replies in store. A query, and a request that reads, is sent
as often as its first replies ask for it again and once more, but `maxRetries` times at most and once at least; nothing else
is sent, and what counts is the last reply. Reading makes an error of it exactly if it is a document with an error object.
However large the setting, the sendings can be counted in 32 bits.
-/
theorem answered_within_bound (settings : Settings) (replies : (r : Request) → ℕ → Except Error r.Reply) (s : Session) :
    (∀ text, ((ofSettings settings).query text).Ensures (.replying replies) s [] fun answer s' trace => s' = s ∧
      ∃ calls, Answered (max 1 settings.maxRetries.toNat) (.query text) (replies (.query text)) calls trace answer) ∧
    (∀ ps, ((ofSettings settings).read ps).Ensures (.replying replies) s [] fun result s' trace => s' = s ∧
      ∃ calls answer, Answered (max 1 settings.maxRetries.toNat) (.get ps) (replies (.get ps)) calls trace answer ∧
        Reads ps answer result) ∧
    ∀ r more, ∃ d, (ofSettings settings).request r = ofDialogue d ∧
      sendCounting (max 1 settings.maxRetries) r (max 1 settings.maxRetries.toNat + more) 0 = some <$> d := by
  have hpos : 0 < (ofSettings settings).attempts := Nat.lt_of_lt_of_le Nat.one_pos (Nat.le_max_left 1 _)
  refine ⟨fun text => request_answered _ hpos _, fun ps => read_answered _ hpos ps s, fun r more => ⟨_, rfl, ?_⟩⟩
  have hbound := toNat_max_one settings.maxRetries
  have hone : (0 : UInt32) < max 1 settings.maxRetries := by
    rw [UInt32.lt_iff_toNat_lt, hbound]
    exact hpos
  rw [sendCounting_eq r hone (by simp [hbound]), hbound]
  rfl

end Client

end ClaimTables
