import ClaimTables.Tables.Basic

/-!
What a dialogue brings about, whatever it is answered. A world says which answers an effect may get in a
state and which states may follow; a dialogue ensures a condition if every way through it ends there.
-/

namespace ClaimTables

abbrev World (W : Type) := W → (e : Effect) → e.Answer → W → Prop

namespace Dialogue

variable {α β W : Type} {world : World W} {w : W}

/-- However the world answers, the dialogue ends with a result and in a state that satisfy `post`. -/
def Ensures (world : World W) : Dialogue α → W → (α → W → Prop) → Prop
  | .done a, w, post => post a w
  | .perform e next, w, post => ∀ answer w', world w e answer w' → Ensures world (next answer) w' post

theorem Ensures.mono {d : Dialogue α} {P Q : α → W → Prop} (h : d.Ensures world w P)
    (hpost : ∀ a w', P a w' → Q a w') : d.Ensures world w Q := by
  induction d generalizing w with
  | done a => exact hpost a w h
  | perform e next ih => exact fun answer w' hw => ih answer (h answer w' hw)

theorem Ensures.and {d : Dialogue α} {P Q : α → W → Prop} (hP : d.Ensures world w P) (hQ : d.Ensures world w Q) :
    d.Ensures world w fun a w' => P a w' ∧ Q a w' := by
  induction d generalizing w with
  | done a => exact ⟨hP, hQ⟩
  | perform e next ih => exact fun answer w' hw => ih answer (hP answer w' hw) (hQ answer w' hw)

theorem Ensures.congr {d : Dialogue α} {P Q Q' : α → W → Prop} (h : d.Ensures world w P)
    (hiff : ∀ a w', P a w' → (Q a w' ↔ Q' a w')) : d.Ensures world w Q ↔ d.Ensures world w Q' := by
  constructor
  · exact fun hQ => (h.and hQ).mono fun a w' h' => (hiff a w' h'.1).1 h'.2
  · exact fun hQ => (h.and hQ).mono fun a w' h' => (hiff a w' h'.1).2 h'.2

theorem Ensures.imp {d : Dialogue α} {P : Prop} {Q : α → W → Prop} (h : P → d.Ensures world w Q) :
    d.Ensures world w fun a w' => P → Q a w' := by
  induction d generalizing w with
  | done a => exact h
  | perform e next ih => exact fun answer w' hw => ih answer fun hP => h hP answer w' hw

theorem ensures_bind {d : Dialogue α} {f : α → Dialogue β} {post : β → W → Prop} :
    (d >>= f).Ensures world w post ↔ d.Ensures world w fun a w' => (f a).Ensures world w' post := by
  induction d generalizing w with
  | done a => exact Iff.rfl
  | perform e next ih =>
    rw [perform_bind]
    exact forall_congr' fun answer => forall_congr' fun w' => imp_congr Iff.rfl (ih answer)

theorem ensures_of_kept {d : Dialogue α} {I : W → Prop} (hw : I w)
    (hkept : ∀ v e answer v', I v → world v e answer v' → I v') : d.Ensures world w fun _ w' => I w' := by
  induction d generalizing w with
  | done a => exact hw
  | perform e next ih => exact fun answer w' hstep => ih answer (hkept w e answer w' hw hstep)

theorem ensures_true (d : Dialogue α) (w : W) : d.Ensures world w fun _ _ => True :=
  ensures_of_kept trivial fun _ _ _ _ _ _ => trivial

theorem Ensures.run {d : Dialogue α} {post : α → W → Prop} {handler : (e : Effect) → StateM W e.Answer}
    (h : d.Ensures world w post) (hworld : ∀ v e, world v e (handler e v).1 (handler e v).2) :
    post (d.run handler w).1 (d.run handler w).2 := by
  induction d generalizing w with
  | done a => exact h
  | perform e next ih => exact ih _ (h _ _ (hworld w e))

end Dialogue

namespace Client.Action

variable {α β W : Type} {world : World W} {s : Session} {w : W}

/-- The same of what a client does, which also has a session before and after. -/
def Ensures (world : World W) (x : Action α) (s : Session) (w : W)
    (post : Except Error α → Session → W → Prop) : Prop :=
  Dialogue.Ensures world (x.run.run s) w fun r w' => post r.1 r.2 w'

theorem Ensures.mono {x : Action α} {P Q : Except Error α → Session → W → Prop}
    (h : x.Ensures world s w P) (hpost : ∀ r s' w', P r s' w' → Q r s' w') : x.Ensures world s w Q :=
  Dialogue.Ensures.mono h fun r w' => hpost r.1 r.2 w'

theorem Ensures.and {x : Action α} {P Q : Except Error α → Session → W → Prop} (hP : x.Ensures world s w P)
    (hQ : x.Ensures world s w Q) : x.Ensures world s w fun r s' w' => P r s' w' ∧ Q r s' w' :=
  Dialogue.Ensures.and hP hQ

theorem Ensures.congr {x : Action α} {P Q Q' : Except Error α → Session → W → Prop} (h : x.Ensures world s w P)
    (hiff : ∀ r s' w', P r s' w' → (Q r s' w' ↔ Q' r s' w')) : x.Ensures world s w Q ↔ x.Ensures world s w Q' :=
  Dialogue.Ensures.congr h fun r w' => hiff r.1 r.2 w'

theorem Ensures.imp {x : Action α} {P : Prop} {Q : Except Error α → Session → W → Prop}
    (h : P → x.Ensures world s w Q) : x.Ensures world s w fun r s' w' => P → Q r s' w' :=
  Dialogue.Ensures.imp h

theorem ensures_bind {x : Action α} {f : α → Action β} {post : Except Error β → Session → W → Prop} :
    Ensures world (x >>= f) s w post ↔ x.Ensures world s w fun r s' w' =>
      match r with
      | .ok a => (f a).Ensures world s' w' post
      | .error e => post (.error e) s' w' := by
  refine Dialogue.ensures_bind.trans (iff_of_eq ?_)
  refine congrArg (Dialogue.Ensures world _ w) (funext fun r => funext fun w' => ?_)
  obtain ⟨r, s'⟩ := r
  cases r <;> rfl

theorem Ensures.bind {x : Action α} {f : α → Action β} {mid : Except Error α → Session → W → Prop}
    {post : Except Error β → Session → W → Prop} (hx : x.Ensures world s w mid)
    (hok : ∀ a s' w', mid (.ok a) s' w' → (f a).Ensures world s' w' post)
    (herror : ∀ e s' w', mid (.error e) s' w' → post (.error e) s' w') :
    Ensures world (x >>= f) s w post := by
  rw [ensures_bind]
  refine hx.mono fun r s' w' hr => ?_
  cases r with
  | ok a => exact hok a s' w' hr
  | error e => exact herror e s' w' hr

theorem ensures_pure {a : α} {post : Except Error α → Session → W → Prop} :
    Ensures world (pure a) s w post ↔ post (.ok a) s w := Iff.rfl

theorem ensures_throw {e : Error} {post : Except Error α → Session → W → Prop} :
    Ensures world (throw e) s w post ↔ post (.error e) s w := Iff.rfl

theorem ensures_check {c : Prop} [Decidable c] {e : Error} {x : Action α}
    {post : Except Error α → Session → W → Prop} (hfails : c → post (.error e) s w)
    (hpasses : ¬c → x.Ensures world s w post) :
    Ensures world (if c then (throw e : Action PUnit) >>= fun _ => x else x) s w post := by
  split
  · next hc => exact ensures_bind.2 (hfails hc)
  · next hc => exact hpasses hc

theorem ensures_liftExcept {r : Except Error α} {post : Except Error α → Session → W → Prop} :
    Ensures world (liftExcept r) s w post ↔ post r s w := by
  cases r <;> exact Iff.rfl

theorem ensures_ofDialogue {d : Dialogue (Except Error α)} {post : Except Error α → Session → W → Prop} :
    Ensures world (ofDialogue d) s w post ↔ d.Ensures world w fun r w' => post r s w' := by
  have hrun : (ofDialogue d).run.run s = d >>= fun r => pure (r, s) := rfl
  rw [Ensures, hrun, Dialogue.ensures_bind]
  exact Iff.rfl

theorem ensures_send {r : Request} {post : Except Error r.Reply → Session → W → Prop} :
    Ensures world (send r) s w post ↔ ∀ answer w', world w (.send r) answer w' → post answer s w' := Iff.rfl

theorem ensures_clock {post : Except Error Int → Session → W → Prop} :
    Ensures world clock s w post ↔ ∀ now w', world w .clock now w' → post (.ok now) s w' := Iff.rfl

theorem ensures_outcome {x : Action α} {post : Except Error (Except Error α) → Session → W → Prop} :
    Ensures world x.outcome s w post ↔ x.Ensures world s w fun r s' w' => post (.ok r) s' w' := by
  have hrun : x.outcome.run.run s = x.run.run s >>= fun r => pure (.ok r.1, r.2) := rfl
  rw [Ensures, hrun, Dialogue.ensures_bind]
  exact Iff.rfl

end Client.Action

namespace Tables.Action

variable {α β W : Type} {world : World W} {m : Mappings} {s : Session} {w : W}

def Ensures (world : World W) (x : Action α) (m : Mappings) (s : Session) (w : W)
    (post : Except Error α → Mappings → Session → W → Prop) : Prop :=
  Dialogue.Ensures world ((x.run.run m).run s) w fun r w' => post r.1.1 r.1.2 r.2 w'

theorem Ensures.mono {x : Action α} {P Q : Except Error α → Mappings → Session → W → Prop}
    (h : x.Ensures world m s w P) (hpost : ∀ r m' s' w', P r m' s' w' → Q r m' s' w') :
    x.Ensures world m s w Q :=
  Dialogue.Ensures.mono h fun r w' => hpost r.1.1 r.1.2 r.2 w'

theorem Ensures.and {x : Action α} {P Q : Except Error α → Mappings → Session → W → Prop}
    (hP : x.Ensures world m s w P) (hQ : x.Ensures world m s w Q) :
    x.Ensures world m s w fun r m' s' w' => P r m' s' w' ∧ Q r m' s' w' :=
  Dialogue.Ensures.and hP hQ

theorem Ensures.congr {x : Action α} {P Q Q' : Except Error α → Mappings → Session → W → Prop}
    (h : x.Ensures world m s w P) (hiff : ∀ r m' s' w', P r m' s' w' → (Q r m' s' w' ↔ Q' r m' s' w')) :
    x.Ensures world m s w Q ↔ x.Ensures world m s w Q' :=
  Dialogue.Ensures.congr h fun r w' => hiff r.1.1 r.1.2 r.2 w'

theorem Ensures.imp {x : Action α} {P : Prop} {Q : Except Error α → Mappings → Session → W → Prop}
    (h : P → x.Ensures world m s w Q) : x.Ensures world m s w fun r m' s' w' => P → Q r m' s' w' :=
  Dialogue.Ensures.imp h

theorem ensures_bind {x : Action α} {f : α → Action β}
    {post : Except Error β → Mappings → Session → W → Prop} :
    Ensures world (x >>= f) m s w post ↔ x.Ensures world m s w fun r m' s' w' =>
      match r with
      | .ok a => (f a).Ensures world m' s' w' post
      | .error e => post (.error e) m' s' w' := by
  refine Dialogue.ensures_bind.trans (iff_of_eq ?_)
  refine congrArg (Dialogue.Ensures world _ w) (funext fun r => funext fun w' => ?_)
  obtain ⟨⟨r, m'⟩, s'⟩ := r
  cases r <;> rfl

theorem Ensures.bind {x : Action α} {f : α → Action β} {mid : Except Error α → Mappings → Session → W → Prop}
    {post : Except Error β → Mappings → Session → W → Prop} (hx : x.Ensures world m s w mid)
    (hok : ∀ a m' s' w', mid (.ok a) m' s' w' → (f a).Ensures world m' s' w' post)
    (herror : ∀ e m' s' w', mid (.error e) m' s' w' → post (.error e) m' s' w') :
    Ensures world (x >>= f) m s w post := by
  rw [ensures_bind]
  refine hx.mono fun r m' s' w' hr => ?_
  cases r with
  | ok a => exact hok a m' s' w' hr
  | error e => exact herror e m' s' w' hr

theorem ensures_check {c : Prop} [Decidable c] {e : Error} {x : Action α}
    {post : Except Error α → Mappings → Session → W → Prop} (hfails : c → post (.error e) m s w)
    (hpasses : ¬c → x.Ensures world m s w post) :
    Ensures world (if c then (throw e : Action PUnit) >>= fun _ => x else x) m s w post := by
  split
  · next hc => exact ensures_bind.2 (hfails hc)
  · next hc => exact hpasses hc

theorem ensures_ofExcept {r : Except Error α} {post : Except Error α → Mappings → Session → W → Prop} :
    Ensures world (ofExcept r) m s w post ↔ post r m s w := by
  cases r <;> exact Iff.rfl

theorem ensures_mappings {post : Except Error Mappings → Mappings → Session → W → Prop} :
    Ensures world mappings m s w post ↔ post (.ok m) m s w := Iff.rfl

theorem ensures_update {f : Mappings → Mappings} {post : Except Error Unit → Mappings → Session → W → Prop} :
    Ensures world (update f) m s w post ↔ post (.ok ()) (f m) s w := Iff.rfl

theorem ensures_map {x : Action α} {f : α → β} {post : Except Error β → Mappings → Session → W → Prop} :
    Ensures world (f <$> x) m s w post ↔ x.Ensures world m s w fun r m' s' w' => post (r.map f) m' s' w' := by
  refine Dialogue.ensures_bind.trans (iff_of_eq ?_)
  refine congrArg (Dialogue.Ensures world _ w) (funext fun r => funext fun w' => ?_)
  obtain ⟨⟨r, m'⟩, s'⟩ := r
  cases r <;> rfl

theorem ensures_ofClient {x : Client.Action α} {post : Except Error α → Mappings → Session → W → Prop} :
    Ensures world (ofClient x) m s w post ↔ x.Ensures world s w fun r s' w' => post r m s' w' := by
  have hrun : ((ofClient x).run.run m).run s = x.run.run s >>= fun r => pure ((r.1, m), r.2) := rfl
  rw [Ensures, hrun, Dialogue.ensures_bind]
  exact Iff.rfl

theorem ensures_outcome {x : Action α}
    {post : Except Error (Except Error α) → Mappings → Session → W → Prop} :
    Ensures world x.outcome m s w post ↔ x.Ensures world m s w fun r m' s' w' => post (.ok r) m' s' w' := by
  have hrun : (x.outcome.run.run m).run s =
      (x.run.run m).run s >>= fun r => pure ((.ok r.1.1, r.1.2), r.2) := rfl
  rw [Ensures, hrun, Dialogue.ensures_bind]
  exact Iff.rfl

theorem ensures_freshName {post : Except Error String → Mappings → Session → W → Prop} :
    Ensures world freshName m s w post ↔
      ∀ name w', world w .freshName name w' → post (.ok name) m s w' := Iff.rfl

end Tables.Action

structure Exchange where
  request : Request
  reply : Except Error request.Reply

/--
The world that may answer anything, except that a request which fails on its way is never taken for an edit
that the store turned down. It notes what was exchanged.
-/
def World.recording : World (List Exchange)
  | trace, .send r, answer, later =>
    (∀ entity code info, answer ≠ .error (.remoteWrite entity code info)) ∧ later = trace ++ [⟨r, answer⟩]
  | trace, .wait _, _, later => later = trace
  | trace, .clock, _, later => later = trace
  | trace, .freshName, _, later => later = trace

end ClaimTables
