import ClaimTables.Proofs.Exchange.Sends

/-!
With which errors an action can fail, if requests fail with some errors only. Like the requests that it sends, that is
read off the dialogue, with no world in between.
-/

namespace ClaimTables

def FailsAs {α : Type} (E : Error → Prop) (r : Except Error α) : Prop :=
  ∀ e, r = .error e → E e

section FailsAs

variable {α β : Type} {E : Error → Prop}

theorem failsAs_ok (a : α) : FailsAs E (.ok a : Except Error α) := nofun

theorem failsAs_error {e : Error} (h : E e) : FailsAs E (.error e : Except Error α) := by
  rintro _ ⟨⟩
  exact h

theorem FailsAs.bind {r : Except Error α} {f : α → Except Error β} (hr : FailsAs E r) (hf : ∀ a, FailsAs E (f a)) :
    FailsAs E (r >>= f) := by
  cases r with
  | ok a => exact hf a
  | error e => exact failsAs_error (hr e rfl)

theorem FailsAs.map {r : Except Error α} (hr : FailsAs E r) (f : α → β) : FailsAs E (r.map f) := by
  cases r with
  | ok a => exact failsAs_ok _
  | error e => exact failsAs_error (hr e rfl)

theorem FailsAs.mapM_mem {f : α → Except Error β} {as : List α} (hf : ∀ a ∈ as, FailsAs E (f a)) :
    FailsAs E (as.mapM f) := by
  induction as with
  | nil => exact failsAs_ok []
  | cons a rest ih =>
    rw [List.forall_mem_cons] at hf
    rw [List.mapM_cons]
    exact hf.1.bind fun b => (ih hf.2).bind fun bs => failsAs_ok _

theorem FailsAs.mapM {f : α → Except Error β} (hf : ∀ a, FailsAs E (f a)) (as : List α) : FailsAs E (as.mapM f) :=
  .mapM_mem fun a _ => hf a

end FailsAs

def Effect.Admits (E : Error → Prop) : (e : Effect) → e.Answer → Prop
  | .send _, answer => FailsAs E answer
  | _, _ => True

namespace Dialogue

variable {α β : Type} {E : Error → Prop} {P : α → Prop}

def Yields (E : Error → Prop) (post : α → Prop) : Dialogue α → Prop
  | .done a => post a
  | .perform e next => ∀ answer, e.Admits E answer → (next answer).Yields E post

theorem Yields.bind {d : Dialogue α} {f : α → Dialogue β} {R : β → Prop} (hd : d.Yields E P)
    (hf : ∀ a, P a → (f a).Yields E R) : (d >>= f).Yields E R := by
  induction d with
  | done a => exact hf a hd
  | perform e next ih => exact fun answer hadmits => ih answer (hd answer hadmits)

theorem Yields.ensures {d : Dialogue α} (h : d.Yields E P) (trace : List Exchange) :
    d.Ensures World.noting trace fun a later => ∃ more, later = trace ++ more ∧
      ((∀ x ∈ more, FailsAs E x.reply) → P a) := by
  -- An answer that is not admitted is among the notes in the end, so nothing has to hold after it.
  induction d generalizing trace with
  | done a => exact ⟨[], by simp, fun _ => h⟩
  | perform e next ih =>
    intro answer later hlater
    cases e with
    | send r =>
      obtain rfl := hlater
      by_cases hadmits : FailsAs E answer
      · refine (ih answer (h answer hadmits) _).mono ?_
        rintro a _ ⟨more, rfl, hmore⟩
        refine ⟨⟨r, answer⟩ :: more, by simp, fun hall => hmore fun x hx => hall x (by simp [hx])⟩
      · refine (ensures_extends _ _).mono ?_
        rintro a _ ⟨more, rfl⟩
        refine ⟨⟨r, answer⟩ :: more, by simp, fun hall => absurd (hall ⟨r, answer⟩ (by simp)) hadmits⟩
    | wait _ | clock | freshName =>
      obtain rfl := hlater
      exact ih answer (h answer trivial) _

end Dialogue

namespace Client.Action

variable {α β : Type} {E : Error → Prop} {x : Action α} {f : α → Action β}

def Fails (E : Error → Prop) (x : Action α) : Prop :=
  ∀ s, Dialogue.Yields E (fun r => FailsAs E r.1) (x.run.run s)

theorem Fails.bind (hx : x.Fails E) (hf : ∀ a, (f a).Fails E) : Fails E (x >>= f) := by
  intro s
  refine Dialogue.Yields.bind (hx s) fun r hr => ?_
  obtain ⟨r, s'⟩ := r
  cases r with
  | ok a => exact hf a s'
  | error e => exact failsAs_error (hr e rfl)

theorem Fails.outcome_bind {f : Except Error α → Action β} (hx : x.Fails E) (hok : ∀ a, (f (.ok a)).Fails E)
    (herror : ∀ e, E e → (f (.error e)).Fails E) : Fails E (x.outcome >>= f) := by
  intro s
  have houtcome : Dialogue.Yields E (fun r => ∃ r', r.1 = .ok r' ∧ FailsAs E r') (x.outcome.run.run s) :=
    Dialogue.Yields.bind (hx s) fun r hr => ⟨r.1, rfl, hr⟩
  refine Dialogue.Yields.bind houtcome ?_
  rintro ⟨_, s'⟩ ⟨r, rfl, hr⟩
  cases r with
  | ok a => exact hok a s'
  | error e => exact herror e (hr e rfl) s'

theorem fails_pure (a : α) : Fails E (pure a) := fun _ => failsAs_ok a

theorem fails_throw {e : Error} (h : E e) : Fails E (throw e : Action α) := fun _ => failsAs_error h

theorem fails_liftExcept {r : Except Error α} (h : FailsAs E r) : Fails E (liftExcept r) := by
  cases r with
  | ok a => exact fails_pure a
  | error e => exact fails_throw (h e rfl)

theorem fails_check {c : Prop} [Decidable c] {e : Error} (he : E e) (hx : x.Fails E) :
    Fails E (if c then (throw e : Action PUnit) >>= fun _ => x else x) := by
  split
  · exact (fails_throw he).bind fun _ => hx
  · exact hx

theorem fails_get : Fails E (get : Action Session) := fun _ => failsAs_ok _

theorem fails_set (s : Session) : Fails E (set s : Action PUnit) := fun _ => failsAs_ok _

theorem fails_modify (g : Session → Session) : Fails E (modify g : Action PUnit) := fun _ => failsAs_ok _

theorem fails_ofDialogue {d : Dialogue (Except Error α)} (h : d.Yields E (FailsAs E)) : Fails E (ofDialogue d) :=
  fun _ => Dialogue.Yields.bind h fun _ hr => hr

theorem fails_send (r : Request) : Fails E (send r) := fun _ _ hadmits => hadmits

theorem fails_clock : Fails E clock := fun _ _ _ => failsAs_ok _

end Client.Action

namespace Tables.Action

variable {α β : Type} {E : Error → Prop} {x : Action α} {f : α → Action β}

def Fails (E : Error → Prop) (x : Action α) : Prop :=
  ∀ m s, Dialogue.Yields E (fun r => FailsAs E r.1.1) ((x.run.run m).run s)

theorem Fails.bind (hx : x.Fails E) (hf : ∀ a, (f a).Fails E) : Fails E (x >>= f) := by
  intro m s
  refine Dialogue.Yields.bind (hx m s) fun r hr => ?_
  obtain ⟨⟨r, m'⟩, s'⟩ := r
  cases r with
  | ok a => exact hf a m' s'
  | error e => exact failsAs_error (hr e rfl)

theorem fails_pure (a : α) : Fails E (pure a) := fun _ _ => failsAs_ok a

theorem fails_throw {e : Error} (h : E e) : Fails E (throw e : Action α) := fun _ _ => failsAs_error h

theorem fails_check {c : Prop} [Decidable c] {e : Error} (he : E e) (hx : x.Fails E) :
    Fails E (if c then (throw e : Action PUnit) >>= fun _ => x else x) := by
  split
  · exact (fails_throw he).bind fun _ => hx
  · exact hx

theorem fails_mappings : Fails E mappings := fun _ _ => failsAs_ok _

theorem fails_update (g : Mappings → Mappings) : Fails E (update g) := fun _ _ => failsAs_ok _

theorem fails_ofClient {y : Client.Action α} (h : y.Fails E) : Fails E (ofClient y) :=
  fun _ s => Dialogue.Yields.bind (h s) fun _ hr => hr

theorem Fails.ensures (h : x.Fails E) (m : Mappings) (s : Session) (trace : List Exchange) :
    x.Ensures World.noting m s trace fun r _ _ later => ∃ more, later = trace ++ more ∧
      ((∀ x ∈ more, FailsAs E x.reply) → FailsAs E r) :=
  Dialogue.Yields.ensures (h m s) trace

end Tables.Action

end ClaimTables
