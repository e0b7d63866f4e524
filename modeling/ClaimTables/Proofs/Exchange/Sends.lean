import ClaimTables.Proofs.Exchange.Ensures

/-!
Which requests a dialogue can send. That is read off the dialogue itself, with no world in between; in the world
that may answer anything, whatever is noted was one of them.
-/

namespace ClaimTables

def Effect.Meets (P : Request → Prop) : Effect → Prop
  | .send r => P r
  | _ => True

def World.noting : World (List Exchange)
  | trace, .send r, answer, later => later = trace ++ [⟨r, answer⟩]
  | trace, .wait _, _, later => later = trace
  | trace, .clock, _, later => later = trace
  | trace, .freshName, _, later => later = trace

namespace Dialogue

variable {α β : Type} {P : Request → Prop}

def Sends (P : Request → Prop) : Dialogue α → Prop
  | .done _ => True
  | .perform e next => e.Meets P ∧ ∀ answer, (next answer).Sends P

theorem Sends.bind {d : Dialogue α} {f : α → Dialogue β} (hd : d.Sends P) (hf : ∀ a, (f a).Sends P) :
    (d >>= f).Sends P := by
  induction d with
  | done a => exact hf a
  | perform e next ih =>
    rw [perform_bind]
    exact ⟨hd.1, fun answer => ih answer (hd.2 answer)⟩

theorem sends_send {r : Request} (h : P r) : (send r).Sends P := ⟨h, fun _ => trivial⟩

theorem ensures_extends (d : Dialogue α) (trace : List Exchange) :
    d.Ensures World.noting trace fun _ later => trace <+: later := by
  refine ensures_of_kept List.prefix_rfl fun v e answer v' hv hstep => ?_
  cases e with
  | send r =>
    obtain rfl := hstep
    exact hv.trans (List.prefix_append _ _)
  | _ =>
    obtain rfl := hstep
    exact hv

theorem sends_wait (milliseconds : Nat) : (wait milliseconds).Sends P := ⟨trivial, fun _ => trivial⟩

theorem Sends.ensures {d : Dialogue α} (h : d.Sends P) (trace : List Exchange) :
    d.Ensures World.noting trace fun _ later => ∃ more, later = trace ++ more ∧ ∀ x ∈ more, P x.request := by
  induction d generalizing trace with
  | done a => exact ⟨[], by simp, by simp⟩
  | perform e next ih =>
    intro answer later hlater
    cases e with
    | send r =>
      obtain rfl := hlater
      refine (ih answer (h.2 answer) _).mono ?_
      rintro a _ ⟨more, rfl, hmore⟩
      refine ⟨⟨r, answer⟩ :: more, by simp, ?_⟩
      rw [List.forall_mem_cons]
      exact ⟨h.1, hmore⟩
    | wait _ | clock | freshName =>
      obtain rfl := hlater
      exact ih answer (h.2 answer) _

end Dialogue

namespace Client.Action

variable {α β : Type} {P : Request → Prop} {x : Action α} {f : α → Action β}

def Sends (P : Request → Prop) (x : Action α) : Prop :=
  ∀ s, Dialogue.Sends P (x.run.run s)

theorem Sends.bind (hx : x.Sends P) (hf : ∀ a, (f a).Sends P) : Sends P (x >>= f) := by
  intro s
  refine Dialogue.Sends.bind (hx s) fun r => ?_
  obtain ⟨r, s'⟩ := r
  cases r with
  | ok a => exact hf a s'
  | error e => trivial

theorem sends_pure (a : α) : Sends P (pure a) := fun _ => trivial

theorem sends_throw (e : Error) : Sends P (throw e : Action α) := fun _ => trivial

theorem sends_liftExcept (r : Except Error α) : Sends P (liftExcept r) := by
  cases r with
  | ok a => exact sends_pure a
  | error e => exact sends_throw e

theorem sends_check {c : Prop} [Decidable c] {e : Error} (hx : x.Sends P) :
    Sends P (if c then (throw e : Action PUnit) >>= fun _ => x else x) := by
  split
  · exact (sends_throw e).bind fun _ => hx
  · exact hx

theorem sends_get : Sends P (get : Action Session) := fun _ => trivial

theorem sends_set (s : Session) : Sends P (set s : Action PUnit) := fun _ => trivial

theorem sends_modify (g : Session → Session) : Sends P (modify g : Action PUnit) := fun _ => trivial

theorem sends_ofDialogue {d : Dialogue (Except Error α)} (h : d.Sends P) : Sends P (ofDialogue d) :=
  fun _ => Dialogue.Sends.bind h fun _ => trivial

theorem sends_send {r : Request} (h : P r) : Sends P (send r) := fun _ => ⟨h, fun _ => trivial⟩

theorem sends_clock : Sends P clock := fun _ => ⟨trivial, fun _ => trivial⟩

theorem Sends.outcome (h : x.Sends P) : Sends P x.outcome :=
  fun s => Dialogue.Sends.bind (h s) fun _ => trivial

theorem Sends.ensures (h : x.Sends P) (s : Session) (trace : List Exchange) :
    x.Ensures World.noting s trace fun _ _ later =>
      ∃ more, later = trace ++ more ∧ ∀ x ∈ more, P x.request :=
  Dialogue.Sends.ensures (h s) trace

end Client.Action

namespace Tables.Action

variable {α β : Type} {P : Request → Prop} {x : Action α} {f : α → Action β}

def Sends (P : Request → Prop) (x : Action α) : Prop :=
  ∀ m s, Dialogue.Sends P ((x.run.run m).run s)

theorem Sends.bind (hx : x.Sends P) (hf : ∀ a, (f a).Sends P) : Sends P (x >>= f) := by
  intro m s
  refine Dialogue.Sends.bind (hx m s) fun r => ?_
  obtain ⟨⟨r, m'⟩, s'⟩ := r
  cases r with
  | ok a => exact hf a m' s'
  | error e => trivial

theorem sends_pure (a : α) : Sends P (pure a) := fun _ _ => trivial

theorem sends_throw (e : Error) : Sends P (throw e : Action α) := fun _ _ => trivial

theorem sends_mappings : Sends P mappings := fun _ _ => trivial

theorem sends_update (g : Mappings → Mappings) : Sends P (update g) := fun _ _ => trivial

theorem sends_ofClient {y : Client.Action α} (h : y.Sends P) : Sends P (ofClient y) :=
  fun _ s => Dialogue.Sends.bind (h s) fun _ => trivial

theorem Sends.ensures (h : x.Sends P) (m : Mappings) (s : Session) (trace : List Exchange) :
    x.Ensures World.noting m s trace fun _ _ _ later =>
      ∃ more, later = trace ++ more ∧ ∀ x ∈ more, P x.request :=
  Dialogue.Sends.ensures (h m s) trace

end Tables.Action

end ClaimTables
