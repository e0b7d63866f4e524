import ClaimTables.Exchange.Request

/-!
Programs that talk to the store. A dialogue is a result, or an effect and what follows each of its
answers; what an effect does is left to whoever runs the dialogue.
-/

namespace ClaimTables

inductive Effect where
  | send (r : Request)
  | wait (milliseconds : Nat)
  | clock
  | freshName

abbrev Effect.Answer : Effect → Type
  | .send r => Except Error r.Reply
  | .wait _ => Unit
  | .clock => Int
  | .freshName => String

inductive Dialogue (α : Type) where
  | done (a : α)
  | perform (e : Effect) (next : e.Answer → Dialogue α)

namespace Dialogue

variable {α β γ : Type}

def bind : Dialogue α → (α → Dialogue β) → Dialogue β
  | .done a, f => f a
  | .perform e next, f => .perform e fun answer => (next answer).bind f

instance : Monad Dialogue where
  pure := .done
  bind := bind

theorem done_bind (a : α) (f : α → Dialogue β) : (.done a : Dialogue α) >>= f = f a := rfl

theorem perform_bind (e : Effect) (next : e.Answer → Dialogue α) (f : α → Dialogue β) :
    .perform e next >>= f = .perform e fun answer => next answer >>= f := rfl

theorem bind_done (d : Dialogue α) : d.bind .done = d := by
  induction d with
  | done a => rfl
  | perform e next ih => simp only [bind, ih]

theorem bind_assoc (d : Dialogue α) (f : α → Dialogue β) (g : β → Dialogue γ) :
    (d.bind f).bind g = d.bind fun a => (f a).bind g := by
  induction d with
  | done a => rfl
  | perform e next ih => simp only [bind, ih]

instance : LawfulMonad Dialogue :=
  LawfulMonad.mk' Dialogue bind_done (fun _ _ => rfl) bind_assoc

def ask (e : Effect) : Dialogue e.Answer :=
  .perform e .done

def send (r : Request) : Dialogue (Except Error r.Reply) :=
  ask (.send r)

def wait (milliseconds : Nat) : Dialogue Unit :=
  ask (.wait milliseconds)

def run {m : Type → Type} [Monad m] (handler : (e : Effect) → m e.Answer) : Dialogue α → m α
  | .done a => pure a
  | .perform e next => do
    let answer ← handler e
    run handler (next answer)

theorem run_bind {m : Type → Type} [Monad m] [LawfulMonad m] (handler : (e : Effect) → m e.Answer)
    (d : Dialogue α) (f : α → Dialogue β) :
    (d >>= f).run handler = d.run handler >>= fun a => (f a).run handler := by
  induction d with
  | done a => simp [done_bind, run]
  | perform e next ih => simp [perform_bind, run, ih]

end Dialogue

end ClaimTables
