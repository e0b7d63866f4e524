import ClaimTables.Proofs.Exchange.Sends

/-!
The order of what is exchanged. Each exchange of a trace stands in a relation to those before it, for instance because
it relies on what was answered there.
-/

namespace ClaimTables

variable {P Q : List Exchange → Exchange → Prop} {trace more : List Exchange}

def InOrder (P : List Exchange → Exchange → Prop) (trace : List Exchange) : Prop :=
  ∀ before x after, trace = before ++ x :: after → P before x

namespace InOrder

theorem nil : InOrder P [] := by
  intro before x after h
  simp at h

theorem mono (h : InOrder P trace) (hP : ∀ before x, P before x → Q before x) : InOrder Q trace :=
  fun before x after heq => hP before x (h before x after heq)

theorem append (h : InOrder P trace) (hmore : ∀ before, trace <+: before → ∀ x ∈ more, P before x) :
    InOrder P (trace ++ more) := by
  intro before x after heq
  rcases List.append_eq_append_iff.1 heq with ⟨between, rfl, rfl⟩ | ⟨between, rfl, hrest⟩
  · exact hmore _ (List.prefix_append _ _) x (by simp)
  · cases between with
    | nil =>
      obtain rfl : x :: after = more := hrest
      exact hmore before (by simp) x List.mem_cons_self
    | cons y between =>
      obtain ⟨rfl, -⟩ := List.cons.inj hrest
      exact h before x between rfl

end InOrder

theorem Client.Action.Sends.inOrder {α : Type} {x : Action α} {R : Request → Prop} (hx : x.Sends R) (s : Session)
    (h : InOrder P trace) (hR : ∀ before, trace <+: before → ∀ y : Exchange, R y.request → P before y) :
    x.Ensures World.noting s trace fun _ _ later => trace <+: later ∧ InOrder P later := by
  refine (hx.ensures s trace).mono ?_
  rintro r s' _ ⟨more, rfl, hmore⟩
  exact ⟨List.prefix_append _ _, h.append fun before hbefore y hy => hR before hbefore y (hmore y hy)⟩

end ClaimTables
