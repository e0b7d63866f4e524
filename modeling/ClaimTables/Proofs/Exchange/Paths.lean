import ClaimTables.Exchange.Script
import ClaimTables.Proofs.Exchange.Fails

/-!
Single ways through a dialogue, with what is exchanged on them, and the one on which a scripted store answers. What a
dialogue ensures in a world, it ensures on each way on which the world can have the exchanges.
-/

namespace ClaimTables

def Effect.note : (e : Effect) → e.Answer → List Exchange
  | .send r, answer => [⟨r, answer⟩]
  | _, _ => []

/-- That one exchange after the other can be had in a world, and where they lead. -/
inductive World.Passes {W : Type} (world : World W) : W → List Exchange → W → Prop
  | nil (w : W) : Passes world w [] w
  | cons {x : Exchange} {rest : List Exchange} {w v w' : W} (h : world w (.send x.request) x.reply v)
    (hrest : Passes world v rest w') : Passes world w (x :: rest) w'

/-- That whatever is not sent may leave a world as it is. -/
def World.Still {W : Type} (world : World W) : Prop :=
  ∀ w (e : Effect) answer, e.note answer = [] → world w e answer w

theorem World.still_noting : World.noting.Still := by
  intro trace e answer hnote
  cases e with
  | send r => cases hnote
  | wait _ | clock | freshName => rfl

theorem World.passes_noting (trace exchanged : List Exchange) :
    World.noting.Passes trace exchanged (trace ++ exchanged) := by
  induction exchanged generalizing trace with
  | nil => exact (List.append_nil trace).symm ▸ .nil trace
  | cons x rest ih =>
    rw [List.append_cons]
    exact .cons rfl (ih _)

/-- The token of a user who has just logged in for the first time, at the time of zero. -/
def Token.issued (username : String) : Token :=
  ⟨username, "csrf+\\", 0, Token.lifetime, 1⟩

def Session.loggedIn (username : String) : Session :=
  ⟨some (.issued username), 1, none⟩

/-- What a store answers to an edit that it applies, and when it makes an entity. -/
def doneBody : Json :=
  .ofEntries [("success", .integer 1)]

def madeBody (id : String) : Json :=
  .ofEntries [("entity", .ofEntries [("id", .string id)])]

/-- The errors with which a request can fail on its way; that an edit was turned down is told in a document. -/
def Error.OnTheWay (e : Error) : Prop :=
  ∀ entity code info, e ≠ .remoteWrite entity code info

theorem Error.OnTheWay.isExpiry_eq {e : Error} (h : e.OnTheWay) : e.isExpiry = false := by
  cases e with
  | remoteWrite entity code info => exact absurd rfl (h entity code info)
  | _ => rfl

namespace Dialogue

variable {α : Type}

inductive Goes : Dialogue α → List Exchange → α → Prop
  | done (a : α) : Goes (.done a) [] a
  | perform {e : Effect} {next : e.Answer → Dialogue α} (answer : e.Answer) {more : List Exchange} {a : α}
    (h : Goes (next answer) more a) : Goes (.perform e next) (e.note answer ++ more) a

def follow : Dialogue α → Conversation → List Exchange → α × List Exchange
  | .done a, _, trace => (a, trace)
  | .perform e next, c, trace =>
    let (answer, c') := Conversation.handle e c
    (next answer).follow c' (trace ++ e.note answer)

theorem Ensures.passes {W : Type} {world : World W} {d : Dialogue α} {w w' : W} {exchanged : List Exchange} {a : α}
    {post : α → W → Prop} (h : d.Ensures world w post) (hstill : world.Still) (hgoes : d.Goes exchanged a)
    (hpasses : world.Passes w exchanged w') : post a w' := by
  induction hgoes generalizing w with
  | done a =>
    cases hpasses
    exact h
  | @perform e next answer more a _ ih =>
    cases e with
    | send r =>
      cases hpasses with
      | cons hworld hrest => exact ih (h _ _ hworld) hrest
    | wait _ | clock | freshName => exact ih (h _ _ (hstill w _ _ rfl)) hpasses

theorem Ensures.goes {d : Dialogue α} {trace more : List Exchange} {a : α} {post : α → List Exchange → Prop}
    (h : d.Ensures World.noting trace post) (hgoes : d.Goes more a) : post a (trace ++ more) :=
  h.passes World.still_noting hgoes (World.passes_noting trace more)

theorem goes_follow (d : Dialogue α) (c : Conversation) (trace : List Exchange) :
    ∃ more, (d.follow c trace).2 = trace ++ more ∧ d.Goes more (d.follow c trace).1 := by
  induction d generalizing c trace with
  | done a => exact ⟨[], (List.append_nil trace).symm, .done a⟩
  | perform e next ih =>
    obtain ⟨more, hmore, hgoes⟩ := ih (Conversation.handle e c).1 (Conversation.handle e c).2
      (trace ++ e.note (Conversation.handle e c).1)
    exact ⟨_, hmore.trans (List.append_assoc _ _ _), .perform _ hgoes⟩

theorem Ensures.follow {d : Dialogue α} {trace : List Exchange} {post : α → List Exchange → Prop}
    (h : d.Ensures World.noting trace post) (c : Conversation) : post (d.follow c trace).1 (d.follow c trace).2 := by
  obtain ⟨more, hmore, hgoes⟩ := d.goes_follow c trace
  rw [hmore]
  exact h.goes hgoes

theorem ensures_of_goes {d : Dialogue α} {trace : List Exchange} {post : α → List Exchange → Prop}
    (h : ∀ more a, d.Goes more a → post a (trace ++ more)) : d.Ensures World.noting trace post := by
  induction d generalizing trace with
  | done a => exact List.append_nil trace ▸ h [] a (.done a)
  | perform e next ih =>
    have hnext (answer : e.Answer) : (next answer).Ensures World.noting (trace ++ e.note answer) post := by
      refine ih answer fun more a hgoes => ?_
      rw [List.append_assoc]
      exact h _ a (.perform answer hgoes)
    intro answer later hlater
    cases e with
    | send r =>
      obtain rfl := hlater
      exact hnext answer
    | wait _ | clock | freshName =>
      obtain rfl := hlater
      simpa only [Effect.note, List.append_nil] using hnext answer

theorem goes_pure {a b : α} {exchanged : List Exchange} :
    (pure a : Dialogue α).Goes exchanged b ↔ exchanged = [] ∧ b = a := by
  constructor
  · intro h
    cases h
    exact ⟨rfl, rfl⟩
  · rintro ⟨rfl, rfl⟩
    exact .done b

theorem goes_bind {β : Type} {d : Dialogue α} {f : α → Dialogue β} {exchanged : List Exchange} {b : β} :
    (d >>= f).Goes exchanged b ↔
      ∃ first a rest, d.Goes first a ∧ (f a).Goes rest b ∧ exchanged = first ++ rest := by
  induction d generalizing exchanged with
  | done a =>
    constructor
    · exact fun h => ⟨[], a, exchanged, .done a, h, rfl⟩
    · rintro ⟨first, a, rest, hfirst, hrest, rfl⟩
      cases hfirst
      exact hrest
  | perform e next ih =>
    rw [perform_bind]
    constructor
    · intro h
      cases h with
      | perform answer h =>
        obtain ⟨first, a, rest, hfirst, hrest, rfl⟩ := (ih answer).1 h
        exact ⟨_, a, rest, .perform answer hfirst, hrest, (List.append_assoc _ _ _).symm⟩
    · rintro ⟨first, a, rest, hfirst, hrest, rfl⟩
      cases hfirst with
      | perform answer hfirst =>
        rw [List.append_assoc]
        exact .perform answer ((ih answer).2 ⟨_, a, rest, hfirst, hrest, rfl⟩)

theorem goes_map {β : Type} {d : Dialogue α} {g : α → β} {exchanged : List Exchange} {b : β} :
    (d >>= fun a => pure (g a)).Goes exchanged b ↔ ∃ a, d.Goes exchanged a ∧ b = g a := by
  rw [goes_bind]
  constructor
  · rintro ⟨first, a, rest, hfirst, hrest, rfl⟩
    obtain ⟨rfl, rfl⟩ := goes_pure.1 hrest
    exact ⟨a, (List.append_nil first).symm ▸ hfirst, rfl⟩
  · rintro ⟨a, h, rfl⟩
    exact ⟨exchanged, a, [], h, .done _, (List.append_nil exchanged).symm⟩

theorem Sends.goes {d : Dialogue α} {P : Request → Prop} {exchanged : List Exchange} {a : α} (h : d.Sends P)
    (hgoes : d.Goes exchanged a) : ∀ x ∈ exchanged, P x.request := by
  obtain ⟨more, rfl, hmore⟩ := (h.ensures []).goes hgoes
  exact hmore

theorem Yields.goes {d : Dialogue α} {E : Error → Prop} {P : α → Prop} {exchanged : List Exchange} {a : α}
    (h : d.Yields E P) (hgoes : d.Goes exchanged a) (hall : ∀ x ∈ exchanged, FailsAs E x.reply) : P a := by
  obtain ⟨more, rfl, hmore⟩ := (h.ensures []).goes hgoes
  exact hmore hall

theorem ensures_recording_iff {d : Dialogue α} {trace : List Exchange} {post : α → List Exchange → Prop} :
    d.Ensures World.recording trace post ↔
      ∀ more a, d.Goes more a → (∀ x ∈ more, FailsAs Error.OnTheWay x.reply) → post a (trace ++ more) := by
  -- What is noted of an effect comes before what the rest exchanges; only a fair answer may be noted at all.
  induction d generalizing trace with
  | done a =>
    constructor
    · rintro h _ _ (_ | _) -
      exact (List.append_nil trace).symm ▸ h
    · exact fun h => List.append_nil trace ▸ h [] a (.done a) (by simp)
  | perform e next ih =>
    constructor
    · rintro h _ a (_ | @⟨_, _, answer, more, _, hgoes⟩) hfair
      rw [List.forall_mem_append] at hfair
      rw [← List.append_assoc]
      refine (ih answer).1 (h answer _ ?_) more a hgoes hfair.2
      cases e with
      | send r => exact ⟨fun entity code info hanswer => hfair.1 ⟨r, answer⟩ (by simp [Effect.note]) _ hanswer _ _ _ rfl, rfl⟩
      | wait _ | clock | freshName => exact List.append_nil _
    · intro h answer later hlater
      have hnext (hnote : ∀ x ∈ e.note answer, FailsAs Error.OnTheWay x.reply) :
          (next answer).Ensures World.recording (trace ++ e.note answer) post := by
        refine (ih answer).2 fun more a hgoes hfair => ?_
        rw [List.append_assoc]
        exact h _ a (.perform answer hgoes) (List.forall_mem_append.2 ⟨hnote, hfair⟩)
      cases e with
      | send r =>
        obtain ⟨hanswer, rfl⟩ := hlater
        refine hnext fun x hx => ?_
        obtain rfl := List.mem_singleton.1 hx
        rintro _ he entity code info rfl
        exact hanswer entity code info he
      | wait _ | clock | freshName =>
        obtain rfl := hlater
        simpa only [Effect.note, List.append_nil] using hnext (by simp [Effect.note])

theorem goes_followed (d : Dialogue α) (c : Conversation) : d.Goes (d.follow c []).2 (d.follow c []).1 := by
  obtain ⟨more, hmore, hgoes⟩ := d.goes_follow c []
  rw [hmore]
  exact hgoes

end Dialogue

namespace Client.Action

variable {α β : Type} {x : Action α} {f : α → Action β} {s s' : Session} {exchanged : List Exchange}

def Goes (x : Action α) (s : Session) (exchanged : List Exchange) (r : Except Error α) (s' : Session) : Prop :=
  Dialogue.Goes (x.run.run s) exchanged (r, s')

theorem Ensures.goes {r : Except Error α} {post : Except Error α → Session → List Exchange → Prop}
    (h : x.Ensures World.noting s [] post) (hgoes : x.Goes s exchanged r s') : post r s' exchanged :=
  Dialogue.Ensures.goes h hgoes

theorem ensures_of_goes {trace : List Exchange} {post : Except Error α → Session → List Exchange → Prop}
    (h : ∀ more r s', x.Goes s more r s' → post r s' (trace ++ more)) : x.Ensures World.noting s trace post :=
  Dialogue.ensures_of_goes fun more r => h more r.1 r.2

theorem Sends.goes {P : Request → Prop} {r : Except Error α} (h : x.Sends P) (hgoes : x.Goes s exchanged r s') :
    ∀ y ∈ exchanged, P y.request :=
  Dialogue.Sends.goes (h s) hgoes

theorem Fails.goes {E : Error → Prop} {r : Except Error α} (h : x.Fails E) (hgoes : x.Goes s exchanged r s')
    (hall : ∀ y ∈ exchanged, FailsAs E y.reply) : FailsAs E r :=
  Dialogue.Yields.goes (P := fun r => FailsAs E r.1) (h s) hgoes hall

theorem goes_pure {a : α} {r : Except Error α} :
    Goes (pure a) s exchanged r s' ↔ exchanged = [] ∧ r = .ok a ∧ s' = s :=
  Dialogue.goes_pure.trans (and_congr_right' Prod.ext_iff)

theorem goes_throw {e : Error} {r : Except Error α} :
    Goes (throw e) s exchanged r s' ↔ exchanged = [] ∧ r = .error e ∧ s' = s :=
  Dialogue.goes_pure.trans (and_congr_right' Prod.ext_iff)

theorem goes_liftExcept {q r : Except Error α} :
    Goes (liftExcept q) s exchanged r s' ↔ exchanged = [] ∧ r = q ∧ s' = s := by
  cases q with
  | ok a => exact goes_pure
  | error e => exact goes_throw

theorem goes_bind {r : Except Error β} :
    Goes (x >>= f) s exchanged r s' ↔
      (∃ a s₁ first rest, x.Goes s first (.ok a) s₁ ∧ (f a).Goes s₁ rest r s' ∧ exchanged = first ++ rest) ∨
        ∃ e, x.Goes s exchanged (.error e) s' ∧ r = .error e := by
  refine Dialogue.goes_bind.trans ?_
  constructor
  · rintro ⟨first, ⟨a | a, s₁⟩, rest, hfirst, hrest, rfl⟩
    · obtain ⟨rfl, rfl, rfl⟩ := goes_throw.1 hrest
      exact .inr ⟨a, (List.append_nil first).symm ▸ hfirst, rfl⟩
    · exact .inl ⟨a, s₁, first, rest, hfirst, hrest, rfl⟩
  · rintro (⟨a, s₁, first, rest, hfirst, hrest, rfl⟩ | ⟨e, h, rfl⟩)
    · exact ⟨first, (.ok a, s₁), rest, hfirst, hrest, rfl⟩
    · exact ⟨exchanged, (.error e, s'), [], h, .done _, (List.append_nil _).symm⟩

theorem goes_outcome {r : Except Error (Except Error α)} :
    x.outcome.Goes s exchanged r s' ↔ ∃ r', x.Goes s exchanged r' s' ∧ r = .ok r' := by
  refine Dialogue.goes_map.trans ⟨?_, ?_⟩
  · rintro ⟨⟨r', s₁⟩, h, heq⟩
    simp only [Prod.mk.injEq] at heq
    obtain ⟨rfl, rfl⟩ := heq
    exact ⟨r', h, rfl⟩
  · rintro ⟨r', h, rfl⟩
    exact ⟨(r', s'), h, rfl⟩

theorem goes_ofDialogue {d : Dialogue (Except Error α)} {r : Except Error α} :
    (ofDialogue d).Goes s exchanged r s' ↔ d.Goes exchanged r ∧ s' = s := by
  refine Dialogue.goes_map.trans ⟨?_, ?_⟩
  · rintro ⟨r', h, heq⟩
    obtain ⟨rfl, rfl⟩ := Prod.ext_iff.1 heq
    exact ⟨h, rfl⟩
  · rintro ⟨h, rfl⟩
    exact ⟨r, h, rfl⟩

end Client.Action

namespace Tables.Action

variable {α β : Type}

def follow (x : Action α) (m : Mappings) (s : Session) (c : Conversation) : Except Error α × List Exchange :=
  let (r, trace) := Dialogue.follow ((x.run.run m).run s) c []
  (r.1.1, trace)

def Goes (x : Action α) (m : Mappings) (s : Session) (exchanged : List Exchange) (r : Except Error α) (m' : Mappings)
    (s' : Session) : Prop :=
  Dialogue.Goes ((x.run.run m).run s) exchanged ((r, m'), s')

theorem Ensures.goes {x : Action α} {m m' : Mappings} {s s' : Session} {exchanged : List Exchange} {r : Except Error α}
    {post : Except Error α → Mappings → Session → List Exchange → Prop} (h : x.Ensures World.noting m s [] post)
    (hgoes : x.Goes m s exchanged r m' s') : post r m' s' exchanged :=
  Dialogue.Ensures.goes h hgoes

theorem Ensures.passes {W : Type} {world : World W} {x : Action α} {m m' : Mappings} {s s' : Session} {w w' : W}
    {exchanged : List Exchange} {r : Except Error α} {post : Except Error α → Mappings → Session → W → Prop}
    (h : x.Ensures world m s w post) (hstill : world.Still) (hgoes : x.Goes m s exchanged r m' s')
    (hpasses : world.Passes w exchanged w') : post r m' s' w' := by
  have hrun : Dialogue.Ensures world ((x.run.run m).run s) w fun r w' => post r.1.1 r.1.2 r.2 w' := h
  exact hrun.passes hstill hgoes hpasses

section Goes

variable {x : Action α} {f : α → Action β} {m m' : Mappings} {s s' : Session} {exchanged : List Exchange}

theorem ensures_of_goes {trace : List Exchange} {post : Except Error α → Mappings → Session → List Exchange → Prop}
    (h : ∀ more r m' s', x.Goes m s more r m' s' → post r m' s' (trace ++ more)) :
    x.Ensures World.noting m s trace post :=
  Dialogue.ensures_of_goes fun more r => h more r.1.1 r.1.2 r.2

theorem Fails.goes {E : Error → Prop} {r : Except Error α} (h : x.Fails E) (hgoes : x.Goes m s exchanged r m' s')
    (hall : ∀ y ∈ exchanged, FailsAs E y.reply) : FailsAs E r :=
  Dialogue.Yields.goes (P := fun r => FailsAs E r.1.1) (h m s) hgoes hall

theorem goes_pure {a : α} {r : Except Error α} :
    Goes (pure a) m s exchanged r m' s' ↔ exchanged = [] ∧ r = .ok a ∧ m' = m ∧ s' = s :=
  Dialogue.goes_pure.trans (by simp only [Prod.mk.injEq, and_assoc])

theorem goes_throw {e : Error} {r : Except Error α} :
    Goes (throw e) m s exchanged r m' s' ↔ exchanged = [] ∧ r = .error e ∧ m' = m ∧ s' = s :=
  Dialogue.goes_pure.trans (by simp only [Prod.mk.injEq, and_assoc])

theorem goes_ofExcept {q r : Except Error α} :
    Goes (ofExcept q) m s exchanged r m' s' ↔ exchanged = [] ∧ r = q ∧ m' = m ∧ s' = s := by
  cases q with
  | ok a => exact goes_pure
  | error e => exact goes_throw

theorem goes_bind {r : Except Error β} :
    Goes (x >>= f) m s exchanged r m' s' ↔
      (∃ a m₁ s₁ first rest, x.Goes m s first (.ok a) m₁ s₁ ∧ (f a).Goes m₁ s₁ rest r m' s' ∧
        exchanged = first ++ rest) ∨
        ∃ e, x.Goes m s exchanged (.error e) m' s' ∧ r = .error e := by
  refine Dialogue.goes_bind.trans ?_
  constructor
  · rintro ⟨first, ⟨⟨a | a, m₁⟩, s₁⟩, rest, hfirst, hrest, rfl⟩
    · obtain ⟨rfl, rfl, rfl, rfl⟩ := goes_throw.1 hrest
      exact .inr ⟨a, (List.append_nil first).symm ▸ hfirst, rfl⟩
    · exact .inl ⟨a, m₁, s₁, first, rest, hfirst, hrest, rfl⟩
  · rintro (⟨a, m₁, s₁, first, rest, hfirst, hrest, rfl⟩ | ⟨e, h, rfl⟩)
    · exact ⟨first, ((.ok a, m₁), s₁), rest, hfirst, hrest, rfl⟩
    · exact ⟨exchanged, ((.error e, m'), s'), [], h, .done _, (List.append_nil _).symm⟩

theorem goes_ofClient {y : Client.Action α} {r : Except Error α} :
    (ofClient y).Goes m s exchanged r m' s' ↔ y.Goes s exchanged r s' ∧ m' = m := by
  refine Dialogue.goes_map.trans ⟨?_, ?_⟩
  · rintro ⟨⟨r', s₁⟩, h, heq⟩
    simp only [Prod.mk.injEq] at heq
    obtain ⟨⟨rfl, rfl⟩, rfl⟩ := heq
    exact ⟨h, rfl⟩
  · rintro ⟨h, rfl⟩
    exact ⟨(r, s'), h, rfl⟩

theorem goes_outcome {r : Except Error (Except Error α)} :
    x.outcome.Goes m s exchanged r m' s' ↔ ∃ r', x.Goes m s exchanged r' m' s' ∧ r = .ok r' := by
  refine Dialogue.goes_map.trans ⟨?_, ?_⟩
  · rintro ⟨⟨⟨r', m₁⟩, s₁⟩, h, heq⟩
    simp only [Prod.mk.injEq] at heq
    obtain ⟨⟨rfl, rfl⟩, rfl⟩ := heq
    exact ⟨r', h, rfl⟩
  · rintro ⟨r', h, rfl⟩
    exact ⟨((r', m'), s'), h, rfl⟩

end Goes

theorem Ensures.follow {x : Action α} {m : Mappings} {s : Session} {post : Except Error α → List Exchange → Prop}
    (h : x.Ensures World.noting m s [] fun r _ _ trace => post r trace) (c : Conversation) :
    post (x.follow m s c).1 (x.follow m s c).2 :=
  Dialogue.Ensures.follow h c

theorem Ensures.followed {x : Action α} {m : Mappings} {s : Session}
    {post : Except Error α → Mappings → Session → List Exchange → Prop} (h : x.Ensures World.noting m s [] post)
    (c : Conversation) : ∃ m' s', post (x.follow m s c).1 m' s' (x.follow m s c).2 :=
  ⟨_, _, Dialogue.Ensures.follow h c⟩

end Tables.Action

end ClaimTables
