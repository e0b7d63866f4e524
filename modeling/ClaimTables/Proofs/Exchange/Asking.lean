import ClaimTables.Proofs.Exchange.Paths
import ClaimTables.Proofs.Tables.Twins

/-!
Actions that only ask. The world is as before, what was exchanged is noted beside it, and the result is the one
expected unless an exchange failed.
-/

namespace ClaimTables

def World.noted {W : Type} (world : World W) : World (W × List Exchange)
  | (w, trace), e, answer, (w', later) => world w e answer w' ∧ later = trace ++ e.note answer

theorem Dialogue.ensures_noted_of_goes {α W : Type} {world : World W} {d : Dialogue α} {w : W} {trace : List Exchange}
    {post : α → W × List Exchange → Prop} (h : ∀ more a w', d.Goes more a → post a (w', trace ++ more)) :
    d.Ensures world.noted (w, trace) post := by
  induction d generalizing w trace with
  | done a => exact (List.append_nil trace) ▸ h [] a w (.done a)
  | perform e next ih =>
    rintro answer ⟨w', later⟩ ⟨-, rfl⟩
    refine ih answer fun more a w'' hgoes => ?_
    rw [List.append_assoc]
    exact h _ a w'' (.perform answer hgoes)

theorem World.Still.noted {W : Type} {world : World W} (h : world.Still) : world.noted.Still := by
  rintro ⟨w, trace⟩ e answer hnote
  exact ⟨h w e answer hnote, by rw [hnote, List.append_nil]⟩

theorem World.Passes.noted {W : Type} {world : World W} {w w' : W} {exchanged : List Exchange}
    (h : world.Passes w exchanged w') (trace : List Exchange) :
    world.noted.Passes (w, trace) exchanged (w', trace ++ exchanged) := by
  induction h generalizing trace with
  | nil w => exact (List.append_nil trace).symm ▸ .nil _
  | @cons x rest w v w' hworld _ ih =>
    rw [List.append_cons]
    exact .cons ⟨hworld, rfl⟩ (ih _)

namespace Exchange

def Fails : Exchange → Prop
  | ⟨.get _, .ok body⟩ | ⟨.post _, .ok body⟩ => ApiError.ofJson? body ≠ none
  | ⟨.query _, .ok _⟩ => False
  | ⟨_, .error _⟩ => True

theorem fails_error {r : Request} (e : Error) : Fails ⟨r, .error e⟩ := by
  cases r <;> exact trivial

end Exchange

theorem Dialogue.Ensures.restrict {α W : Type} {world world' : World W} {d : Dialogue α} {w : W} {post : α → W → Prop}
    (h : d.Ensures world w post) (hworld : ∀ v e answer v', world' v e answer v' → world v e answer v') :
    d.Ensures world' w post := by
  induction d generalizing w with
  | done a => exact h
  | perform e next ih => exact fun answer w' hw => ih answer (h answer w' (hworld w e answer w' hw))

/-- What an action that only asks comes to, given the state that it asks about and what was noted before. -/
structure Asked {α W : Type} (P : Request → Prop) (w : W) (trace : List Exchange) (expected : α → Prop)
    (r : Except Error α) (later : W × List Exchange) : Prop where
  same : later.1 = w
  exchanged : ∃ more, later.2 = trace ++ more ∧ (∀ x ∈ more, P x.request) ∧
    ((∃ a, r = .ok a ∧ expected a) ∨ ∃ e, r = .error e ∧ ∃ x ∈ more, x.Fails)

namespace Asked

variable {α β W : Type} {P : Request → Prop} {w : W} {trace : List Exchange} {expected : α → Prop}
  {later : W × List Exchange}

theorem of_ok {a : α} (h : expected a) : Asked P w trace expected (.ok a) (w, trace) :=
  ⟨rfl, [], by simp, by simp, .inl ⟨a, rfl, h⟩⟩

theorem expected_of_ok {a : α} (h : Asked P w trace expected (.ok a) later) : expected a := by
  obtain ⟨-, more, -, -, ⟨b, hb, hexpected⟩ | ⟨e, he, -⟩⟩ := h
  · exact Except.ok.inj hb ▸ hexpected
  · cases he

theorem of_error {e : Error} {expected' : β → Prop} (h : Asked P w trace expected (.error e) later) :
    Asked P w trace expected' (.error e) later := by
  obtain ⟨hsame, more, hlater, hmore, ⟨a, ha, -⟩ | ⟨e', he, hfailed⟩⟩ := h
  · cases ha
  · exact ⟨hsame, more, hlater, hmore, .inr ⟨e, rfl, hfailed⟩⟩

theorem trans {r : Except Error α} {r' : Except Error β} {expected' : β → Prop} {last : W × List Exchange}
    (h : Asked P w trace expected r later) (h' : Asked P w later.2 expected' r' last) :
    Asked P w trace expected' r' last := by
  obtain ⟨-, more, hlater, hmore, -⟩ := h
  obtain ⟨hsame, rest, hlast, hrest, hresult⟩ := h'
  refine ⟨hsame, more ++ rest, ?_, fun x hx => ?_, hresult.imp_right ?_⟩
  · rw [hlast, hlater, List.append_assoc]
  · rcases List.mem_append.1 hx with hx | hx
    · exact hmore x hx
    · exact hrest x hx
  · rintro ⟨e, he, x, hx, hfails⟩
    exact ⟨e, he, x, List.mem_append_right _ hx, hfails⟩

end Asked

namespace Tables

def Action.OnlyAsks {α W : Type} (world : World W) (P : Request → Prop) (m : Mappings) (w : W) (x : Action α)
    (expected : α → Prop) : Prop :=
  ∀ s trace, x.Ensures world.noted m s (w, trace) fun r m' _ later => m' = m ∧ Asked P w trace expected r later

namespace Action.OnlyAsks

variable {α β W : Type} {world : World W} {P : Request → Prop} {m : Mappings} {w : W} {x : Action α} {f : α → Action β}
  {expected : α → Prop} {expected' : β → Prop}

theorem bind (hx : x.OnlyAsks world P m w expected) (hf : ∀ a, expected a → (f a).OnlyAsks world P m w expected') :
    (x >>= f).OnlyAsks world P m w expected' := by
  intro s trace
  refine (hx s trace).bind ?_ ?_
  · rintro a _ s' ⟨_, later⟩ ⟨rfl, hasked⟩
    obtain rfl := hasked.same
    refine (hf a hasked.expected_of_ok s' later).mono ?_
    rintro r _ s'' last ⟨rfl, hlast⟩
    exact ⟨rfl, hasked.trans hlast⟩
  · rintro e _ s' later ⟨rfl, hasked⟩
    exact ⟨rfl, hasked.of_error⟩

theorem of_pure {a : α} (h : expected a) : (pure a : Action α).OnlyAsks world P m w expected :=
  fun _ _ => ⟨rfl, .of_ok h⟩

theorem map {g : α → β} (hx : x.OnlyAsks world P m w expected) (hg : ∀ a, expected a → expected' (g a)) :
    (g <$> x).OnlyAsks world P m w expected' := by
  rw [map_eq_pure_bind]
  exact hx.bind fun a ha => .of_pure (hg a ha)

theorem of_gives {a : α} (hx : ∀ s, x.Gives m s (.ok a)) : x.OnlyAsks world P m w (· = a) := by
  intro s trace
  rw [Action.Ensures, hx s]
  exact ⟨rfl, .of_ok rfl⟩

end Action.OnlyAsks

end Tables

end ClaimTables
