import ClaimTables.Proofs.Exchange.Fails
import ClaimTables.Proofs.Schema.Acceptance

/-!
With what error declarations are refused. Each check has a reason of its own to give; only the walk up does not, where it
leaves the schema above a model whose own parent is declared.
-/

namespace ClaimTables

def Error.IsConfiguration (e : Error) : Prop :=
  ∃ reason, e = .configuration reason

theorem bind_eq_error {ε α β : Type} {x : Except ε α} {f : α → Except ε β} {e : ε} :
    x >>= f = .error e ↔ x = .error e ∨ ∃ a, x = .ok a ∧ f a = .error e := by
  cases x with
  | error e' => simp [bind, Except.bind]
  | ok a => simp [bind, Except.bind]

theorem forM_eq_error {ε α : Type} {f : α → Except ε Unit} {l : List α} {e : ε} : l.forM f = .error e ↔
    ∃ before a after, l = before ++ a :: after ∧ (∀ b ∈ before, f b = .ok ()) ∧ f a = .error e := by
  induction l with
  | nil =>
    constructor
    · exact fun h => nomatch h
    · rintro ⟨before, a, after, h, -⟩
      simp at h
  | cons first rest ih =>
    rw [List.forM_eq_forM, List.forM_cons, bind_eq_error]
    constructor
    · rintro (hfirst | ⟨_, hfirst, hrest⟩)
      · exact ⟨[], first, rest, rfl, by simp, hfirst⟩
      · obtain ⟨before, a, after, rfl, hbefore, ha⟩ := ih.1 hrest
        exact ⟨first :: before, a, after, rfl, List.forall_mem_cons.2 ⟨hfirst, hbefore⟩, ha⟩
    · rintro ⟨before, a, after, hl, hbefore, ha⟩
      cases before with
      | nil =>
        obtain ⟨rfl, -⟩ := List.cons.inj hl
        exact .inl ha
      | cons b before =>
        obtain ⟨rfl, rfl⟩ := List.cons.inj hl
        rw [List.forall_mem_cons] at hbefore
        exact .inr ⟨(), hbefore.1, ih.2 ⟨before, a, after, rfl, hbefore.2, ha⟩⟩

namespace Schema

variable {s : Schema} {models : List Model} {m : Model} {name missing : String} {e : Error}

theorem failsAs_declare (seen : List (String × Model)) (models : List Model) :
    FailsAs Error.IsConfiguration (declare seen models) := by
  induction models generalizing seen with
  | nil => exact failsAs_ok _
  | cons m rest ih =>
    rw [declare]
    split
    · exact failsAs_error ⟨_, rfl⟩
    · split
      · exact failsAs_error ⟨_, rfl⟩
      · exact ih _

theorem failsAs_checkFields (s : Schema) (model : String) (seen : List String) (fields : List ResolvedField) :
    FailsAs Error.IsConfiguration (s.checkFields model seen fields) := by
  induction fields generalizing seen with
  | nil => exact failsAs_ok _
  | cons f rest ih =>
    rw [checkFields]
    split
    · exact failsAs_error ⟨_, rfl⟩
    · split
      · exact failsAs_error ⟨_, rfl⟩
      · split
        · exact ih _
        · split
          · exact ih _
          · exact failsAs_error ⟨_, rfl⟩

theorem failsAs_checkParent (s : Schema) (m : Model) : FailsAs Error.IsConfiguration (s.checkParent m) := by
  rw [checkParent]
  split
  · exact failsAs_ok _
  · split
    · exact failsAs_ok _
    · exact failsAs_error ⟨_, rfl⟩

theorem fields_eq_error : s.fields name = .error e ↔ s.ancestry name = .error e := by
  rw [Schema.fields]
  cases s.ancestry name <;> simp [Except.map]

theorem failsAs_checkModel (s : Schema) (m : Model) :
    FailsAs (fun e => e.IsConfiguration ∨ ∃ missing, e = .unknownModel missing) (s.checkModel m) := by
  intro e h
  rcases bind_eq_error.1 h with h | ⟨_, -, h⟩
  · exact .inl (failsAs_checkParent s m e h)
  · rcases bind_eq_error.1 h with h | ⟨fields, -, h⟩
    · cases astray_of_ancestry (fields_eq_error.1 h) with
      | lost => exact .inr ⟨_, rfl⟩
      | circle => exact .inl ⟨_, rfl⟩
    · exact .inl (failsAs_checkFields s _ _ _ e h)

/-- Only the walk up speaks of an unknown model, and it is walked only if the parent of the model itself is declared. -/
theorem checkModel_eq_unknown : s.checkModel m = .error (.unknownModel missing) ↔
    (∀ parent, m.parent = some parent → s.declares parent = true) ∧ s.Reaches m.name missing ∧ s.find? missing = none := by
  rw [← checkParent_eq_ok, ← ancestry_eq_unknown, ← fields_eq_error]
  constructor
  · intro h
    rcases bind_eq_error.1 h with h | ⟨_, hparent, h⟩
    · obtain ⟨_, ⟨⟩⟩ := failsAs_checkParent s m _ h
    · rcases bind_eq_error.1 h with h | ⟨fields, -, h⟩
      · exact ⟨hparent, h⟩
      · obtain ⟨_, ⟨⟩⟩ := failsAs_checkFields s _ _ _ _ h
  · rintro ⟨hparent, hfields⟩
    exact bind_eq_error.2 (.inr ⟨(), hparent, bind_eq_error.2 (.inl hfields)⟩)

theorem ofModels_eq_error : ofModels models = .error e ↔
    declare [] models = .error e ∨ Named models ∧ (arranged models).models.forM (arranged models).checkModel = .error e := by
  cases hdeclare : declare [] models with
  | error e' =>
    have hsame : ofModels models = .error e' := by
      rw [ofModels, hdeclare]
      rfl
    have hunnamed : ¬Named models := by
      intro hnamed
      rw [hnamed.declare] at hdeclare
      cases hdeclare
    rw [hsame]
    simp [hunnamed]
  | ok entries =>
    have hnamed := (declare_eq_ok_iff.1 hdeclare).1
    rw [hnamed.ofModels, bind_eq_error]
    simp [hnamed]

/--
Declarations that are refused are so for a reason of configuration, but for one case: the first model, in the order of
names, that is not in order has a parent that is declared, and further up its way leads to a name that is not.
-/
theorem ofModels_refuses (models : List Model) :
    (∀ e, ofModels models = .error e → e.IsConfiguration ∨ ∃ missing, e = .unknownModel missing) ∧
      ∀ missing, ofModels models = .error (.unknownModel missing) ↔
        Named models ∧ ∃ before m after, (arranged models).models = before ++ m :: after ∧
          (∀ b ∈ before, (arranged models).checkModel b = .ok ()) ∧
          (∀ parent, m.parent = some parent → (arranged models).declares parent = true) ∧
          (arranged models).Reaches m.name missing ∧ (arranged models).find? missing = none := by
  refine ⟨fun e h => ?_, fun missing => ?_⟩
  · rcases ofModels_eq_error.1 h with h | ⟨-, h⟩
    · exact .inl (failsAs_declare [] models e h)
    · obtain ⟨_, m, _, -, -, hm⟩ := forM_eq_error.1 h
      exact failsAs_checkModel _ m e hm
  · rw [ofModels_eq_error, forM_eq_error]
    simp only [checkModel_eq_unknown]
    refine or_iff_right fun h => ?_
    obtain ⟨_, ⟨⟩⟩ := failsAs_declare [] models _ h

/-- Which error an unknown parent gives depends on the names: of the model right below it and of those further down. -/
theorem ofModels_refuses_unknown :
    ofModels [⟨"A", some "B", []⟩, ⟨"B", some "C", []⟩] = .error (.unknownModel "C") ∧
      ¬(Error.unknownModel "C").IsConfiguration ∧
      ofModels [⟨"B", some "A", []⟩, ⟨"A", some "C", []⟩] =
        .error (.configuration "model A inherits from unknown model C") :=
  ⟨rfl, fun ⟨_, h⟩ => (nomatch h), rfl⟩

end Schema

end ClaimTables
