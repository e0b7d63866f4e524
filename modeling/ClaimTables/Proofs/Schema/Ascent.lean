import ClaimTables.Proofs.Schema.Hierarchy

/-!
The walk up from a model as it goes without a bound on its steps. It always ends: with the chain of the model, at a name
that no model has, or at a model that it has passed before, which then inherits from itself.
-/

namespace ClaimTables.Schema

variable {s : Schema} {name missing ancestor : String} {passed : List Model}

theorem model_eq_error {e : Error} (h : s.model name = .error e) : e = .unknownModel name ∧ s.find? name = none := by
  unfold model at h
  split at h
  · cases h
  · next hnone => exact ⟨(Except.error.inj h).symm, hnone⟩

/-- That the walk up from a name, after some models were passed, ends with a result; nothing bounds its steps. -/
inductive Climbs (s : Schema) : List Model → String → Except Error (List Model) → Prop
  | lost {passed : List Model} {name : String} {e : Error} (h : s.model name = .error e) : Climbs s passed name (.error e)
  | again {passed : List Model} {name : String} {m : Model} (hm : s.model name = .ok m)
    (h : m.name ∈ passed.map (·.name)) : Climbs s passed name (.error (cycleThrough m.name))
  | root {passed : List Model} {name : String} {m : Model} (hm : s.model name = .ok m)
    (h : m.name ∉ passed.map (·.name)) (hparent : m.parent = none) : Climbs s passed name (.ok (m :: passed))
  | up {passed : List Model} {name parent : String} {m : Model} {r : Except Error (List Model)}
    (hm : s.model name = .ok m) (h : m.name ∉ passed.map (·.name)) (hparent : m.parent = some parent)
    (hr : Climbs s (m :: passed) parent r) : Climbs s passed name r

theorem climbs_climb {fuel : Nat} (hfuel : s.models.length < fuel + passed.length)
    (hnodup : (passed.map (·.name)).Nodup) (hsubset : passed ⊆ s.models) :
    s.Climbs passed name (s.climb fuel passed name) := by
  induction fuel generalizing passed name with
  | zero =>
    -- The models that were passed are different ones of the schema, so there cannot be more of them.
    have hlength := ((List.Nodup.of_map _ hnodup).subperm hsubset).length_le
    omega
  | succ fuel ih =>
    rw [climb]
    cases hm : s.model name with
    | error e => exact .lost hm
    | ok m =>
      have hany : passed.any (·.name = m.name) = true ↔ m.name ∈ passed.map (·.name) := by simp
      dsimp only
      split
      · next hpassed => exact .again hm (hany.1 hpassed)
      · next hnew =>
        rw [hany] at hnew
        split
        · next hparent => exact .root hm hnew hparent
        · next parent hparent =>
          have hmem : m ∈ s.models := List.mem_of_find?_eq_some (model_eq_ok hm).1
          refine .up hm hnew hparent (ih ?_ (List.nodup_cons.2 ⟨hnew, hnodup⟩) (List.cons_subset.2 ⟨hmem, hsubset⟩))
          rw [List.length_cons]
          omega

theorem climbs_ancestry (s : Schema) (name : String) : s.Climbs [] name (s.ancestry name) :=
  climbs_climb (by simp) List.nodup_nil (List.nil_subset _)

def Reaches (s : Schema) : String → String → Prop :=
  Relation.ReflTransGen s.HasParent

theorem hasParent_unique {parent parent' : String} (h : s.HasParent name parent) (h' : s.HasParent name parent') :
    parent = parent' := by
  obtain ⟨m, hm, hparent⟩ := h
  obtain ⟨m', hm', hparent'⟩ := h'
  obtain rfl := Except.ok.inj (hm.symm.trans hm')
  exact Option.some.inj (hparent.symm.trans hparent')

inductive Astray (s : Schema) (name : String) : Error → Prop
  | lost {missing : String} (h : s.Reaches name missing) (hmissing : s.find? missing = none) :
    Astray s name (.unknownModel missing)
  | circle {through : String} (h : s.Reaches name through) (hself : s.Inherits through through) :
    Astray s name (cycleThrough through)

theorem Climbs.astray {r : Except Error (List Model)} (h : s.Climbs passed name r)
    (hpassed : ∀ p ∈ passed, s.Inherits p.name name) : ∀ e, r = .error e → s.Astray name e := by
  induction h with
  | lost h =>
    rintro _ ⟨⟩
    obtain ⟨rfl, hnone⟩ := model_eq_error h
    exact .lost .refl hnone
  | again hm h =>
    rintro _ ⟨⟩
    obtain ⟨p, hp, hname⟩ := List.mem_map.1 h
    obtain ⟨-, rfl⟩ := model_eq_ok hm
    exact .circle .refl (hname ▸ hpassed p hp)
  | root => exact fun _ he => nomatch he
  | @up passed name parent m r hm _ hparent _ ih =>
    have hstep : s.HasParent name parent := ⟨m, hm, hparent⟩
    intro e he
    have hup : s.Astray parent e := by
      refine ih (List.forall_mem_cons.2 ⟨?_, fun p hp => (hpassed p hp).tail hstep⟩) e he
      rw [(model_eq_ok hm).2]
      exact .single hstep
    cases hup with
    | lost h hmissing => exact .lost (.head hstep h) hmissing
    | circle h hself => exact .circle (.head hstep h) hself

theorem astray_of_ancestry {e : Error} (h : s.ancestry name = .error e) : s.Astray name e :=
  (climbs_ancestry s name).astray (List.forall_mem_nil _) e h

theorem inherits_self_of_reaches (hself : s.Inherits name name) (h : s.Reaches name ancestor) :
    s.Inherits ancestor ancestor := by
  induction h with
  | refl => exact hself
  | @tail here parent _ hstep ih =>
    obtain ⟨next, hnext, hback⟩ := Relation.TransGen.head'_iff.1 ih
    obtain rfl := hasParent_unique hstep hnext
    exact .tail' hback hstep

theorem not_inherits_of_missing (hmissing : s.find? missing = none) : ¬s.Inherits missing ancestor := by
  intro h
  obtain ⟨_, ⟨m, hm, -⟩, -⟩ := Relation.TransGen.head'_iff.1 h
  exact nomatch hmissing.symm.trans (model_eq_ok hm).1

theorem eq_of_reaches_missing (hmissing : s.find? missing = none) (h : s.Reaches missing ancestor) : missing = ancestor :=
  ((Relation.reflTransGen_iff_eq_or_transGen.1 h).resolve_right (not_inherits_of_missing hmissing)).symm

theorem reaches_missing (hmissing : s.find? missing = none) (h : s.Reaches name missing) (h' : s.Reaches name ancestor) :
    s.Reaches ancestor missing := by
  rcases Relation.ReflTransGen.total_of_right_unique (r := s.HasParent) (fun _ _ _ => hasParent_unique) h h' with
    hup | hup
  · obtain rfl := eq_of_reaches_missing hmissing hup
    exact .refl
  · exact hup

theorem Chain.of_reaches {chain : List Model} (h : s.Chain name chain) (hreaches : s.Reaches name ancestor) :
    ∃ above, s.Chain ancestor above ∧ above <+: chain := by
  rcases Relation.reflTransGen_iff_eq_or_transGen.1 hreaches with rfl | hinherits
  · exact ⟨chain, h, List.prefix_rfl⟩
  · exact Inherits.chain_begins hinherits h

/-- Nothing with a chain inherits from itself: the chain of the parent would have to hold all of its own. -/
theorem Chain.not_inherits {chain : List Model} (h : s.Chain name chain) : ¬s.Inherits name name := by
  intro hself
  obtain ⟨parent, hstep, hback⟩ := Relation.TransGen.head'_iff.1 hself
  cases h with
  | root hm hroot =>
    obtain ⟨m, hm', hparent⟩ := hstep
    obtain rfl := Except.ok.inj (hm.symm.trans hm')
    exact nomatch hroot.symm.trans hparent
  | @under _ parent' m above hm hparent habove =>
    obtain rfl := hasParent_unique hstep ⟨m, hm, hparent⟩
    obtain ⟨whole, hwhole, hstart⟩ := habove.of_reaches hback
    obtain rfl := hwhole.unique (.under hm hparent habove)
    have hlength := hstart.length_le
    rw [List.length_append, List.length_singleton] at hlength
    omega

theorem ancestry_eq_unknown : s.ancestry name = .error (.unknownModel missing) ↔
    s.Reaches name missing ∧ s.find? missing = none := by
  constructor
  · intro h
    cases astray_of_ancestry h with
    | lost h hmissing => exact ⟨h, hmissing⟩
  · rintro ⟨h, hmissing⟩
    cases hancestry : s.ancestry name with
    | ok chain =>
      obtain ⟨above, habove, -⟩ := (ancestry_eq_ok.1 hancestry).of_reaches h
      obtain ⟨m, hm, hname⟩ := model_of_ancestry (ancestry_eq_ok.2 habove)
      exact absurd (decide_eq_true hname) (List.find?_eq_none.1 hmissing m hm)
    | error e =>
      cases astray_of_ancestry hancestry with
      | lost h' hmissing' => rw [eq_of_reaches_missing hmissing' (reaches_missing hmissing h h')]
      | circle h' hself =>
        exact absurd (inherits_self_of_reaches hself (reaches_missing hmissing h h')) (not_inherits_of_missing hmissing)

end ClaimTables.Schema
