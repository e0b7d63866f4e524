import Mathlib.Data.List.Perm.Subperm
import Mathlib.Logic.Relation
import ClaimTables.Proofs.Query.Translation
import ClaimTables.Proofs.Schema.Valid

/-!
Inheritance as a relation. What the walk up from a model finds is the one chain from a root down to the model, and what
the search downwards collects are the models whose chain passes the model. So descendants have what a model has.
-/

namespace ClaimTables

theorem Keyed.perm_insert {α : Type} {key : String} {entries : List (String × α)} (h : entries.lookup key = none)
    (value : α) : (insert key value entries).Perm ((key, value) :: entries) := by
  induction entries with
  | nil => exact .refl _
  | cons entry rest ih =>
    rw [List.lookup_eq_none_iff, List.forall_mem_cons] at h
    rw [insert]
    split
    · exact .refl _
    · rw [if_neg (bne_iff_ne.1 h.1)]
      exact ((ih (List.lookup_eq_none_iff.2 h.2)).cons entry).trans (.swap _ _ _)

namespace Schema

theorem nodup_declare {seen entries : List (String × Model)} {models : List Model} (h : declare seen models = .ok entries)
    (hnodup : (seen.map (·.1)).Nodup) (hnames : ∀ e ∈ seen, e.1 = e.2.name) :
    (entries.map (·.1)).Nodup ∧ ∀ e ∈ entries, e.1 = e.2.name := by
  induction models generalizing seen with
  | nil =>
    obtain rfl := Except.ok.inj h
    exact ⟨hnodup, hnames⟩
  | cons m rest ih =>
    rw [declare] at h
    split at h
    · cases h
    · split at h
      · cases h
      · next hnew =>
        rw [Bool.not_eq_true, Option.isSome_eq_false_iff, Option.isNone_iff_eq_none] at hnew
        refine ih h ?_ fun e he => ?_
        · refine ((Keyed.perm_insert hnew m).map (·.1)).nodup_iff.2 (List.nodup_cons.2 ⟨fun hmem => ?_, hnodup⟩)
          obtain ⟨e, he, hkey⟩ := List.mem_map.1 hmem
          exact bne_iff_ne.1 (List.lookup_eq_none_iff.1 hnew e he) hkey.symm
        · rcases Keyed.mem_insert he with rfl | he
          · rfl
          · exact hnames e he

theorem nodup_of_ofModels {models : List Model} {s : Schema} (h : ofModels models = .ok s) :
    (s.models.map (·.name)).Nodup := by
  obtain ⟨entries, hentries, hchecked⟩ := ok_of_bind h
  obtain ⟨_, -, hs⟩ := ok_of_bind hchecked
  obtain rfl := Except.ok.inj hs
  obtain ⟨hnodup, hnames⟩ := nodup_declare hentries List.nodup_nil (by simp)
  have hkeys : (entries.map (·.2)).map (·.name) = entries.map (·.1) := by
    rw [List.map_map]
    exact List.map_congr_left fun e he => (hnames e he).symm
  rwa [hkeys]

variable {s : Schema} {name ancestor : String} {chain chain' above : List Model} {m : Model}

theorem model_of_mem (hnames : (s.models.map (·.name)).Nodup) (hm : m ∈ s.models) : s.model m.name = .ok m := by
  cases hfound : s.find? m.name with
  | none => exact absurd (decide_eq_true rfl) (List.find?_eq_none.1 hfound m hm)
  | some found =>
    have hname : found.name = m.name := by simpa using List.find?_some hfound
    obtain rfl := List.inj_on_of_nodup_map hnames (List.mem_of_find?_eq_some hfound) hm hname
    rw [model, hfound]

inductive Chain (s : Schema) : String → List Model → Prop
  | root {name : String} {m : Model} (hm : s.model name = .ok m) (hparent : m.parent = none) : Chain s name [m]
  | under {name parent : String} {m : Model} {chain : List Model} (hm : s.model name = .ok m)
    (hparent : m.parent = some parent) (h : Chain s parent chain) : Chain s name (chain ++ [m])

namespace Chain

theorem unique (h : s.Chain name chain) (h' : s.Chain name chain') : chain = chain' := by
  induction h generalizing chain' with
  | root hm hparent =>
    cases h' with
    | root hm' => rw [Except.ok.inj (hm.symm.trans hm')]
    | under hm' hparent' =>
      obtain rfl := Except.ok.inj (hm.symm.trans hm')
      exact nomatch hparent.symm.trans hparent'
  | under hm hparent _ ih =>
    cases h' with
    | root hm' hparent' =>
      obtain rfl := Except.ok.inj (hm.symm.trans hm')
      exact nomatch hparent.symm.trans hparent'
    | under hm' hparent' h' =>
      obtain rfl := Except.ok.inj (hm.symm.trans hm')
      obtain rfl := Option.some.inj (hparent.symm.trans hparent')
      rw [ih h']

theorem subset (h : s.Chain name chain) : chain ⊆ s.models := by
  have hmem : ∀ {name : String} {m : Model}, s.model name = .ok m → m ∈ s.models := fun hm =>
    List.mem_of_find?_eq_some (model_eq_ok hm).1
  induction h with
  | root hm => simpa using hmem hm
  | under hm _ _ ih => simpa using ⟨ih, hmem hm⟩

theorem of_mem (h : s.Chain name chain) (hm : m ∈ chain) : ∃ above, s.Chain m.name above ∧ above <+: chain := by
  induction h with
  | root hlast hparent =>
    obtain rfl := List.mem_singleton.1 hm
    rw [(model_eq_ok hlast).2]
    exact ⟨_, .root hlast hparent, List.prefix_rfl⟩
  | under hlast hparent h ih =>
    rcases List.mem_append.1 hm with hm | hm
    · obtain ⟨above, habove, hstart⟩ := ih hm
      exact ⟨above, habove, hstart.trans (List.prefix_append _ _)⟩
    · obtain rfl := List.mem_singleton.1 hm
      rw [(model_eq_ok hlast).2]
      exact ⟨_, .under hlast hparent h, List.prefix_rfl⟩

theorem nodup (h : s.Chain name chain) : (chain.map (·.name)).Nodup := by
  induction h with
  | root => exact List.nodup_singleton _
  | @under name parent m chain hm hparent h ih =>
    rw [List.map_append, List.nodup_append]
    refine ⟨ih, List.nodup_singleton _, fun n hn n' hn' hsame => ?_⟩
    obtain ⟨twin, htwin, rfl⟩ := List.mem_map.1 hn
    obtain ⟨above, habove, hstart⟩ := h.of_mem htwin
    have hname : twin.name = name := hsame.trans ((List.mem_singleton.1 hn').trans (model_eq_ok hm).2)
    obtain rfl := (hname ▸ habove).unique (.under hm hparent h)
    have hlength := hstart.length_le
    rw [List.length_append, List.length_singleton] at hlength
    omega

theorem length_le (h : s.Chain name chain) : chain.length ≤ s.models.length :=
  ((List.Nodup.of_map _ h.nodup).subperm h.subset).length_le

theorem mem_last (h : s.Chain name chain) : ∃ m ∈ chain, m.name = name := by
  cases h with
  | root hm => exact ⟨_, List.mem_singleton_self _, (model_eq_ok hm).2⟩
  | under hm => exact ⟨_, List.mem_append_right _ (List.mem_singleton_self _), (model_eq_ok hm).2⟩

theorem climb (h : s.Chain name chain) {fuel : Nat} (hfuel : chain.length ≤ fuel) {passed : List Model}
    (hpassed : ∀ m ∈ chain, ∀ p ∈ passed, p.name ≠ m.name) : s.climb fuel passed name = .ok (chain ++ passed) := by
  induction h generalizing fuel passed with
  | @root name m hm hparent =>
    obtain ⟨fuel, rfl⟩ : ∃ k, fuel = k + 1 := ⟨fuel - 1, (Nat.sub_add_cancel hfuel).symm⟩
    have hnew : passed.any (·.name = m.name) = false := by simpa using hpassed
    rw [Schema.climb, hm]
    dsimp only
    rw [hnew, if_neg Bool.false_ne_true, hparent]
    rfl
  | @under name parent m chain hm hparent h ih =>
    rw [List.length_append, List.length_singleton] at hfuel
    obtain ⟨fuel, rfl⟩ : ∃ k, fuel = k + 1 := ⟨fuel - 1, by omega⟩
    have hnew : passed.any (·.name = m.name) = false := by
      simpa using hpassed m (by simp)
    -- A model of a chain comes once in it, so what is passed on the way up is never met again.
    have hrest : ∀ m' ∈ chain, ∀ p ∈ m :: passed, p.name ≠ m'.name := by
      intro m' hm' p hp
      rcases List.mem_cons.1 hp with rfl | hp
      · have hnodup := (Chain.under hm hparent h).nodup
        rw [List.map_append, List.nodup_append] at hnodup
        exact (hnodup.2.2 _ (List.mem_map_of_mem hm') _ (List.mem_singleton_self _)).symm
      · exact hpassed m' (List.mem_append_left _ hm') p hp
    rw [Schema.climb, hm]
    dsimp only
    rw [hnew, if_neg Bool.false_ne_true, hparent]
    dsimp only
    rw [ih (by omega) hrest, List.append_assoc]
    rfl

end Chain

theorem chain_of_climb {fuel : Nat} {passed out : List Model} (h : s.climb fuel passed name = .ok out) :
    ∃ chain, s.Chain name chain ∧ out = chain ++ passed := by
  induction fuel generalizing passed name with
  | zero => cases h
  | succ fuel ih =>
    rw [climb] at h
    split at h
    · cases h
    · next m hm =>
      split at h
      · cases h
      · split at h
        · next hparent => exact ⟨[m], .root hm hparent, (Except.ok.inj h).symm⟩
        · next parent hparent =>
          obtain ⟨chain, hchain, rfl⟩ := ih h
          exact ⟨chain ++ [m], .under hm hparent hchain, by simp⟩

theorem ancestry_eq_ok : s.ancestry name = .ok chain ↔ s.Chain name chain := by
  constructor
  · intro h
    obtain ⟨found, hfound, rfl⟩ := chain_of_climb h
    rwa [List.append_nil]
  · intro h
    rw [ancestry, h.climb (Nat.le_succ_of_le h.length_le) (by simp), List.append_nil]

theorem fields_eq_ok {fields : List ResolvedField} :
    s.fields name = .ok fields ↔ ∃ chain, s.Chain name chain ∧ fields = chain.flatMap declared := by
  constructor
  · intro h
    obtain ⟨chain, hchain, rfl⟩ := ancestry_of_fields h
    exact ⟨chain, ancestry_eq_ok.1 hchain, rfl⟩
  · rintro ⟨chain, hchain, rfl⟩
    rw [Schema.fields, ancestry_eq_ok.2 hchain]
    rfl

theorem Chain.getLast?_eq (h : s.Chain name chain) (hm : s.model name = .ok m) : chain.getLast? = some m := by
  cases h with
  | root hm' => rw [Except.ok.inj (hm.symm.trans hm'), List.getLast?_singleton]
  | under hm' => rw [Except.ok.inj (hm.symm.trans hm'), List.getLast?_concat]

theorem Chain.mem_of_model (h : s.Chain name chain) (hm : s.model name = .ok m) : m ∈ chain :=
  List.mem_of_getLast? (h.getLast?_eq hm)

theorem Chain.parent_of_append {rest : List Model} (h : s.Chain name (above ++ m :: rest)) :
    m.parent = above.getLast?.map (·.name) := by
  generalize hchain : above ++ m :: rest = chain at h
  induction h generalizing rest with
  | root _ hparent =>
    cases above with
    | nil =>
      obtain ⟨rfl, -⟩ := List.cons.inj hchain
      exact hparent
    | cons first above => simp at hchain
  | @under _ parent last chain _ hparent h ih =>
    rcases List.eq_nil_or_concat rest with rfl | ⟨rest, last', rfl⟩
    · obtain ⟨rfl, hlast⟩ := List.append_inj' hchain rfl
      obtain ⟨rfl, -⟩ := List.cons.inj hlast
      obtain ⟨top, htop, hname⟩ := getLast?_ancestry (ancestry_eq_ok.2 h)
      rw [hparent, htop, Option.map_some, hname]
    · rw [List.concat_eq_append, ← List.cons_append, ← List.append_assoc] at hchain
      exact ih (List.append_inj' hchain rfl).1

def HasParent (s : Schema) (name parent : String) : Prop :=
  ∃ m, s.model name = .ok m ∧ m.parent = some parent

def Inherits (s : Schema) : String → String → Prop :=
  Relation.TransGen s.HasParent

theorem Inherits.chain_begins (h : s.Inherits name ancestor) (hchain : s.Chain name chain) :
    ∃ above, s.Chain ancestor above ∧ above <+: chain := by
  have hstep : ∀ {name parent : String} {chain : List Model}, s.HasParent name parent → s.Chain name chain →
      ∃ above, s.Chain parent above ∧ above <+: chain := by
    rintro name parent chain ⟨m, hm, hparent⟩ hchain
    cases hchain with
    | root hm' hroot =>
      obtain rfl := Except.ok.inj (hm.symm.trans hm')
      exact nomatch hparent.symm.trans hroot
    | under hm' hparent' h =>
      obtain rfl := Except.ok.inj (hm.symm.trans hm')
      obtain rfl := Option.some.inj (hparent.symm.trans hparent')
      exact ⟨_, h, List.prefix_append _ _⟩
  induction h using Relation.TransGen.head_induction_on generalizing chain with
  | single h => exact hstep h hchain
  | head h _ ih =>
    obtain ⟨between, hbetween, hstart⟩ := hstep h hchain
    obtain ⟨above, habove, hstart'⟩ := ih hbetween
    exact ⟨above, habove, hstart'.trans hstart⟩

theorem Chain.inherits (h : s.Chain name chain) (hm : m ∈ chain) : m.name = name ∨ s.Inherits name m.name := by
  induction h with
  | root hlast =>
    obtain rfl := List.mem_singleton.1 hm
    exact .inl (model_eq_ok hlast).2
  | under hlast hparent _ ih =>
    rcases List.mem_append.1 hm with hm | hm
    · refine .inr ((ih hm).elim (fun hname => ?_) fun h => .head ⟨_, hlast, hparent⟩ h)
      exact hname ▸ .single ⟨_, hlast, hparent⟩
    · obtain rfl := List.mem_singleton.1 hm
      exact .inl (model_eq_ok hlast).2

/-- What has been collected of the models below one, and the names whose children are still to be looked at. -/
structure Collected (s : Schema) (ancestor : String) (found : List Model) (stack : List String) : Prop where
  below : ∀ m ∈ found, m ∈ s.models ∧ s.Inherits m.name ancestor
  nodup : (found.map (·.name)).Nodup
  stacked : ∀ n ∈ stack, n = ancestor ∨ n ∈ found.map (·.name)
  closed : ∀ n, n = ancestor ∨ n ∈ found.map (·.name) → n ∈ stack ∨ ∀ m ∈ s.children n, m.name ∈ found.map (·.name)

namespace Collected

variable {found : List Model} {stack : List String}

theorem length_le (h : s.Collected ancestor found stack) : found.length ≤ s.models.length :=
  ((List.Nodup.of_map _ h.nodup).subperm fun m hm => (h.below m hm).1).length_le

theorem step (hnames : (s.models.map (·.name)).Nodup) (h : s.Collected ancestor found (name :: stack)) {fresh : List Model}
    (hfresh : fresh = (s.children name).filter fun m => !found.any (·.name = m.name)) :
    s.Collected ancestor (found ++ fresh) ((fresh.map (·.name)).reverse ++ stack) := by
  have hmem : ∀ {m}, m ∈ fresh ↔ m ∈ s.children name ∧ m.name ∉ found.map (·.name) := by
    intro m
    simp [hfresh]
  have hchild : ∀ {m}, m ∈ s.children name → m ∈ s.models ∧ m.parent = some name := by
    simp [children]
  have hall : ∀ n, n ∈ (found ++ fresh).map (·.name) ↔ n ∈ found.map (·.name) ∨ n ∈ fresh.map (·.name) := by
    simp only [List.map_append, List.mem_append, implies_true]
  refine ⟨fun m hm => ?below, ?nodup, fun n hn => ?stacked, fun n hn => ?closed⟩
  case below =>
    rcases List.mem_append.1 hm with hm | hm
    · exact h.below m hm
    · obtain ⟨hmodel, hparent⟩ := hchild (hmem.1 hm).1
      have hstep : s.HasParent m.name name := ⟨m, model_of_mem hnames hmodel, hparent⟩
      refine ⟨hmodel, ?_⟩
      rcases h.stacked name List.mem_cons_self with rfl | hname
      · exact .single hstep
      · obtain ⟨parent, hfound, rfl⟩ := List.mem_map.1 hname
        exact .head hstep (h.below parent hfound).2
  case nodup =>
    rw [List.map_append, List.nodup_append]
    refine ⟨h.nodup, ?_, fun n hn n' hn' hsame => ?_⟩
    · have hsub : fresh.Sublist s.models := hfresh ▸ List.filter_sublist.trans List.filter_sublist
      exact hnames.sublist (hsub.map _)
    · obtain ⟨m, hm, rfl⟩ := List.mem_map.1 hn'
      exact (hmem.1 hm).2 (hsame ▸ hn)
  case stacked =>
    rw [hall]
    rcases List.mem_append.1 hn with hn | hn
    · exact .inr (.inr (List.mem_reverse.1 hn))
    · exact (h.stacked n (List.mem_cons_of_mem _ hn)).imp_right .inl
  case closed =>
    -- Of the children of `name` those that are new are on the stack now, and the others were found before.
    rw [hall] at hn
    rcases or_assoc.2 hn with hn | hn
    · rcases h.closed n hn with hstack | hclosed
      · rcases List.mem_cons.1 hstack with rfl | hstack
        · refine .inr fun m hm => (hall _).2 ?_
          by_cases hknown : m.name ∈ found.map (·.name)
          · exact .inl hknown
          · exact .inr (List.mem_map_of_mem (hmem.2 ⟨hm, hknown⟩))
        · exact .inl (List.mem_append_right _ hstack)
      · exact .inr fun m hm => (hall _).2 (.inl (hclosed m hm))
    · exact .inl (List.mem_append_left _ (List.mem_reverse.2 hn))

theorem collect (hnames : (s.models.map (·.name)).Nodup) {fuel : Nat} (h : s.Collected ancestor found stack)
    (hfuel : stack.length + (s.models.length - found.length) ≤ fuel) :
    s.Collected ancestor (s.collect fuel found stack) [] := by
  induction fuel generalizing found stack with
  | zero =>
    obtain rfl : stack = [] := List.eq_nil_of_length_eq_zero (by omega)
    exact h
  | succ fuel ih =>
    cases stack with
    | nil => exact h
    | cons name stack =>
      have hstep := h.step hnames rfl
      have hlength := hstep.length_le
      refine ih hstep ?_
      rw [List.length_cons] at hfuel
      simp only [List.length_append, List.length_reverse, List.length_map] at hlength ⊢
      omega

theorem mem_of_inherits (h : s.Collected ancestor found []) (hname : s.Inherits name ancestor) :
    name ∈ found.map (·.name) := by
  have hchild : ∀ {name parent : String}, s.HasParent name parent → parent = ancestor ∨ parent ∈ found.map (·.name) →
      name ∈ found.map (·.name) := by
    rintro name parent ⟨m, hm, hparent⟩ hn
    obtain ⟨hfind, rfl⟩ := model_eq_ok hm
    have hmem : m ∈ s.children parent := by simpa [children] using ⟨List.mem_of_find?_eq_some hfind, hparent⟩
    exact (h.closed parent hn).resolve_left List.not_mem_nil m hmem
  induction hname using Relation.TransGen.head_induction_on with
  | single hstep => exact hchild hstep (.inl rfl)
  | head hstep _ ih => exact hchild hstep (.inr ih)

end Collected

theorem collected_descendants (hnames : (s.models.map (·.name)).Nodup) (ancestor : String) :
    s.Collected ancestor (s.descendants ancestor) [] := by
  refine Collected.collect hnames ⟨by simp, List.nodup_nil, by simp, ?_⟩ (by simp [Nat.add_comm])
  rintro n (rfl | hn)
  · exact .inl (List.mem_singleton_self n)
  · exact absurd hn List.not_mem_nil

theorem mem_descendants (hnames : (s.models.map (·.name)).Nodup) :
    m ∈ s.descendants ancestor ↔ m ∈ s.models ∧ s.Inherits m.name ancestor := by
  have hcollected := collected_descendants hnames ancestor
  refine ⟨hcollected.below m, fun ⟨hm, hinherits⟩ => ?_⟩
  obtain ⟨found, hfound, hname⟩ := List.mem_map.1 (hcollected.mem_of_inherits hinherits)
  rwa [← List.inj_on_of_nodup_map hnames (hcollected.below found hfound).1 hm hname]

theorem mem_descendants_names (hnames : (s.models.map (·.name)).Nodup) :
    name ∈ (s.descendants ancestor).map (·.name) ↔ s.Inherits name ancestor := by
  refine ⟨fun h => ?_, (collected_descendants hnames ancestor).mem_of_inherits⟩
  obtain ⟨m, hm, rfl⟩ := List.mem_map.1 h
  exact ((mem_descendants hnames).1 hm).2

theorem Valid.exists_chain (hs : s.Valid) (hm : m ∈ s.models) : ∃ chain, s.Chain m.name chain := by
  obtain ⟨_, _, hrest⟩ := ok_of_bind (hs m hm)
  obtain ⟨fields, hfields, _⟩ := ok_of_bind hrest
  obtain ⟨chain, hchain, -⟩ := ancestry_of_fields hfields
  exact ⟨chain, ancestry_eq_ok.1 hchain⟩

theorem Valid.chain_of_descendant (hs : s.Valid) (hnames : (s.models.map (·.name)).Nodup) (habove : s.Chain ancestor above)
    (hname : name ∈ ancestor :: (s.descendants ancestor).map (·.name)) : ∃ chain, s.Chain name chain ∧ above <+: chain := by
  rcases List.mem_cons.1 hname with rfl | hname
  · exact ⟨above, habove, List.prefix_rfl⟩
  · obtain ⟨m, hm, rfl⟩ := List.mem_map.1 hname
    obtain ⟨hmodel, hinherits⟩ := (mem_descendants hnames).1 hm
    obtain ⟨chain, hchain⟩ := hs.exists_chain hmodel
    obtain ⟨above', habove', hstart⟩ := hinherits.chain_begins hchain
    exact ⟨chain, hchain, habove.unique habove' ▸ hstart⟩

theorem Chain.mem_descendants (hnames : (s.models.map (·.name)).Nodup) (h : s.Chain name chain) (hm : m ∈ chain) :
    name ∈ m.name :: (s.descendants m.name).map (·.name) := by
  rcases h.inherits hm with rfl | hinherits
  · exact List.mem_cons_self
  · exact List.mem_cons_of_mem _ ((mem_descendants_names hnames).2 hinherits)

theorem Valid.field_below (hs : s.Valid) (hnames : (s.models.map (·.name)).Nodup) {fields : List ResolvedField}
    (hfields : s.fields ancestor = .ok fields) {f : ResolvedField} (hf : f ∈ fields)
    (hname : name ∈ ancestor :: (s.descendants ancestor).map (·.name)) : s.field name f.field.name = .ok f := by
  obtain ⟨above, habove, rfl⟩ := fields_eq_ok.1 hfields
  obtain ⟨_, hchain, rest, rfl⟩ := hs.chain_of_descendant hnames habove hname
  refine hs.field_of_mem (fields_eq_ok.2 ⟨_, hchain, rfl⟩) ?_
  rw [List.flatMap_append]
  exact List.mem_append_left _ hf

theorem Valid.field_of_descendant (hs : s.Valid) (hnames : (s.models.map (·.name)).Nodup) {model field : String}
    {f : ResolvedField} (hf : s.field model field = .ok f)
    (hname : name ∈ f.declaredBy :: (s.descendants f.declaredBy).map (·.name)) : s.field name field = .ok f := by
  obtain ⟨fields, hfields, hmem, rfl⟩ := field_eq_ok hf
  obtain ⟨chain, hchain, rfl⟩ := fields_eq_ok.1 hfields
  obtain ⟨m, hm, hdeclared⟩ := List.mem_flatMap.1 hmem
  obtain ⟨field, -, rfl⟩ := List.mem_map.1 hdeclared
  obtain ⟨above, habove, -⟩ := hchain.of_mem hm
  have hmodel := habove.mem_of_model (model_of_mem_ancestry (ancestry_eq_ok.2 hchain) hm)
  exact hs.field_below hnames (fields_eq_ok.2 ⟨above, habove, rfl⟩) (List.mem_flatMap.2 ⟨m, hmodel, hdeclared⟩) hname

end Schema

end ClaimTables
