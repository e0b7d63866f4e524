import ClaimTables.Proofs.Sparql.Reading

/-!
What a solution of a group shows of the graph, whatever the graph is: what an element binds stays bound, so each pattern
for a claim matches a claim that the solution goes with, and what must not be claimed is not.
-/

namespace ClaimTables

namespace Service

def Mapping.Within (a b : Mapping) : Prop :=
  ∀ v x, a.lookup v = some x → b.lookup v = some x

theorem Mapping.within_merge? {a b c : Mapping} (h : a.merge? b = some c) : a.Within c ∧ b.Within c := by
  unfold merge? at h
  split at h
  · next hall =>
    obtain rfl := Option.some.inj h
    refine ⟨fun v x hx => by rw [List.lookup_append, hx, Option.some_or], fun v x hx => ?_⟩
    cases ha : a.lookup v with
    | none => rw [List.lookup_append, ha, Option.none_or, hx]
    | some y =>
      have hsame : (a.lookup v).all (· = x) = true := List.all_eq_true.1 hall (v, x) (Keyed.mem_of_lookup hx)
      rw [ha, Option.all_some, decide_eq_true_eq] at hsame
      rw [List.lookup_append, ha, Option.some_or, hsame]
  · exact nomatch h

variable {g : Graph} {group : List Element} {e : Element} {μ : Mapping} {found : List Mapping}

theorem exists_of_mem_join {left right : List Mapping} (h : μ ∈ join left right) :
    (∃ a ∈ left, a.Within μ) ∧ ∃ b ∈ right, b.Within μ := by
  obtain ⟨a, ha, h⟩ := List.mem_flatMap.1 h
  obtain ⟨b, hb, h⟩ := List.mem_filterMap.1 h
  exact ⟨⟨a, ha, (Mapping.within_merge? h).1⟩, b, hb, (Mapping.within_merge? h).2⟩

theorem exists_of_mem_leftJoin {left right : List Mapping} (h : μ ∈ leftJoin left right) : ∃ a ∈ left, a.Within μ := by
  obtain ⟨a, ha, h⟩ := List.mem_flatMap.1 h
  dsimp only at h
  split at h
  · exact ⟨a, ha, List.mem_singleton.1 h ▸ fun _ _ hx => hx⟩
  · obtain ⟨b, -, h⟩ := List.mem_filterMap.1 h
    exact ⟨a, ha, (Mapping.within_merge? h).1⟩

def Element.Matches (g : Graph) (μ : Mapping) : Element → Prop
  | .edge e => ∃ b ∈ e.answers g, b.Within μ
  | .path subject first rest goal => ∃ b ∈ pathAnswers g subject first rest goal, b.Within μ
  | _ => True

theorem Element.Matches.within {μ' : Mapping} (h : e.Matches g μ) (hwithin : μ.Within μ') : e.Matches g μ' := by
  cases e with
  | edge | path =>
    obtain ⟨b, hb, hsub⟩ := h
    exact ⟨b, hb, fun v x hx => hwithin v x (hsub v x hx)⟩
  | optional | notExists | filter => trivial

theorem Element.exists_of_mem_extend (h : μ ∈ e.extend g found) : (∃ a ∈ found, a.Within μ) ∧ e.Matches g μ := by
  cases e with
  | edge | path => exact exists_of_mem_join h
  | optional => exact ⟨exists_of_mem_leftJoin h, trivial⟩
  | notExists | filter => exact ⟨⟨μ, h, fun _ _ hx => hx⟩, trivial⟩

theorem matches_of_mem_foldl (h : μ ∈ group.foldl (Element.extend g) found) :
    (∃ a ∈ found, a.Within μ) ∧ ∀ e ∈ group, e.Matches g μ := by
  induction group generalizing found with
  | nil => exact ⟨⟨μ, h, fun _ _ hx => hx⟩, List.forall_mem_nil _⟩
  | cons e rest ih =>
    obtain ⟨⟨a, ha, hwithin⟩, hrest⟩ := ih h
    obtain ⟨⟨b, hb, hfirst⟩, hmatches⟩ := Element.exists_of_mem_extend ha
    exact ⟨⟨b, hb, fun v x hx => hwithin v x (hfirst v x hx)⟩, List.forall_mem_cons.2 ⟨hmatches.within hwithin, hrest⟩⟩

theorem matches_of_mem_solutions (h : μ ∈ solutions g group) (he : e ∈ group) :
    e.Matches g μ ∧ e.passes g μ = true := by
  obtain ⟨hmem, hpasses⟩ := List.mem_filter.1 h
  exact ⟨(matches_of_mem_foldl hmem).2 e he, List.all_eq_true.1 hpasses e he⟩

theorem mem_answers_constant {v : String} {p : PropertyId} {c : Node} {b : Mapping} :
    b ∈ Edge.answers g ⟨.variable v, p, .constant c⟩ ↔ ∃ n, g.Step p n c ∧ b = [(v, n)] := by
  rw [Edge.answers, List.mem_filterMap]
  constructor
  · rintro ⟨⟨n, q, o⟩, ht, h⟩
    by_cases hp : q = p
    · by_cases hc : c = o
      · subst hp hc
        exact ⟨n, ht, by simpa [Slot.match?, Mapping.merge?, eq_comm] using h⟩
      · simp [hp, Slot.match?, hc] at h
    · simp [hp] at h
  · rintro ⟨n, hstep, rfl⟩
    exact ⟨⟨n, p, c⟩, hstep, by simp [Slot.match?, Mapping.merge?]⟩

theorem exists_of_mem_pathAnswers {v : String} {first rest : PropertyId} {goal : Node} {b : Mapping}
    (h : b ∈ pathAnswers g (.variable v) first rest goal) :
    ∃ n y, g.Step first n y ∧ g.Reaches rest y goal ∧ b = [(v, n)] := by
  obtain ⟨⟨n, q, y⟩, ht, hmatch⟩ := List.mem_filterMap.1 h
  split at hmatch
  · next hpath =>
    obtain ⟨rfl, hreaches⟩ := hpath
    exact ⟨n, y, ht, Graph.reaches_iff.1 hreaches, (Option.some.inj hmatch).symm⟩
  · exact nomatch hmatch

end Service

namespace Sparql

open Service

variable {g : Graph} {group : List Element} {μ : Mapping} {v : Variable} {n : Node}

theorem lookup_of_within {x : Node} (h : Mapping.Within [(v.name, n)] μ) (hx : μ.lookup v.name = some x) : n = x :=
  Option.some.inj ((h v.name n List.lookup_cons_self).symm.trans hx)

theorem instance_of_solution {p q : PropertyId} {type : ItemId} (h : μ ∈ solutions g group)
    (hp : (Pattern.instance v p q type).element ∈ group) (hv : μ.lookup v.name = some n) :
    ∃ y, g.Step p n y ∧ g.Reaches q y (.item type) := by
  obtain ⟨b, hb, hwithin⟩ := (matches_of_mem_solutions h hp).1
  obtain ⟨x, y, hstep, hreaches, rfl⟩ := exists_of_mem_pathAnswers hb
  obtain rfl := lookup_of_within hwithin hv
  exact ⟨y, hstep, hreaches⟩

theorem tag_of_solution {p : PropertyId} {tag : String} (h : μ ∈ solutions g group)
    (hp : (Pattern.tagged v p tag).element ∈ group) (hv : μ.lookup v.name = some n) : g.Step p n (.text tag) := by
  obtain ⟨b, hb, hwithin⟩ := (matches_of_mem_solutions h hp).1
  obtain ⟨x, hstep, rfl⟩ := mem_answers_constant.1 hb
  obtain rfl := lookup_of_within hwithin hv
  exact hstep

theorem untagged_of_solution {p : PropertyId} {tag : String} (h : μ ∈ solutions g group)
    (hp : (Pattern.untagged v p tag).element ∈ group) (hv : μ.lookup v.name = some n) : ¬g.Step p n (.text tag) := by
  intro hstep
  have hnone := List.all_eq_true.1 (matches_of_mem_solutions h hp).2 [(v.name, n)] (mem_answers_constant.2 ⟨n, hstep, rfl⟩)
  simp [Mapping.merge?, hv] at hnone

end Sparql

end ClaimTables
