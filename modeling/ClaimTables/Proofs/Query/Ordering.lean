import ClaimTables.Proofs.Query.Outline

/-!
What an order adds to a query. Main statement: the outline of a query for rows is that for their number, with the links
that the paths of the order need besides behind those of the filters; fields and conditions are the same.
-/

namespace ClaimTables

open Joins (names trail variableOf)

namespace Joins

variable {j : Joins} {l : Link}

theorem prefix_add : j.links <+: (j.add l).links := by
  unfold add
  split
  · exact List.prefix_rfl
  · exact List.prefix_append _ _

theorem nodup_add (h : j.links.Nodup) : (j.add l).links.Nodup := by
  unfold add
  split
  · exact h
  · next hnew => simpa only [List.concat_eq_append] using h.concat (by simpa using hnew)

theorem prefix_reachAll {α : Type} (all : List (Reached × α)) (h : j.links.Nodup) :
    j.links <+: (j.reachAll all).1.links ∧ (j.reachAll all).1.links.Nodup := by
  refine reachAll_kept (I := fun j' => j.links <+: j'.links ∧ j'.links.Nodup) (fun j' before name hj' => ?_)
    (fun j' l hj' => ?_) all ⟨List.prefix_rfl, h⟩
  · rwa [links_next]
  · exact ⟨hj'.1.trans prefix_add, nodup_add hj'.2⟩

theorem links_reachAll {α : Type} {paths : List (List String)} (all : List (Reached × α)) (h : j.links.Nodup)
    (hpaths : (j.reachAll all).1.paths <+: paths) : ∃ more, (j.reachAll all).1.links = j.links ++ more ∧
      ∀ l, l ∈ more ↔ l ∉ j.links ∧ ∃ e ∈ all, l ∈ trail paths e.1.target [] e.1.steps := by
  obtain ⟨⟨more, hmore⟩, hnodup⟩ := prefix_reachAll all h
  have hlinked := allLinked_reachAll j all hpaths
  rw [← hmore, List.nodup_append] at hnodup
  refine ⟨more, hmore.symm, fun l => ?_⟩
  have hmem := hlinked.mem_links l
  rw [← hmore, List.mem_append] at hmem
  constructor
  · intro hl
    have hnew : l ∉ j.links := fun hold => hnodup.2.2 l hold l hl rfl
    exact ⟨hnew, (hmem.1 (.inr hl)).resolve_left hnew⟩
  · exact fun ⟨hnew, htrail⟩ => (hmem.2 (.inr htrail)).resolve_left hnew

end Joins

/-- That a query comes to what it sorts by without a link of its own: to the row, to one of its fields, or as a filter does. -/
def Query.SortsAtHand (q : Query) (k : SortKey) : Prop :=
  k.path = Schema.idField ∨ (∃ name, Path.segments k.path = [name]) ∨ k.path ∈ q.filters.map (·.path)

/-- That an outline asks for what another does that sorts nothing, and has more links for its order. -/
structure Outline.Extends (s : Schema) (model : String) (q : Query) (o base : Outline) (more : List Link) : Prop where
  fields : o.fields = base.fields
  links : o.links = base.links ++ more
  constraints : o.constraints = base.constraints
  unsorted : base.order = []
  needed : ∀ l ∈ more, ∃ k ∈ q.order, ∃ f ∈ (Path.walk s model k.path).steps, l.key = f.key
  at_hand : (∀ k ∈ q.order, q.SortsAtHand k) → more = []

section Outline

variable {s : Schema} {model path : String} {q : Query} {fields : List ResolvedField} {o : Outline} {steps : List ResolvedField}
  {target : Target} {paths : List (List String)}

theorem trail_of_single (h : Path.walk s model path = ⟨steps, .ok target⟩)
    (hsingle : path = Schema.idField ∨ ∃ name, Path.segments path = [name]) : trail paths target [] steps = [] := by
  have hone : ∃ name, Path.segments path = [name] := by
    rcases hsingle with rfl | hone
    · exact ⟨_, rfl⟩
    · exact hone
  obtain ⟨name, hname⟩ := hone
  have hfollow := follow_of_walk h
  rw [hname] at hfollow
  rcases follow_eq_ok hfollow with ⟨-, -, rfl, rfl⟩ | ⟨f, -, -, -, ⟨-, rfl, rfl⟩ | ⟨_, _, hrest, -⟩⟩
  · rfl
  · rw [Joins.trail_last ⟨rfl, Target.field_ne_row _⟩, if_pos rfl]
  · exact absurd rfl hrest

theorem Query.outline_extends (ho : q.outline s model fields false = .ok o) :
    ∃ base more, q.outline s model fields true = .ok base ∧ o.Extends s model q base more := by
  obtain ⟨filters, hfilters, h⟩ := ok_of_bind ho
  obtain ⟨order, horder, h⟩ := ok_of_bind h
  obtain rfl := Except.ok.inj h
  have hbase : q.outline s model fields true = .ok (Outline.ofParts fields filters []) := by
    rw [Query.outline, hfilters]
    rfl
  have hlater := Joins.paths_reachAll (Joins.empty.reachAll filters).1 order
  have hnodup := (Joins.prefix_reachAll (j := Joins.empty) filters List.nodup_nil).2
  obtain ⟨more, hlinks, hmore⟩ := Joins.links_reachAll order hnodup List.prefix_rfl
  -- What the order adds are links that the filters have not added, in the order of the sort keys.
  refine ⟨_, more, hbase, rfl, hlinks, rfl, rfl, fun l hl => ?_, fun hhand => List.eq_nil_iff_forall_not_mem.2 fun l hl => ?_⟩
  · obtain ⟨-, e, he, hl⟩ := (hmore l).1 hl
    obtain ⟨k, hk, hread⟩ := exists_of_mem_right (mapM_eq_ok horder) he
    obtain ⟨front, f, back, hsteps, hkey, -⟩ := exists_of_mem_trail hl
    refine ⟨k, hk, f, ?_, hkey⟩
    rw [SortKey.read_eq_ok hread, hsteps]
    exact List.mem_append_right _ List.mem_cons_self
  · obtain ⟨hnew, e, he, hl⟩ := (hmore l).1 hl
    obtain ⟨k, hk, hread⟩ := exists_of_mem_right (mapM_eq_ok horder) he
    have hwalk := SortKey.read_eq_ok hread
    rcases (or_assoc.2 (hhand k hk)) with hsingle | hfilter
    · rw [trail_of_single hwalk hsingle] at hl
      exact List.not_mem_nil hl
    · -- A filter has taken the same path before, and so has added its links.
      obtain ⟨f, hf, hpath⟩ := List.mem_map.1 hfilter
      obtain ⟨e', he', hread'⟩ := exists_of_mem_left (mapM_eq_ok hfilters) hf
      have hsame := (Filter.read_eq_ok hread').1.symm.trans ((congrArg (Path.walk s model) hpath).trans hwalk)
      obtain ⟨hsteps, htarget⟩ := Walk.mk.inj hsame
      refine hnew (((Joins.allLinked_reachAll Joins.empty filters hlater).mem_links l).2 (.inr ⟨e', he', ?_⟩))
      rw [hsteps, Except.ok.inj htarget]
      exact hl

end Outline

end ClaimTables
