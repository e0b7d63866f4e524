import Mathlib.Data.List.Basic
import ClaimTables.Query.Outline

/-!
What the joins of a query are in the end: the links of all its paths, no matter how the paths share their
beginnings. A link starts at the row or where an earlier link was followed to.
-/

namespace ClaimTables

open Sparql (Variable)

namespace Link

def subject : Link → Variable
  | .follow s _ _ | .value s _ _ => s

def key : Link → FieldKey
  | .follow _ k _ | .value _ k _ => k

def object : Link → Variable
  | .follow _ _ o | .value _ _ o => o

end Link

namespace Joins

def names (steps : List ResolvedField) : List String :=
  steps.map (·.field.name)

def variableOf (paths : List (List String)) : List String → Variable
  | [] => .item
  | [name] => .field name
  | path => .join (paths.idxOf path)

def trail (paths : List (List String)) (target : Target) : (before : List String) → List ResolvedField → List Link
  | _, [] => []
  | before, f :: rest =>
    let path := before ++ [f.field.name]
    if rest = [] ∧ target ≠ .row then
      if before = [] then [] else [.value (variableOf paths before) f.key (variableOf paths path)]
    else .follow (variableOf paths before) f.key (variableOf paths path) :: trail paths target path rest

def Placed (paths : List (List String)) (path : List String) : Prop :=
  path.length ≤ 1 ∨ path ∈ paths

theorem getElem?_idxOf {paths : List (List String)} {a b : String} {rest : List String}
    (h : Placed paths (a :: b :: rest)) : paths[paths.idxOf (a :: b :: rest)]? = some (a :: b :: rest) := by
  have hmem : (a :: b :: rest) ∈ paths := h.resolve_left (by simp)
  rw [List.getElem?_eq_getElem (List.idxOf_lt_length_of_mem hmem), List.getElem_idxOf]

def Held (links : List Link) (v : Variable) : Prop :=
  v = .item ∨ ∃ s k, Link.follow s k v ∈ links

/-- That every link starts at a variable that is held by the links before it. -/
inductive Rooted : List Link → Prop where
  | nil : Rooted []
  | concat {links : List Link} {l : Link} : Rooted links → Held links l.subject → Rooted (links ++ [l])

theorem Held.mono {links later : List Link} {v : Variable} (h : Held links v) (hsub : links ⊆ later) : Held later v :=
  h.imp id fun ⟨s, k, hmem⟩ => ⟨s, k, hsub hmem⟩

section Add

variable {j : Joins} {l : Link}

theorem mem_add {m : Link} : m ∈ (j.add l).links ↔ m ∈ j.links ∨ m = l := by
  unfold add
  split
  · next h => exact ⟨.inl, fun hm => hm.elim id fun heq => heq ▸ List.contains_iff_mem.1 h⟩
  · rw [List.mem_append, List.mem_singleton]

theorem paths_add : (j.add l).paths = j.paths := by
  unfold add
  split <;> rfl

theorem rooted_add (h : Rooted j.links) (hl : Held j.links l.subject) : Rooted (j.add l).links := by
  unfold add
  split
  · exact h
  · exact h.concat hl

end Add

def next (j : Joins) (before : List String) (name : String) : Joins × Variable :=
  if before = [] then (j, .field name) else j.place (before ++ [name])

theorem link_cons (target : Target) (j : Joins) (subject : Variable) (before : List String) (f : ResolvedField)
    (rest : List ResolvedField) :
    link target j subject before (f :: rest) =
      if rest = [] ∧ target ≠ .row then
        (if before = [] then (j.next before f.field.name).1
          else (j.next before f.field.name).1.add (.value subject f.key (j.next before f.field.name).2),
          (j.next before f.field.name).2)
      else link target ((j.next before f.field.name).1.add (.follow subject f.key (j.next before f.field.name).2))
        (j.next before f.field.name).2 (before ++ [f.field.name]) rest := rfl

section Next

variable {j : Joins} {before : List String} {name : String}

theorem links_next : (j.next before name).1.links = j.links := by
  unfold next place
  split
  · rfl
  · split <;> rfl

theorem paths_next : j.paths <+: (j.next before name).1.paths := by
  unfold next place
  split
  · exact List.prefix_rfl
  · split
    · exact List.prefix_rfl
    · exact List.prefix_append _ _

theorem idxOf?_eq_some {paths : List (List String)} {path : List String} {n : Nat} (h : paths.idxOf? path = some n) :
    path ∈ paths ∧ n = paths.idxOf path := by
  induction paths generalizing n with
  | nil => exact nomatch h
  | cons first rest ih =>
    rw [List.idxOf?_cons] at h
    by_cases heq : first = path
    · rw [if_pos (beq_iff_eq.2 heq)] at h
      rw [heq, List.idxOf_cons_self]
      exact ⟨List.mem_cons_self, (Option.some.inj h).symm⟩
    · rw [if_neg (mt beq_iff_eq.1 heq)] at h
      obtain ⟨k, hk, rfl⟩ := Option.map_eq_some_iff.1 h
      obtain ⟨hmem, rfl⟩ := ih hk
      exact ⟨List.mem_cons_of_mem _ hmem, (List.idxOf_cons_ne _ heq).symm⟩

theorem next_eq {paths : List (List String)} (hpaths : (j.next before name).1.paths <+: paths) :
    (j.next before name).2 = variableOf paths (before ++ [name]) ∧ Placed paths (before ++ [name]) := by
  cases before with
  | nil => exact ⟨rfl, .inl (Nat.le_refl 1)⟩
  | cons b before =>
    have hvariable : variableOf paths (b :: before ++ [name]) = .join (paths.idxOf (b :: before ++ [name])) := by
      cases before <;> rfl
    rw [next, if_neg (List.cons_ne_nil _ _)] at hpaths ⊢
    rw [hvariable]
    unfold place at hpaths ⊢
    split at hpaths
    · next n hn =>
      obtain ⟨hmem, rfl⟩ := idxOf?_eq_some hn
      exact ⟨congrArg Variable.join (hpaths.idxOf_eq_of_mem hmem), .inr (hpaths.subset hmem)⟩
    · next hnone =>
      have hnew := List.idxOf?_eq_none_iff.1 hnone
      have hmem : (b :: before ++ [name]) ∈ j.paths ++ [b :: before ++ [name]] := by simp
      have hplace := hpaths.idxOf_eq_of_mem hmem
      rw [List.idxOf_append_of_notMem hnew, List.idxOf_cons_self] at hplace
      exact ⟨congrArg Variable.join hplace, .inr (hpaths.subset hmem)⟩

end Next

section Kept

variable {I : Joins → Prop} {j : Joins} (hnext : ∀ j before name, I j → I (j.next before name).1)
  (hadd : ∀ j l, I j → I (j.add l))

include hnext hadd

/-- What holds of joins whatever variable or link is added to them holds after the links of a path are added. -/
theorem link_kept (target : Target) (subject : Variable) (before : List String) (steps : List ResolvedField)
    (h : I j) : I (link target j subject before steps).1 := by
  induction steps generalizing j subject before with
  | nil => exact h
  | cons f rest ih =>
    have hmade := hnext j before f.field.name h
    rw [link_cons]
    split
    · dsimp only
      split
      · exact hmade
      · exact hadd _ _ hmade
    · exact ih _ _ (hadd _ _ hmade)

theorem reachAll_kept {α : Type} (all : List (Reached × α)) (h : I j) : I (j.reachAll all).1 := by
  induction all generalizing j with
  | nil => exact h
  | cons e rest ih => exact ih (link_kept hnext hadd e.1.target .item [] e.1.steps h)

end Kept

theorem paths_link (target : Target) (j : Joins) (subject : Variable) (before : List String)
    (steps : List ResolvedField) : j.paths <+: (link target j subject before steps).1.paths :=
  link_kept (I := fun j' => j.paths <+: j'.paths) (fun _ _ _ h => h.trans paths_next)
    (fun _ _ h => by rwa [paths_add]) target subject before steps List.prefix_rfl

theorem paths_reachAll {α : Type} (j : Joins) (all : List (Reached × α)) : j.paths <+: (j.reachAll all).1.paths :=
  reachAll_kept (I := fun j' => j.paths <+: j'.paths) (fun _ _ _ h => h.trans paths_next)
    (fun _ _ h => by rwa [paths_add]) all List.prefix_rfl

section Trail

variable {paths : List (List String)} {target : Target} {before : List String} {f : ResolvedField}
  {rest : List ResolvedField}

theorem trail_last (h : rest = [] ∧ target ≠ .row) : trail paths target before (f :: rest) =
    if before = [] then []
    else [.value (variableOf paths before) f.key (variableOf paths (before ++ [f.field.name]))] :=
  if_pos h

theorem trail_more (h : ¬ (rest = [] ∧ target ≠ .row)) : trail paths target before (f :: rest) =
    .follow (variableOf paths before) f.key (variableOf paths (before ++ [f.field.name])) ::
      trail paths target (before ++ [f.field.name]) rest :=
  if_neg h

theorem exists_link_to_end {steps : List ResolvedField} (hsteps : steps ≠ [])
    (hlong : before ≠ [] ∨ target = .row ∨ 2 ≤ steps.length) :
    ∃ l ∈ trail paths target before steps, l.object = variableOf paths (before ++ names steps) := by
  induction steps generalizing before with
  | nil => exact absurd rfl hsteps
  | cons f rest ih =>
    by_cases hlast : rest = [] ∧ target ≠ .row
    · obtain ⟨rfl, hne⟩ := hlast
      have hbefore : before ≠ [] := hlong.resolve_right fun h => h.elim hne (by simp)
      rw [trail_last ⟨rfl, hne⟩, if_neg hbefore]
      exact ⟨_, List.mem_singleton_self _, rfl⟩
    · rw [trail_more hlast]
      by_cases hrest : rest = []
      · subst hrest
        exact ⟨_, List.mem_cons_self, rfl⟩
      · have hnonempty : before ++ [f.field.name] ≠ [] := by simp
        obtain ⟨l, hl, hobject⟩ := ih hrest (.inl hnonempty)
        refine ⟨l, List.mem_cons_of_mem _ hl, hobject.trans ?_⟩
        rw [List.append_assoc]
        rfl

end Trail

structure Linked (paths : List (List String)) (target : Target) (before : List String) (steps : List ResolvedField)
    (j : Joins) (result : Joins × Variable) : Prop where
  variable_eq : result.2 = variableOf paths (before ++ names steps)
  mem_links : ∀ l, l ∈ result.1.links ↔ l ∈ j.links ∨ l ∈ trail paths target before steps
  placed : ∀ front back, steps = front ++ back → Placed paths (before ++ names front)
  rooted : Rooted j.links → Held j.links (variableOf paths before) → Rooted result.1.links

section Linked

variable {paths : List (List String)} {target : Target} {j : Joins} {before : List String} {f : ResolvedField}
  {rest : List ResolvedField}

theorem placed_cons (hbefore : Placed paths before)
    (hlater : ∀ front back, rest = front ++ back → Placed paths (before ++ [f.field.name] ++ names front)) :
    ∀ front back, f :: rest = front ++ back → Placed paths (before ++ names front) := by
  intro front back h
  cases front with
  | nil => simpa [names] using hbefore
  | cons first front =>
    obtain ⟨rfl, hrest⟩ := List.cons.inj h
    simpa [names] using hlater front back hrest

theorem Linked.nil (hbefore : Placed paths before) :
    Linked paths target before [] j (j, variableOf paths before) := by
  refine ⟨?_, fun l => by simp [trail], fun front back h => ?_, fun h _ => h⟩
  · rw [names, List.map_nil, List.append_nil]
  · rw [(List.append_eq_nil_iff.1 h.symm).1, names, List.map_nil, List.append_nil]
    exact hbefore

theorem Linked.last (htarget : target ≠ .row) (hbefore : Placed paths before)
    (hnext : (j.next before f.field.name).1.paths <+: paths) :
    Linked paths target before [f] j
      (if before = [] then (j.next before f.field.name).1
        else (j.next before f.field.name).1.add
          (.value (variableOf paths before) f.key (j.next before f.field.name).2),
        (j.next before f.field.name).2) := by
  obtain ⟨hvariable, hplaced⟩ := next_eq hnext
  refine ⟨hvariable, fun l => ?_, placed_cons hbefore fun front back h => ?_, fun hrooted hheld => ?_⟩
  · rw [trail_last ⟨rfl, htarget⟩]
    by_cases hempty : before = []
    · rw [if_pos hempty, if_pos hempty, links_next]
      simp
    · rw [if_neg hempty, if_neg hempty, mem_add, links_next, hvariable, List.mem_singleton]
  · rw [(List.append_eq_nil_iff.1 h.symm).1, names, List.map_nil, List.append_nil]
    exact hplaced
  · dsimp only
    split
    · rwa [links_next]
    · exact rooted_add (by rwa [links_next]) (by rwa [links_next])

theorem Linked.cons {result : Joins × Variable} (hmore : ¬ (rest = [] ∧ target ≠ .row)) (hbefore : Placed paths before)
    (h : Linked paths target (before ++ [f.field.name]) rest
      ((j.next before f.field.name).1.add
        (.follow (variableOf paths before) f.key (variableOf paths (before ++ [f.field.name])))) result) :
    Linked paths target before (f :: rest) j result := by
  refine ⟨?_, fun l => ?_, placed_cons hbefore h.placed, fun hrooted hheld => ?_⟩
  · have hnames : before ++ names (f :: rest) = before ++ [f.field.name] ++ names rest := by simp [names]
    rw [h.variable_eq, hnames]
  · rw [h.mem_links, mem_add, links_next, trail_more hmore, List.mem_cons, or_assoc]
  · refine h.rooted (rooted_add (by rwa [links_next]) (by rwa [links_next])) ?_
    exact .inr ⟨_, _, mem_add.2 (.inr rfl)⟩

end Linked

theorem linked_link {paths : List (List String)} (target : Target) (j : Joins) {before : List String}
    (steps : List ResolvedField) (hbefore : Placed paths before)
    (hpaths : (link target j (variableOf paths before) before steps).1.paths <+: paths) :
    Linked paths target before steps j (link target j (variableOf paths before) before steps) := by
  -- `paths` are those of all joins in the end. What a step adds to them begins the list, so the number of a
  -- variable is its place in `paths` already.
  induction steps generalizing j before with
  | nil => exact .nil hbefore
  | cons f rest ih =>
    rw [link_cons] at hpaths ⊢
    split at hpaths
    · next hlast =>
      obtain ⟨rfl, htarget⟩ := hlast
      rw [if_pos ⟨rfl, htarget⟩]
      refine .last htarget hbefore ?_
      dsimp only at hpaths
      split at hpaths
      · exact hpaths
      · rwa [paths_add] at hpaths
    · next hmore =>
      have hnext : (j.next before f.field.name).1.paths <+: paths := by
        have hmade := (paths_link _ _ _ _ _).trans hpaths
        rwa [paths_add] at hmade
      obtain ⟨hvariable, hplaced⟩ := next_eq hnext
      rw [if_neg hmore]
      rw [hvariable] at hpaths ⊢
      exact .cons hmore hbefore (ih _ hplaced hpaths)

section ReachAll

variable {α : Type}

structure AllLinked (paths : List (List String)) (all : List (Reached × α)) (j : Joins)
    (result : Joins × List (Variable × α)) : Prop where
  variables_eq : result.2 = all.map fun e => (variableOf paths (names e.1.steps), e.2)
  mem_links : ∀ l, l ∈ result.1.links ↔ l ∈ j.links ∨ ∃ e ∈ all, l ∈ trail paths e.1.target [] e.1.steps
  placed : ∀ e ∈ all, ∀ front back, e.1.steps = front ++ back → Placed paths (names front)
  rooted : Rooted j.links → Rooted result.1.links

theorem allLinked_reachAll {paths : List (List String)} (j : Joins) (all : List (Reached × α))
    (hpaths : (j.reachAll all).1.paths <+: paths) : AllLinked paths all j (j.reachAll all) := by
  induction all generalizing j with
  | nil => exact ⟨rfl, fun l => by simp [reachAll], fun e he => (List.not_mem_nil he).elim, id⟩
  | cons e rest ih =>
    have hempty : Placed paths [] := .inl (Nat.zero_le 1)
    have hlinked := linked_link e.1.target j e.1.steps hempty ((paths_reachAll _ rest).trans hpaths)
    have hrest := ih _ hpaths
    refine ⟨?_, fun l => ?_, fun e' he' => ?_, fun hrooted => ?_⟩
    · exact congr (congrArg (fun v => List.cons (v, e.2)) hlinked.variable_eq) hrest.variables_eq
    · refine (hrest.mem_links l).trans ?_
      rw [List.exists_mem_cons_iff, ← or_assoc]
      exact or_congr (hlinked.mem_links l) Iff.rfl
    · rcases List.mem_cons.1 he' with rfl | he'
      · exact hlinked.placed
      · exact hrest.placed e' he'
    · exact hrest.rooted (hlinked.rooted hrooted (.inl rfl))

end ReachAll

end Joins

end ClaimTables
