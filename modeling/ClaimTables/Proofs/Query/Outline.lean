import ClaimTables.Proofs.Query.Translation

/-!
What the outline of a query is in the end: the links of the paths of its filters and of its order, and the variables at
their ends. All of it can be written.
-/

namespace ClaimTables

open Sparql (Constraint Pattern Variable)
open Joins (Placed Rooted names trail variableOf)

theorem isNameChar_of_isIdentifier {name : String} (h : Schema.isIdentifier name = true) :
    ∀ c ∈ name.toList, Service.isNameChar c = true :=
  Schema.forall_of_isIdentifier h

theorem isNameChar_of_mem {s : String} (h : s.toList.all Service.isNameChar = true) {c : Char} (hc : c ∈ s.toList) :
    Service.isNameChar c = true :=
  List.all_eq_true.1 h c hc

theorem Sparql.Variable.proper_item : Variable.item.Proper :=
  fun _ => isNameChar_of_mem rfl

theorem Sparql.Variable.proper_field {name : String} (h : Schema.isIdentifier name = true) :
    (Variable.field name).Proper := by
  intro c hc
  rw [Variable.name, String.toList_append, List.mem_append] at hc
  rcases hc with hc | hc
  · exact isNameChar_of_mem rfl hc
  · exact isNameChar_of_isIdentifier h c hc

theorem Sparql.Variable.proper_join (k : Nat) : (Variable.join k).Proper := by
  intro c hc
  rw [Variable.name, String.toList_append, List.mem_append] at hc
  rcases hc with hc | hc
  · exact isNameChar_of_mem rfl hc
  · rw [Text.decimal, String.toList_ofList] at hc
    have hdigit := Text.isDigit_of_mem_digits hc
    simp [Service.isNameChar, Char.isAlphanum, hdigit]

section Proper

variable {paths : List (List String)} {path : List String}

theorem proper_variableOf (h : ∀ name ∈ path, Schema.isIdentifier name = true) : (variableOf paths path).Proper := by
  match path, h with
  | [], _ => exact Variable.proper_item
  | [name], h => exact Variable.proper_field (h name List.mem_cons_self)
  | _ :: _ :: _, _ => exact Variable.proper_join _

theorem exists_of_mem_trail {target : Target} {before : List String} {steps : List ResolvedField} {l : Link}
    (h : l ∈ trail paths target before steps) : ∃ front f back, steps = front ++ f :: back ∧ l.key = f.key ∧
      l.subject = variableOf paths (before ++ names front) ∧
      l.object = variableOf paths (before ++ names (front ++ [f])) := by
  induction steps generalizing before with
  | nil => exact (List.not_mem_nil h).elim
  | cons f rest ih =>
    have hempty : before ++ names [] = before := List.append_nil before
    by_cases hlast : rest = [] ∧ target ≠ .row
    · rw [Joins.trail_last hlast] at h
      split at h
      · exact (List.not_mem_nil h).elim
      · rw [List.mem_singleton.1 h]
        exact ⟨[], f, rest, rfl, rfl, by rw [hempty]; rfl, rfl⟩
    · rw [Joins.trail_more hlast] at h
      rcases List.mem_cons.1 h with rfl | h
      · exact ⟨[], f, rest, rfl, rfl, by rw [hempty]; rfl, rfl⟩
      · obtain ⟨front, g, back, rfl, hkey, hsubject, hobject⟩ := ih h
        refine ⟨f :: front, g, back, rfl, hkey, hsubject.trans ?_, hobject.trans ?_⟩
        · rw [List.append_assoc]
          rfl
        · rw [List.append_assoc]
          rfl

end Proper

theorem Walks.isIdentifier {s : Schema} (hs : s.Valid) {model : String} {steps : List ResolvedField} {target : Target}
    (h : Walks s model steps target) : ∀ name ∈ names steps, Schema.isIdentifier name = true := by
  have hname : ∀ {model : String} {f : ResolvedField}, s.field model f.field.name = .ok f →
      Schema.isIdentifier f.field.name = true := by
    intro model f hf
    obtain ⟨fields, hfields, hmem, _⟩ := Schema.field_eq_ok hf
    exact (hs.fieldValid hfields hmem).identifier
  induction h with
  | row => exact fun _ h => (List.not_mem_nil h).elim
  | field hf =>
    intro name hmem
    rw [List.mem_singleton.1 hmem]
    exact hname hf
  | follow hf _ _ ih =>
    intro name hmem
    rcases List.mem_cons.1 hmem with rfl | hmem
    · exact hname hf
    · exact ih name hmem

section Outline

variable {s : Schema} {model : String} {q : Query} {counting : Bool} {fields : List ResolvedField} {o : Outline}

def Query.paths (q : Query) (counting : Bool) : List String :=
  q.filters.map (·.path) ++ (q.orderFor counting).map (·.path)

structure Outline.Traces (s : Schema) (model : String) (o : Outline) (paths : List (List String))
    (reached : List Reached) : Prop where
  mem_links : ∀ l, l ∈ o.links ↔ ∃ r ∈ reached, l ∈ trail paths r.target [] r.steps
  placed : ∀ r ∈ reached, ∀ front back, r.steps = front ++ back → Placed paths (names front)
  rooted : Rooted o.links
  walks : ∀ r ∈ reached, Walks s model r.steps r.target
  asked : o.constraints.map (·.subject) ++ o.order.map (·.1) = reached.map fun r => variableOf paths (names r.steps)

theorem walks_of_walk {path : String} {steps : List ResolvedField} {target : Target}
    (h : Path.walk s model path = ⟨steps, .ok target⟩) : Walks s model steps target :=
  walks_of_follow (follow_of_walk h)

/-- The outline of a query is made of what its paths reach, and its conditions are those of its filters. -/
theorem Query.outline_traces (ho : q.outline s model fields counting = .ok o) :
    o.fields = fields ∧ ∃ paths reached, o.Traces s model paths reached ∧
      List.Forall₂ (fun path r => Path.walk s model path = ⟨r.steps, .ok r.target⟩) (q.paths counting) reached ∧
      List.Forall₂ (fun f c => ∃ r, f.read s model = .ok (r, c.test) ∧ c.subject = variableOf paths (names r.steps))
        q.filters o.constraints := by
  obtain ⟨filters, order, hfilters, horder, rfl⟩ := Query.outline_eq_ok ho
  -- The filters are joined before the order. `paths` begins with what the filters made, so both speak of its places.
  have hlater := Joins.paths_reachAll (Joins.empty.reachAll filters).1 order
  have hmore := Joins.allLinked_reachAll (Joins.empty.reachAll filters).1 order List.prefix_rfl
  set paths := ((Joins.empty.reachAll filters).1.reachAll order).1.paths with hpaths
  have hlinked := Joins.allLinked_reachAll Joins.empty filters hlater
  have hwalk : List.Forall₂ (fun path (r : Reached) => Path.walk s model path = ⟨r.steps, .ok r.target⟩)
      (q.paths counting) (filters.map (·.1) ++ order.map (·.1)) := by
    refine List.rel_append ?_ ?_
    · refine List.forall₂_map_left_iff.2 (List.forall₂_map_right_iff.2 (hfilters.imp fun f e he => ?_))
      exact (Filter.read_eq_ok he).1
    · refine List.forall₂_map_left_iff.2 (List.forall₂_map_right_iff.2 (horder.imp fun k e he => ?_))
      exact SortKey.read_eq_ok he
  have hconstraints : (Outline.ofParts fields filters order).constraints =
      filters.map fun e => ⟨variableOf paths (names e.1.steps), e.2⟩ := by
    refine (congrArg (List.map fun e : Variable × Sparql.Test => (⟨e.1, e.2⟩ : Constraint)) hlinked.variables_eq).trans ?_
    rw [List.map_map]
    rfl
  have horderEq : (Outline.ofParts fields filters order).order =
      order.map fun e => (variableOf paths (names e.1.steps), e.2) := hmore.variables_eq
  refine ⟨rfl, paths, filters.map (·.1) ++ order.map (·.1), ⟨fun l => ?mem_links, fun r hr => ?placed, ?rooted,
    fun r hr => ?walks, ?asked⟩, hwalk, ?tests⟩
  case mem_links =>
    refine (hmore.mem_links l).trans ((or_congr_left (hlinked.mem_links l)).trans ?_)
    simp only [List.mem_append, List.mem_map, Joins.empty, List.not_mem_nil, false_or, or_and_right, exists_or,
      exists_exists_and_eq_and]
  case placed =>
    rcases List.mem_append.1 hr with hr | hr
    · obtain ⟨e, he, rfl⟩ := List.mem_map.1 hr
      exact hlinked.placed e he
    · obtain ⟨e, he, rfl⟩ := List.mem_map.1 hr
      exact hmore.placed e he
  case rooted =>
    exact hmore.rooted (hlinked.rooted .nil)
  case walks =>
    obtain ⟨path, -, hpath⟩ := exists_of_mem_right hwalk hr
    exact walks_of_walk hpath
  case asked =>
    rw [hconstraints, horderEq]
    simp only [List.map_append, List.map_map]
    rfl
  case tests =>
    rw [hconstraints]
    exact List.forall₂_map_right_iff.2 (hfilters.imp fun f e he => ⟨e.1, he, rfl⟩)

theorem occurring_belonging {v : Vocabulary} {u w : Variable} {p : Pattern} (hp : p ∈ Outline.belonging v u)
    (hw : w ∈ p.occurring) : w = u := by
  rcases List.mem_cons.1 hp with rfl | hp
  · exact List.mem_singleton.1 hw
  · rw [List.mem_singleton.1 hp] at hw
    exact List.mem_singleton.1 hw

theorem occurring_linkPatterns {v : Vocabulary} {l : Link} {w : Variable} {p : Pattern}
    (hp : p ∈ Outline.linkPatterns v l) (hw : w ∈ p.occurring) : w = l.subject ∨ w = l.object := by
  have hpair : ∀ {a b : Variable}, w ∈ [a, b] → w = a ∨ w = b := fun h => by simpa using h
  cases l with
  | value a k b =>
    rw [List.mem_singleton.1 hp] at hw
    exact hpair hw
  | follow a k b =>
    rcases List.mem_cons.1 hp with rfl | hp
    · exact hpair hw
    · exact .inr (occurring_belonging hp hw)

theorem Outline.Traces.exists_of_mem {paths : List (List String)} {reached : List Reached}
    (h : o.Traces s model paths reached) {l : Link} (hl : l ∈ o.links) :
    ∃ r ∈ reached, ∃ front f back, r.steps = front ++ f :: back ∧ l.key = f.key ∧
      l.subject = variableOf paths (names front) ∧ l.object = variableOf paths (names (front ++ [f])) := by
  obtain ⟨r, hr, hl⟩ := (h.mem_links l).1 hl
  obtain ⟨front, f, back, hsteps, hkey, hsubject, hobject⟩ := exists_of_mem_trail hl
  exact ⟨r, hr, front, f, back, hsteps, hkey, hsubject, hobject⟩

theorem readable_outline (hs : s.Valid) (hfields : s.fields model = .ok fields)
    (ho : q.outline s model fields counting = .ok o) {v : Vocabulary} {select : Sparql.Select}
    (hpatterns : select.patterns = o.patterns v) (hconstraints : select.constraints = o.constraints) :
    select.Readable := by
  obtain ⟨hofields, paths, reached, htraces, -, htests⟩ := Query.outline_traces ho
  refine ⟨fun p hp u hu => ?_, fun c hc => ?_⟩
  · rw [hpatterns] at hp
    -- A variable of the text is that of the item, of a field, or of the end of a path.
    rcases List.mem_append.1 hp with hp | hp
    · rcases List.mem_append.1 hp with hp | hp
      · rcases List.mem_cons.1 hp with rfl | hp
        · exact List.mem_singleton.1 hu ▸ Variable.proper_item
        · exact occurring_belonging hp hu ▸ Variable.proper_item
      · obtain ⟨f, hf, rfl⟩ := List.mem_map.1 hp
        rcases List.mem_cons.1 hu with rfl | hu
        · exact Variable.proper_item
        · rw [List.mem_singleton.1 hu]
          exact Variable.proper_field (hs.fieldValid hfields (hofields ▸ hf)).identifier
    · obtain ⟨l, hl, hp⟩ := List.mem_flatMap.1 hp
      obtain ⟨r, hr, front, g, back, hsteps, -, hsubject, hobject⟩ := htraces.exists_of_mem hl
      have hnames := (htraces.walks r hr).isIdentifier hs
      have hsplit : names r.steps = names (front ++ [g]) ++ names back := by simp [names, hsteps]
      have hlast : ∀ name ∈ names (front ++ [g]), Schema.isIdentifier name = true :=
        fun name hname => hnames name (hsplit ▸ List.mem_append_left _ hname)
      have hfirst : ∀ name ∈ names front, Schema.isIdentifier name = true :=
        fun name hname => hlast name (by simpa [names] using .inl (by simpa [names] using hname))
      rcases occurring_linkPatterns hp hu with rfl | rfl
      · rw [hsubject]
        exact proper_variableOf hfirst
      · rw [hobject]
        exact proper_variableOf hlast
  · rw [hconstraints] at hc
    obtain ⟨f, -, r, hread, hsubject⟩ := exists_of_mem_right htests hc
    obtain ⟨hwalk, htest⟩ := Filter.read_eq_ok hread
    obtain ⟨u, test⟩ := c
    obtain rfl : u = variableOf paths (names r.steps) := hsubject
    exact Condition.readable_of_test htest (proper_variableOf ((walks_of_walk hwalk).isIdentifier hs))

end Outline

/-! A query asks for fields of the schema only. -/

theorem Path.effective_of_follow {s : Schema} {model path current : String} {segments : List String} {f : ResolvedField}
    (hf : f ∈ (Path.follow s model path current segments).steps) : s.Effective f := by
  induction segments generalizing current with
  | nil => exact absurd hf List.not_mem_nil
  | cons segment rest ih =>
    rw [Path.follow] at hf
    split at hf
    · exact absurd hf List.not_mem_nil
    · split at hf
      · exact absurd hf List.not_mem_nil
      · next g hg =>
        obtain ⟨fields, hfields, hmem, -⟩ := Schema.field_eq_ok hg
        have heffective : s.Effective g := ⟨current, fields, hfields, hmem⟩
        split at hf
        · rwa [List.mem_singleton.1 hf]
        · split at hf
          · rwa [List.mem_singleton.1 hf]
          · rcases List.mem_cons.1 hf with rfl | hf
            · exact heffective
            · exact ih hf

theorem Path.effective_of_walk {s : Schema} {model path : String} {f : ResolvedField}
    (hf : f ∈ (Path.walk s model path).steps) : s.Effective f := by
  unfold Path.walk at hf
  split at hf
  · exact absurd hf List.not_mem_nil
  · split at hf
    · exact absurd hf List.not_mem_nil
    · exact Path.effective_of_follow hf

theorem Query.mem_of_mem_passed {all : List (List ResolvedField × Bool)} {f : ResolvedField} (hf : f ∈ passed all) :
    ∃ e ∈ all, f ∈ e.1 := by
  induction all with
  | nil => exact absurd hf List.not_mem_nil
  | cons e rest ih =>
    obtain ⟨steps, fails⟩ := e
    rw [passed] at hf
    split at hf
    · exact ⟨_, List.mem_cons_self, hf⟩
    · rcases List.mem_append.1 hf with hf | hf
      · exact ⟨_, List.mem_cons_self, hf⟩
      · obtain ⟨e, he, hfe⟩ := ih hf
        exact ⟨e, List.mem_cons_of_mem _ he, hfe⟩

theorem Query.effective_of_mentions {s : Schema} {model : String} {fields : List ResolvedField} {q : Query}
    {counting : Bool} (hfields : s.fields model = .ok fields) {f : ResolvedField}
    (hf : f ∈ q.mentions s model fields counting) : s.Effective f := by
  rcases List.mem_append.1 hf with hf | hf
  · exact ⟨model, fields, hfields, hf⟩
  · obtain ⟨e, he, hfe⟩ := Query.mem_of_mem_passed hf
    rcases List.mem_append.1 he with he | he
    · obtain ⟨g, -, rfl⟩ := List.mem_map.1 he
      exact Path.effective_of_walk hfe
    · obtain ⟨k, -, rfl⟩ := List.mem_map.1 he
      exact Path.effective_of_walk hfe

end ClaimTables
