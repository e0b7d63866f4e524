import ClaimTables.Proofs.Query.Joins
import ClaimTables.Proofs.Query.Meaning

/-!
The patterns of a query have the solutions that the query means. The variable at the end of a path stands for
the value that the path reaches, links hold exactly on the ways that filters may go, and so the patterns and
conditions together hold exactly for the rows that satisfy all filters.
-/

namespace ClaimTables

open Service (Graph Node)
open Sparql (Agrees Constraint Lead Pattern Tabulates Variable knownAfter)
open Joins (Held Placed Rooted names trail variableOf)

namespace Schema

variable {s : Schema} {model : String} {f : ResolvedField}

theorem field_eq_ok {name : String} (h : s.field model name = .ok f) :
    ∃ fields, s.fields model = .ok fields ∧ f ∈ fields ∧ f.field.name = name := by
  obtain ⟨fields, hfields, h⟩ := ok_of_bind h
  split at h
  · next g hg =>
    obtain rfl := Except.ok.inj h
    exact ⟨fields, hfields, List.mem_of_find?_eq_some hg, by simpa using List.find?_some hg⟩
  · exact nomatch h

theorem Valid.field_of_mem (hs : s.Valid) {fields : List ResolvedField} (h : s.fields model = .ok fields)
    (hf : f ∈ fields) : s.field model f.field.name = .ok f := by
  have hfound : fields.find? (·.field.name = f.field.name) = some f := by
    cases hfind : fields.find? (·.field.name = f.field.name) with
    | none => exact absurd (decide_eq_true rfl) (List.find?_eq_none.1 hfind f hf)
    | some g =>
      have hname : g.field.name = f.field.name := by simpa using List.find?_some hfind
      exact congrArg some (List.inj_on_of_nodup_map (hs.nodup h) (List.mem_of_find?_eq_some hfind) hf hname)
  rw [field, h]
  dsimp only [bind, Except.bind]
  rw [hfound]

end Schema

theorem Target.field_ne_row (type : FieldType) : Target.field type ≠ .row :=
  Target.noConfusion

/-- That steps lead from one model to another, each to the model that the field refers to. -/
inductive Refers (s : Schema) : String → List ResolvedField → String → Prop where
  | nil (model : String) : Refers s model [] model
  | cons {model target last : String} {f : ResolvedField} {rest : List ResolvedField} :
    s.field model f.field.name = .ok f → f.field.type.target? = some target → Refers s target rest last →
    Refers s model (f :: rest) last

theorem Refers.concat {s : Schema} {model current target : String} {steps : List ResolvedField} {f : ResolvedField}
    (h : Refers s model steps current) (hf : s.field current f.field.name = .ok f)
    (ht : f.field.type.target? = some target) : Refers s model (steps ++ [f]) target := by
  induction h with
  | nil model => exact .cons hf ht (.nil _)
  | cons hg hgt _ ih => exact .cons hg hgt (ih hf)

inductive Walks (s : Schema) : String → List ResolvedField → Target → Prop where
  | row (model : String) : Walks s model [] .row
  | field {model : String} {f : ResolvedField} :
    s.field model f.field.name = .ok f → Walks s model [f] (.field f.field.type)
  | follow {model next : String} {f : ResolvedField} {rest : List ResolvedField} {target : Target} :
    s.field model f.field.name = .ok f → f.field.type.target? = some next → Walks s next rest target →
    Walks s model (f :: rest) target

namespace View

variable (view : View)

def valueAt : (model : String) → (n : Node) → List String → Option Node
  | _, n, [] => some n
  | model, n, name :: rest =>
    match view.schema.field model name with
    | .error _ => none
    | .ok f => (view.value? n f).bind fun o =>
      match f.field.type.target? with
      | some target => valueAt target o rest
      | none => if rest = [] then some o else none

def meaning (model : String) (paths : List (List String)) (n : Node) : Variable → Option Node
  | .item => some n
  | .count => none
  | .field name => view.valueAt model n [name]
  | .join k => paths[k]?.bind (view.valueAt model n)

def vocabulary (base : String) (type : ItemId) : Vocabulary :=
  ⟨base, view.tag, view.reserved, type, view.property⟩

section Values

variable {view} {model current : String} {n : Node} {f : ResolvedField} {paths : List (List String)}

theorem valueAt_field {name : String} (hf : view.schema.field model name = .ok f) :
    view.valueAt model n [name] = view.value? n f := by
  rw [valueAt, hf]
  dsimp only
  cases view.value? n f with
  | none => rfl
  | some o => cases f.field.type.target? <;> rfl

theorem valueAt_cons {name target : String} (hf : view.schema.field model name = .ok f)
    (ht : f.field.type.target? = some target) (rest : List String) :
    view.valueAt model n (name :: rest) = (view.value? n f).bind fun o => view.valueAt target o rest := by
  rw [valueAt, hf]
  dsimp only
  rw [ht]

theorem valueAt_append {steps : List ResolvedField} (h : Refers view.schema model steps current) (rest : List String) :
    view.valueAt model n (names steps ++ rest) =
      (view.valueAt model n (names steps)).bind fun x => view.valueAt current x rest := by
  induction h generalizing n with
  | nil model => rfl
  | cons hf ht _ ih =>
    rw [names, List.map_cons, List.cons_append, valueAt_cons hf ht, valueAt_cons hf ht, Option.bind_assoc]
    exact congrArg _ (funext fun o => ih)

theorem meaning_variableOf {path : List String} (h : Placed paths path) :
    view.meaning model paths n (variableOf paths path) = view.valueAt model n path := by
  match path, h with
  | [], _ => rfl
  | [name], _ => rfl
  | a :: b :: rest, h =>
    rw [variableOf, meaning, Joins.getElem?_idxOf h, Option.bind_some]
    · exact fun h => nomatch h
    · exact fun _ h => nomatch h

theorem meaning_next {steps : List ResolvedField} (h : Refers view.schema model steps current)
    (hf : view.schema.field current f.field.name = .ok f) (hplaced : Placed paths (names steps))
    (hnext : Placed paths (names steps ++ [f.field.name])) :
    view.meaning model paths n (variableOf paths (names steps ++ [f.field.name])) =
      (view.meaning model paths n (variableOf paths (names steps))).bind fun x => view.value? x f := by
  rw [meaning_variableOf hplaced, meaning_variableOf hnext, valueAt_append h]
  exact congrArg _ (funext fun x => valueAt_field hf)

theorem meaning_next_of_some {steps : List ResolvedField} {x : Node} (h : Refers view.schema model steps current)
    (hf : view.schema.field current f.field.name = .ok f) (hplaced : Placed paths (names steps))
    (hnext : Placed paths (names steps ++ [f.field.name])) (hx : view.valueAt model n (names steps) = some x) :
    view.meaning model paths n (variableOf paths (names steps ++ [f.field.name])) = view.value? x f := by
  rw [meaning_next h hf hplaced hnext, meaning_variableOf hplaced, hx, Option.bind_some]

end Values

def Coherent (ν : Variable → Option Node) (l : Link) : Prop :=
  ν l.object = (ν l.subject).bind (view.graph.object? · (view.property l.key))

def LinkHolds (base : String) (type : ItemId) (ν : Variable → Option Node) (l : Link) : Prop :=
  ∀ p ∈ Outline.linkPatterns (view.vocabulary base type) l, p.holds view.graph ν = true

section Links

variable {view} {model current base : String} {type : ItemId} {n : Node} {paths : List (List String)}
  {target : Target} {steps before : List ResolvedField} {ν : Variable → Option Node}

theorem names_concat (f : ResolvedField) : names (before ++ [f]) = names before ++ [f.field.name] := by
  rw [names, List.map_append]
  rfl

theorem placed_before (hplaced : ∀ front back, steps = front ++ back → Placed paths (names before ++ names front)) :
    Placed paths (names before) := by
  simpa [names] using hplaced [] steps rfl

theorem placed_concat {f : ResolvedField} {rest : List ResolvedField}
    (hplaced : ∀ front back, f :: rest = front ++ back → Placed paths (names before ++ names front)) :
    ∀ front back, rest = front ++ back → Placed paths (names (before ++ [f]) ++ names front) := by
  intro front back h
  have hfront := hplaced (f :: front) back (congrArg (f :: ·) h)
  rw [names_concat, List.append_assoc]
  exact hfront

theorem not_last_of_walks {s : Schema} (h : Walks s current steps target) : ¬ (steps = [] ∧ target ≠ .row) := by
  rintro ⟨rfl, hne⟩
  cases h
  exact hne rfl

theorem coherent_of_mem_trail (h : Walks view.schema current steps target) (hbefore : Refers view.schema model before current)
    (hplaced : ∀ front back, steps = front ++ back → Placed paths (names before ++ names front)) {l : Link}
    (hl : l ∈ trail paths target (names before) steps) : view.Coherent (view.meaning model paths n) l := by
  have hsubject := placed_before hplaced
  induction h generalizing before with
  | row => exact (List.not_mem_nil hl).elim
  | @field current f hf =>
    rw [Joins.trail_last ⟨rfl, Target.field_ne_row _⟩] at hl
    split at hl
    · exact (List.not_mem_nil hl).elim
    · obtain rfl := List.mem_singleton.1 hl
      exact meaning_next hbefore hf hsubject (hplaced [f] [] rfl)
  | @follow current next f rest target hf ht hrest ih =>
    have hobject : Placed paths (names before ++ [f.field.name]) := hplaced [f] rest rfl
    rw [Joins.trail_more (not_last_of_walks hrest)] at hl
    rcases List.mem_cons.1 hl with rfl | hl
    · exact meaning_next hbefore hf hsubject hobject
    · rw [← names_concat] at hl hobject
      exact ih (hbefore.concat hf ht) (placed_concat hplaced) hl hobject

theorem linkHolds_value (s o : Variable) (k : FieldKey) : view.LinkHolds base type ν (.value s k o) := by
  intro p hp
  rw [List.mem_singleton.1 hp]
  rfl

theorem linkHolds_last {f : ResolvedField} {type' : FieldType} {segments : List String} :
    ∀ l ∈ trail paths (.field type') segments [f], view.LinkHolds base type ν l := by
  intro l hl
  rw [Joins.trail_last ⟨rfl, Target.field_ne_row _⟩] at hl
  split at hl
  · exact (List.not_mem_nil hl).elim
  · rw [List.mem_singleton.1 hl]
    exact linkHolds_value _ _ _

theorem linkHolds_follow (hg : view.graph.Single) (s o : Variable) (k : FieldKey) :
    view.LinkHolds base type ν (.follow s k o) ↔ ∃ y, ν o = some y ∧ view.Belongs y := by
  simp only [LinkHolds, Outline.linkPatterns, Outline.belonging, List.forall_mem_cons, List.not_mem_nil, false_implies,
    implies_true, and_true, Pattern.holds, vocabulary, decide_eq_true_eq, Belongs]
  cases ν o with
  | none => simp
  | some y => simp [hg.object?_eq_some]

end Links

end View

section Paths

variable {s : Schema} {model path : String} {steps : List ResolvedField} {target : Target}

theorem follow_eq_ok {current segment : String} {rest : List String}
    (h : Path.follow s model path current (segment :: rest) = ⟨steps, .ok target⟩) :
    (segment = Schema.idField ∧ rest = [] ∧ steps = [] ∧ target = .row) ∨
    ∃ f, ¬ (segment = Schema.idField ∧ rest = []) ∧ s.field current segment = .ok f ∧ f.field.name = segment ∧
      ((rest = [] ∧ steps = [f] ∧ target = .field f.field.type) ∨
        ∃ next later, rest ≠ [] ∧ f.field.type.target? = some next ∧ steps = f :: later ∧
          Path.follow s model path next rest = ⟨later, .ok target⟩) := by
  rw [Path.follow] at h
  split at h
  · next hid =>
    obtain ⟨rfl, hending⟩ := Walk.mk.inj h
    exact .inl ⟨hid.1, hid.2, rfl, (Except.ok.inj hending).symm⟩
  · next hid =>
    split at h
    · exact nomatch (Walk.mk.inj h).2
    · next f hf =>
      obtain ⟨_, _, _, hname⟩ := Schema.field_eq_ok hf
      refine .inr ⟨f, hid, hf, hname, ?_⟩
      split at h
      · next hrest =>
        obtain ⟨rfl, hending⟩ := Walk.mk.inj h
        exact .inl ⟨hrest, rfl, (Except.ok.inj hending).symm⟩
      · next hrest =>
        split at h
        · exact nomatch (Walk.mk.inj h).2
        · next next hnext =>
          obtain ⟨rfl, hending⟩ := Walk.mk.inj h
          refine .inr ⟨next, _, hrest, hnext, rfl, ?_⟩
          rw [← hending]

theorem walks_of_follow {current : String} {segments : List String}
    (h : Path.follow s model path current segments = ⟨steps, .ok target⟩) : Walks s current steps target := by
  induction segments generalizing current steps with
  | nil => exact nomatch (Walk.mk.inj h).2
  | cons segment rest ih =>
    rcases follow_eq_ok h with ⟨_, _, rfl, rfl⟩ | ⟨f, _, hf, rfl, ⟨_, rfl, rfl⟩ | ⟨next, later, _, ht, rfl, hrest⟩⟩
    · exact .row current
    · exact .field hf
    · exact .follow hf ht (ih hrest)

theorem follow_of_walk (h : Path.walk s model path = ⟨steps, .ok target⟩) :
    Path.follow s model path model (Path.segments path) = ⟨steps, .ok target⟩ := by
  rw [Path.walk] at h
  split at h
  · next hpath =>
    have hsegments : Path.segments Schema.idField = [Schema.idField] := rfl
    rw [← h, hpath, hsegments, Path.follow, if_pos ⟨rfl, rfl⟩]
  · split at h
    · exact nomatch (Walk.mk.inj h).2
    · exact h

end Paths

namespace View

section Filters

variable {view : View} {model current path base : String} {type : ItemId} {n x : Node} {paths : List (List String)}
  {target : Target} {steps before : List ResolvedField} {c : Condition} {t : Sparql.Test} {refuse : String → Error}

theorem along_iff (hg : view.graph.Single) {segments : List String}
    (h : Path.follow view.schema model path current segments = ⟨steps, .ok target⟩)
    (hbefore : Refers view.schema model before current)
    (hplaced : ∀ front back, steps = front ++ back → Placed paths (names before ++ names front))
    (hx : view.valueAt model n (names before) = some x) (ht : c.test refuse target = .ok t) :
    view.Along c current x segments ↔
      (∀ l ∈ trail paths target (names before) steps,
        view.LinkHolds base type (view.meaning model paths n) l) ∧
      t.holds (view.meaning model paths n (variableOf paths (names before ++ names steps))) = true := by
  have hsubject := placed_before hplaced
  -- The path is followed as the schema reads it, and the query's links are traced beside it: `x` is what the
  -- steps in `before` lead to, which is what the variable at their end means.
  induction segments generalizing current before steps x with
  | nil => cases (Walk.mk.inj h).2
  | cons segment rest ih =>
    rcases follow_eq_ok h with ⟨hid, hrest, rfl, rfl⟩ |
      ⟨f, hid, hf, rfl, ⟨hrest, rfl, rfl⟩ | ⟨next, later, hrest, htarget, rfl, hlater⟩⟩
    · have hmeaning : view.meaning model paths n (variableOf paths (names before ++ names [])) = some x := by
        have hnil : names [] = [] := rfl
        rw [hnil, List.append_nil, meaning_variableOf hsubject, hx]
      rw [hmeaning, Condition.holds_of_test ht, Along, if_pos ⟨hid, hrest⟩]
      exact ⟨fun hc => ⟨fun l hl => (List.not_mem_nil hl).elim, hc⟩, And.right⟩
    · have hmeaning : view.meaning model paths n (variableOf paths (names before ++ names [f])) = view.value? x f :=
        meaning_next_of_some hbefore hf hsubject (hplaced [f] [] rfl) hx
      rw [hmeaning, Condition.holds_of_test ht, Along, if_neg hid, hf]
      dsimp only
      rw [if_pos hrest]
      exact ⟨fun hc => ⟨linkHolds_last, hc⟩, And.right⟩
    · have hobject : Placed paths (names before ++ [f.field.name]) := hplaced [f] later rfl
      have hmeaning : view.meaning model paths n (variableOf paths (names before ++ [f.field.name])) =
          view.value? x f := meaning_next_of_some hbefore hf hsubject hobject hx
      have hrest' : ∀ o, view.value? x f = some o →
          (view.Along c next o rest ↔ (∀ l ∈ trail paths target (names before ++ [f.field.name]) later,
            view.LinkHolds base type (view.meaning model paths n) l) ∧
          t.holds (view.meaning model paths n (variableOf paths (names before ++ names (f :: later)))) = true) := by
        intro o ho
        have hnames : names before ++ names (f :: later) = names (before ++ [f]) ++ names later := by
          rw [names_concat, List.append_assoc]
          rfl
        rw [hnames, ← names_concat]
        refine ih hlater (hbefore.concat hf htarget) (placed_concat hplaced) ?_ ?_
        · rw [names_concat, ← meaning_variableOf hobject, hmeaning, ho]
        · rwa [names_concat]
      rw [Joins.trail_more (not_last_of_walks (walks_of_follow hlater)), List.forall_mem_cons, linkHolds_follow hg,
        hmeaning, Along, if_neg hid, hf]
      dsimp only
      rw [if_neg hrest, htarget]
      constructor
      · rintro ⟨o, hstep, hbelongs, halong⟩
        have ho := hg.object?_eq_some.2 hstep
        obtain ⟨hlinks, hholds⟩ := (hrest' o ho).1 halong
        exact ⟨⟨⟨o, ho, hbelongs⟩, hlinks⟩, hholds⟩
      · rintro ⟨⟨⟨o, ho, hbelongs⟩, hlinks⟩, hholds⟩
        exact ⟨o, hg.object?_eq_some.1 ho, hbelongs, (hrest' o ho).2 ⟨hlinks, hholds⟩⟩

end Filters

section Leading

variable {view : View} {base : String} {type : ItemId} {ν : Variable → Option Node} {known : List Variable}

theorem lead_append {g : Graph} {ps qs : List Pattern} : Lead g ν known (ps ++ qs) ↔
    Lead g ν known ps ∧ ((∀ p ∈ ps, p.joins g ν = true) → Lead g ν (knownAfter known ps) qs) := by
  induction ps generalizing known with
  | nil => simp [Lead, knownAfter]
  | cons p ps ih =>
    rw [List.cons_append, Lead, Lead, ih, knownAfter, List.forall_mem_cons]
    tauto

theorem mem_knownAfter {ps : List Pattern} {v : Variable} :
    v ∈ knownAfter known ps ↔ v ∈ known ∨ ∃ p ∈ ps, v ∈ p.binds := by
  induction ps generalizing known with
  | nil => simp [knownAfter]
  | cons p ps ih =>
    rw [knownAfter, ih, List.mem_append, List.exists_mem_cons_iff]
    tauto

theorem lead_belonging {v : Variable} (hv : v ∈ known) (hsome : (ν v).isSome = true) :
    Lead view.graph ν known (Outline.belonging (view.vocabulary base type) v) :=
  ⟨⟨hv, hsome⟩, fun _ => ⟨⟨hv, hsome⟩, fun _ => trivial⟩⟩

theorem lead_optional {fields : List ResolvedField} (hitem : .item ∈ known) {n : Node} (hn : ν .item = some n)
    (hfields : ∀ f ∈ fields, ν (.field f.field.name) = view.value? n f) :
    Lead view.graph ν known (fields.map fun f => .optional .item (view.property f.key) (.field f.field.name)) := by
  induction fields generalizing known with
  | nil => exact trivial
  | cons f rest ih =>
    refine ⟨⟨hitem, by rw [hn]; rfl, ?_⟩, fun _ => ih (List.mem_append_right _ hitem) fun g hg => ?_⟩
    · rw [hn, hfields f List.mem_cons_self]
      rfl
    · exact hfields g (List.mem_cons_of_mem _ hg)

theorem held_of_joins {links : List Link} {v : Variable} (h : Held links v) (hitem : .item ∈ known)
    (hsome : (ν .item).isSome = true)
    (hjoins : ∀ p ∈ links.flatMap (Outline.linkPatterns (view.vocabulary base type)), p.joins view.graph ν = true) :
    v ∈ knownAfter known (links.flatMap (Outline.linkPatterns (view.vocabulary base type))) ∧ (ν v).isSome = true := by
  rcases h with rfl | ⟨s, k, hmem⟩
  · exact ⟨mem_knownAfter.2 (.inl hitem), hsome⟩
  · have htriple : Pattern.triple s (view.property k) v ∈
        links.flatMap (Outline.linkPatterns (view.vocabulary base type)) :=
      List.mem_flatMap.2 ⟨_, hmem, List.mem_cons_self⟩
    exact ⟨mem_knownAfter.2 (.inr ⟨_, htriple, List.mem_singleton_self v⟩), hjoins _ htriple⟩

theorem lead_link {l : Link} (hl : view.Coherent ν l) (hs : l.subject ∈ known) (hsome : (ν l.subject).isSome = true) :
    Lead view.graph ν known (Outline.linkPatterns (view.vocabulary base type) l) := by
  cases l with
  | value s k o => exact ⟨⟨hs, hsome, hl⟩, fun _ => trivial⟩
  | follow s k o =>
    exact ⟨⟨hs, hsome, hl⟩, fun hjoins => lead_belonging (List.mem_append_left _ (List.mem_singleton_self o)) hjoins⟩

theorem lead_links {links : List Link} (h : Rooted links) (hitem : .item ∈ known) (hsome : (ν .item).isSome = true)
    (hlinks : ∀ l ∈ links, view.Coherent ν l) :
    Lead view.graph ν known (links.flatMap (Outline.linkPatterns (view.vocabulary base type))) := by
  induction h with
  | nil => exact trivial
  | @concat links l _ hheld ih =>
    rw [List.flatMap_append, lead_append]
    refine ⟨ih fun m hm => hlinks m (List.mem_append_left _ hm), fun hjoins => ?_⟩
    obtain ⟨hs, hvalue⟩ := held_of_joins hheld hitem hsome hjoins
    rw [List.flatMap_singleton]
    exact lead_link (hlinks l (List.mem_append_right _ (List.mem_singleton_self l))) hs hvalue

end Leading

end View

theorem Filter.read_eq_ok {s : Schema} {model : String} {f : Filter} {r : Reached} {t : Sparql.Test}
    (h : f.read s model = .ok (r, t)) : Path.walk s model f.path = ⟨r.steps, .ok r.target⟩ ∧
      f.condition.test (.unsupportedQuery model f.path) r.target = .ok t := by
  obtain ⟨r', hreached, h⟩ := ok_of_bind h
  obtain ⟨t', htest, h⟩ := ok_of_bind h
  obtain ⟨rfl, rfl⟩ := Prod.mk.inj (Except.ok.inj h)
  refine ⟨?_, htest⟩
  unfold Walk.reached at hreached
  cases hending : (Path.walk s model f.path).ending with
  | error e =>
    rw [hending] at hreached
    exact nomatch hreached
  | ok target =>
    rw [hending] at hreached
    obtain rfl := Except.ok.inj hreached
    exact congrArg (Walk.mk _) hending

theorem SortKey.read_eq_ok {s : Schema} {model : String} {k : SortKey} {r : Reached} {descending : Bool}
    (h : k.read s model = .ok (r, descending)) : Path.walk s model k.path = ⟨r.steps, .ok r.target⟩ := by
  unfold SortKey.read Walk.reached at h
  cases hending : (Path.walk s model k.path).ending with
  | error e =>
    rw [hending] at h
    exact nomatch h
  | ok target =>
    rw [hending] at h
    obtain ⟨rfl, -⟩ := Prod.mk.inj (Except.ok.inj h)
    exact congrArg (Walk.mk _) hending

theorem Query.outline_eq_ok {s : Schema} {model : String} {fields : List ResolvedField} {q : Query} {counting : Bool}
    {o : Outline} (h : q.outline s model fields counting = .ok o) :
    ∃ filters order, List.Forall₂ (fun f e => f.read s model = .ok e) q.filters filters ∧
      List.Forall₂ (fun k e => k.read s model = .ok e) (q.orderFor counting) order ∧
      o = Outline.ofParts fields filters order := by
  obtain ⟨filters, hfilters, h⟩ := ok_of_bind h
  obtain ⟨order, horder, h⟩ := ok_of_bind h
  exact ⟨filters, order, mapM_eq_ok hfilters, mapM_eq_ok horder, (Except.ok.inj h).symm⟩

namespace View

section Count

variable {view : View} {model base : String} {type : ItemId} {q : Query} {fields : List ResolvedField}
  {filters : List (Reached × Sparql.Test)} {paths : List (List String)} {n : Node}

theorem satisfies_iff (hg : view.graph.Single) {f : Filter} {r : Reached} {t : Sparql.Test}
    (h : f.read view.schema model = .ok (r, t))
    (hplaced : ∀ front back, r.steps = front ++ back → Placed paths (names front)) :
    view.Satisfies model n f ↔
      (∀ l ∈ trail paths r.target [] r.steps, view.LinkHolds base type (view.meaning model paths n) l) ∧
      t.holds (view.meaning model paths n (variableOf paths (names r.steps))) = true := by
  obtain ⟨hwalk, htest⟩ := Filter.read_eq_ok h
  exact along_iff hg (follow_of_walk hwalk) (.nil model) hplaced rfl htest

theorem satisfies_all_iff (base : String) (type : ItemId) (n : Node) (hg : view.graph.Single)
    (hread : List.Forall₂ (fun f e => f.read view.schema model = .ok e) q.filters filters)
    (hplaced : ∀ e ∈ filters, ∀ front back, e.1.steps = front ++ back → Placed paths (names front)) :
    (∀ f ∈ q.filters, view.Satisfies model n f) ↔
      (∀ e ∈ filters, ∀ l ∈ trail paths e.1.target [] e.1.steps,
        view.LinkHolds base type (view.meaning model paths n) l) ∧
      ∀ e ∈ filters, e.2.holds (view.meaning model paths n (variableOf paths (names e.1.steps))) = true := by
  rw [← forall₂_and]
  constructor
  · intro h e he
    obtain ⟨f, hf, hfe⟩ := exists_of_mem_right hread he
    exact (satisfies_iff hg hfe (hplaced e he)).1 (h f hf)
  · intro h f hf
    obtain ⟨e, he, hfe⟩ := exists_of_mem_left hread hf
    exact (satisfies_iff hg hfe (hplaced e he)).2 (h e he)

def laterPatterns (view : View) (base : String) (type : ItemId) (fields : List ResolvedField) (links : List Link) : List Pattern :=
  Outline.belonging (view.vocabulary base type) .item
    ++ fields.map (fun f => .optional .item (view.property f.key) (.field f.field.name))
    ++ links.flatMap (Outline.linkPatterns (view.vocabulary base type))

theorem lead_laterPatterns (hs : view.schema.Valid) (hfields : view.schema.fields model = .ok fields)
    {links : List Link} (hrooted : Rooted links) (hlinks : ∀ l ∈ links, view.Coherent (view.meaning model paths n) l) :
    Lead view.graph (view.meaning model paths n) [.item] (laterPatterns view base type fields links) := by
  have hitem : ∀ ps, Variable.item ∈ knownAfter [.item] ps := fun ps => mem_knownAfter.2 (.inl List.mem_cons_self)
  rw [laterPatterns, lead_append, lead_append]
  refine ⟨⟨lead_belonging List.mem_cons_self rfl, fun _ => ?_⟩, fun _ => ?_⟩
  · exact lead_optional (hitem _) rfl fun f hf => valueAt_field (hs.field_of_mem hfields hf)
  · exact lead_links hrooted (hitem _) rfl hlinks

theorem field_known (links : List Link) {f : ResolvedField} (hf : f ∈ fields) :
    Variable.field f.field.name ∈ knownAfter [.item] (laterPatterns view base type fields links) := by
  refine mem_knownAfter.2 (.inr ⟨.optional .item (view.property f.key) (.field f.field.name), ?_, ?_⟩)
  · exact List.mem_append_left _ (List.mem_append_right _ (List.mem_map_of_mem hf))
  · exact List.mem_singleton_self _

theorem object_known {links : List Link} {l : Link} (hl : l ∈ links) :
    l.object ∈ knownAfter [.item] (laterPatterns view base type fields links) := by
  have hmem : ∀ p ∈ Outline.linkPatterns (view.vocabulary base type) l,
      p ∈ laterPatterns view base type fields links :=
    fun p hp => List.mem_append_right _ (List.mem_flatMap.2 ⟨l, hl, hp⟩)
  cases l with
  | follow s k o => exact mem_knownAfter.2 (.inr ⟨_, hmem _ List.mem_cons_self, List.mem_singleton_self o⟩)
  | value s k o => exact mem_knownAfter.2 (.inr ⟨_, hmem _ List.mem_cons_self, List.mem_singleton_self o⟩)

theorem ending_known (hfields : view.schema.fields model = .ok fields) {steps : List ResolvedField} {target : Target}
    (hwalk : Walks view.schema model steps target) {links : List Link}
    (hlinks : ∀ l ∈ trail paths target [] steps, l ∈ links) :
    variableOf paths (names steps) ∈ knownAfter [.item] (laterPatterns view base type fields links) := by
  have hlong : ∀ {steps : List ResolvedField}, steps ≠ [] → target = .row ∨ 2 ≤ steps.length →
      (∀ l ∈ trail paths target [] steps, l ∈ links) →
      variableOf paths (names steps) ∈ knownAfter [.item] (laterPatterns view base type fields links) := by
    intro steps hsteps hlong hlinks
    obtain ⟨l, hl, hobject⟩ := Joins.exists_link_to_end hsteps (.inr hlong)
    rw [List.nil_append] at hobject
    exact hobject ▸ object_known (hlinks l hl)
  cases hwalk with
  | row => exact mem_knownAfter.2 (.inl List.mem_cons_self)
  | field hf =>
    obtain ⟨fields', hfields', hmem, _⟩ := Schema.field_eq_ok hf
    obtain rfl := Except.ok.inj (hfields.symm.trans hfields')
    exact field_known links hmem
  | follow hf ht hrest =>
    refine hlong (List.cons_ne_nil _ _) ?_ hlinks
    cases hrest with
    | row => exact .inl rfl
    | field | follow => exact .inr (by simp)

theorem holds_laterPatterns (hg : view.graph.Single) {links : List Link} :
    (∀ p ∈ laterPatterns view base type fields links, p.holds view.graph (view.meaning model paths n) = true) ↔
      view.Belongs n ∧ ∀ l ∈ links, view.LinkHolds base type (view.meaning model paths n) l := by
  have hbelonging : (∀ p ∈ Outline.belonging (view.vocabulary base type) .item,
      p.holds view.graph (view.meaning model paths n) = true) ↔ view.Belongs n := by
    simp [Outline.belonging, Pattern.holds_tagged, Pattern.holds_untagged, meaning, vocabulary, Belongs,
      hg.object?_eq_some]
  have hfields : ∀ p ∈ fields.map fun f => Pattern.optional .item (view.property f.key) (.field f.field.name),
      p.holds view.graph (view.meaning model paths n) = true := by
    intro p hp
    obtain ⟨f, _, rfl⟩ := List.mem_map.1 hp
    rfl
  simp only [laterPatterns, List.forall_mem_append, List.forall_mem_flatMap, hbelonging, LinkHolds]
  exact and_congr_left fun _ => and_iff_left hfields

theorem shows_of_agrees (hs : view.schema.Valid) (hfields : view.schema.fields model = .ok fields) {links : List Link}
    {μ : Service.Mapping} (h : Agrees (view.meaning model paths n)
      (knownAfter [.item] (laterPatterns view base type fields links)) μ) : view.Shows fields n μ := by
  refine ⟨h.lookup (mem_knownAfter.2 (.inl List.mem_cons_self)), fun f hf => ?_⟩
  exact (h.lookup (field_known links hf)).trans (valueAt_field (hs.field_of_mem hfields hf))

variable {joined : Joins × List (Variable × Sparql.Test)}

theorem walks_of_read (hread : List.Forall₂ (fun f e => f.read view.schema model = .ok e) q.filters filters)
    {e : Reached × Sparql.Test} (he : e ∈ filters) : Walks view.schema model e.1.steps e.1.target := by
  obtain ⟨f, _, hfe⟩ := exists_of_mem_right hread he
  exact walks_of_follow (follow_of_walk (Filter.read_eq_ok hfe).1)

theorem mem_links_iff (h : Joins.AllLinked paths filters Joins.empty joined) {l : Link} :
    l ∈ joined.1.links ↔ ∃ e ∈ filters, l ∈ trail paths e.1.target [] e.1.steps :=
  (h.mem_links l).trans (or_iff_right List.not_mem_nil)

theorem forall_links_iff (h : Joins.AllLinked paths filters Joins.empty joined) {P : Link → Prop} :
    (∀ l ∈ joined.1.links, P l) ↔ ∀ e ∈ filters, ∀ l ∈ trail paths e.1.target [] e.1.steps, P l := by
  constructor
  · exact fun hall e he l hl => hall l ((mem_links_iff h).2 ⟨e, he, hl⟩)
  · intro hall l hl
    obtain ⟨e, he, hl⟩ := (mem_links_iff h).1 hl
    exact hall e he l hl

theorem forall_constraints_iff (h : Joins.AllLinked paths filters Joins.empty joined) {P : Variable → Sparql.Test → Prop} :
    (∀ c ∈ joined.2.map fun e => (⟨e.1, e.2⟩ : Constraint), P c.subject c.test) ↔
      ∀ e ∈ filters, P (variableOf paths (names e.1.steps)) e.2 := by
  rw [h.variables_eq, List.map_map, List.forall_mem_map]
  rfl

theorem coherent_links (hread : List.Forall₂ (fun f e => f.read view.schema model = .ok e) q.filters filters)
    (h : Joins.AllLinked paths filters Joins.empty joined) :
    ∀ l ∈ joined.1.links, view.Coherent (view.meaning model paths n) l :=
  (forall_links_iff h).2 fun e he _ hl => coherent_of_mem_trail (walks_of_read hread he) (.nil model) (h.placed e he) hl

theorem constraints_known (hfields : view.schema.fields model = .ok fields)
    (hread : List.Forall₂ (fun f e => f.read view.schema model = .ok e) q.filters filters)
    (h : Joins.AllLinked paths filters Joins.empty joined) :
    ∀ c ∈ joined.2.map fun e => (⟨e.1, e.2⟩ : Constraint),
      c.subject ∈ knownAfter [.item] (laterPatterns view base type fields joined.1.links) :=
  (forall_constraints_iff (P := fun v _ => v ∈ knownAfter [.item] (laterPatterns view base type fields joined.1.links)) h).2
    fun e he => ending_known hfields (walks_of_read hread he) fun _ hl => (mem_links_iff h).2 ⟨e, he, hl⟩

theorem selects_iff (hg : view.graph.Single)
    (hread : List.Forall₂ (fun f e => f.read view.schema model = .ok e) q.filters filters)
    (h : Joins.AllLinked paths filters Joins.empty joined) :
    view.Selects model type q n ↔
      n ∈ Sparql.instances view.graph view.reserved.instanceOf view.reserved.subclassOf type ∧
      (∀ p ∈ laterPatterns view base type fields joined.1.links, p.holds view.graph (view.meaning model paths n) = true) ∧
      ∀ c ∈ joined.2.map fun e => (⟨e.1, e.2⟩ : Constraint), c.test.holds (view.meaning model paths n c.subject) = true := by
  rw [holds_laterPatterns hg, forall_links_iff h,
    forall_constraints_iff (P := fun v t => t.holds (view.meaning model paths n v) = true) h, and_assoc,
    ← satisfies_all_iff base type n hg hread h.placed, Sparql.mem_instances]
  exact ⟨fun h => ⟨h.isInstance, h.belongs, h.satisfies⟩, fun ⟨hinstance, hbelongs, hfilters⟩ =>
    ⟨hinstance, hbelongs, hfilters⟩⟩

theorem solutions_count (hs : view.schema.Valid) (hg : view.graph.Single)
    (hfields : view.schema.fields model = .ok fields) {o : Outline}
    (ho : q.outline view.schema model fields true = .ok o) :
    ∃ rows : List Node, rows.Nodup ∧ (∀ n, n ∈ rows ↔ view.Selects model type q n) ∧
      List.Forall₂ (view.Shows fields) rows
        (Service.solutions view.graph (o.count (view.vocabulary base type)).group) := by
  obtain ⟨filters, order, hread, horder, rfl⟩ := Query.outline_eq_ok ho
  -- A count has no order, so the filters alone make the joins.
  obtain rfl := List.forall₂_nil_left_iff.1 horder
  have hlinked := Joins.allLinked_reachAll Joins.empty filters List.prefix_rfl
  generalize hjoins : Joins.empty.reachAll filters = joined at hlinked
  have hlead : ∀ n ∈ Sparql.instances view.graph view.reserved.instanceOf view.reserved.subclassOf type,
      Lead view.graph (view.meaning model joined.1.paths n) [.item] (laterPatterns view base type fields joined.1.links) :=
    fun n _ => lead_laterPatterns hs hfields (hlinked.rooted .nil) (coherent_links hread hlinked)
  have htable := Sparql.tabulates_solutions hg (fun _ => rfl) hlead (constraints_known hfields hread hlinked)
  have hgroup : ((Outline.ofParts fields filters []).count (view.vocabulary base type)).group =
      (Pattern.instance .item view.reserved.instanceOf view.reserved.subclassOf type ::
        laterPatterns view base type fields joined.1.links).map Pattern.element ++
      (joined.2.map fun e => (⟨e.1, e.2⟩ : Constraint)).map Constraint.element := by
    simp only [Outline.ofParts, hjoins]
    rfl
  rw [hgroup]
  refine ⟨_, (Sparql.nodup_instances hg).filter _, fun n => ?_, List.Forall₂.imp (fun n μ => shows_of_agrees hs hfields) htable⟩
  rw [selects_iff hg hread hlinked, List.mem_filter, Bool.and_eq_true, List.all_eq_true, List.all_eq_true]

end Count

end View

end ClaimTables
