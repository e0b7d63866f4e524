import ClaimTables.Proofs.Query.Outline

/-!
The scope of the variables of a query. A claim is asked only of the row, or of what a reference was followed to before,
and of both only within the namespace; a variable is compared or sorted by only if something binds it, and what binds
it is the same wherever it stands.
-/

namespace ClaimTables

open Sparql (Constraint Pattern Select Variable)
open Joins (Held Placed Rooted names trail variableOf)

namespace Service

def Element.edges : Element → List Edge
  | .edge e | .optional e | .notExists e => [e]
  | .path subject first _ goal => [⟨subject, first, .constant goal⟩]
  | .filter _ => []

def Element.bindings : Element → List Edge
  | .edge e | .optional e => [e]
  | _ => []

def Slot.variables : Slot → List String
  | .variable name => [name]
  | .constant _ => []

def Expression.variables : Expression → List String
  | .truth _ => []
  | .bound name => [name]
  | .not e => e.variables
  | .compare _ left right => left.variables ++ right.variables
  | .isIn left terms => left.variables ++ terms.flatMap Slot.variables

def Element.asked : Element → List String
  | .filter e => e.variables
  | _ => []

def Bound (group : List Element) (name : String) : Prop :=
  name = "item" ∨ ∃ e ∈ group, ∃ b ∈ e.bindings, b.object = .variable name

/-- The rules for the variables of a group, and of an order over its solutions. -/
structure WellScoped (reserved : Reserved) (tag : String) (group : List Element) (sorted : List String) : Prop where
  held : ∀ before e after, group = before ++ e :: after → ∀ b ∈ e.edges, ∃ name, b.subject = .variable name ∧
    (name = "item" ∨ ∃ subject property, .edge ⟨subject, property, .variable name⟩ ∈ before)
  belongs : ∀ e ∈ group, ∀ b ∈ e.edges, .edge ⟨b.subject, reserved.tag, .constant (.text tag)⟩ ∈ group ∧
    .notExists ⟨b.subject, reserved.deleted, .constant (.text tag)⟩ ∈ group
  asked : ∀ e ∈ group, ∀ name ∈ e.asked, Bound group name
  sorted : ∀ name ∈ sorted, Bound group name
  single : ∀ e ∈ group, ∀ b ∈ e.bindings, ∀ e' ∈ group, ∀ b' ∈ e'.bindings, ∀ name, b.object = .variable name →
    b'.object = .variable name → b.subject = b'.subject ∧ b.property = b'.property
  joins : ∀ e ∈ group, ∀ b ∈ e.bindings, ∀ name, b.object = .variable name → b.subject ≠ .variable "item" →
    name ≠ "item" ∧ name ≠ "count" ∧ ∀ field, name ≠ "f_" ++ field

end Service

namespace Path

def stem (path : String) : List String :=
  if (segments path).getLast? = some Schema.idField then (segments path).dropLast else segments path

end Path

section Paths

variable {s : Schema} {model : String}

theorem names_of_follow {path current : String} {segments : List String} {steps : List ResolvedField} {target : Target}
    (h : Path.follow s model path current segments = ⟨steps, .ok target⟩) :
    names steps = if segments.getLast? = some Schema.idField then segments.dropLast else segments := by
  induction segments generalizing current steps with
  | nil => exact nomatch (Walk.mk.inj h).2
  | cons segment rest ih =>
    rcases follow_eq_ok h with ⟨rfl, rfl, rfl, -⟩ | ⟨f, hend, -, rfl, ⟨rfl, rfl, -⟩ | ⟨next, later, hrest, -, rfl, hlater⟩⟩
    · rfl
    · have hne : f.field.name ≠ Schema.idField := fun heq => hend ⟨heq, rfl⟩
      simp [names, hne]
    · obtain ⟨second, others, rfl⟩ := List.exists_cons_of_ne_nil hrest
      rw [names, List.map_cons, ← names, ih hlater, List.getLast?_cons_cons, List.dropLast_cons_cons]
      split <;> rfl

theorem names_of_walk {path : String} {steps : List ResolvedField} {target : Target}
    (h : Path.walk s model path = ⟨steps, .ok target⟩) : names steps = Path.stem path :=
  names_of_follow (follow_of_walk h)

def origin? (paths : List (List String)) : Variable → Option (List String)
  | .item => some []
  | .count => none
  | .field name => some [name]
  | .join k => paths[k]?

theorem origin?_variableOf {paths : List (List String)} {path : List String} (h : Placed paths path) :
    origin? paths (variableOf paths path) = some path := by
  match path, h with
  | [], _ => rfl
  | [name], _ => rfl
  | _ :: _ :: _, h => exact Joins.getElem?_idxOf h

theorem variableOf_inj {paths : List (List String)} {path other : List String} (hpath : Placed paths path)
    (hother : Placed paths other) : variableOf paths path = variableOf paths other ↔ path = other := by
  refine ⟨fun h => ?_, fun h => h ▸ rfl⟩
  have horigin := origin?_variableOf hpath
  rw [h, origin?_variableOf hother] at horigin
  exact (Option.some.inj horigin).symm

theorem Walks.cons_inv {f : ResolvedField} {rest : List ResolvedField} {target : Target}
    (h : Walks s model (f :: rest) target) : s.field model f.field.name = .ok f ∧
      (rest = [] ∨ ∃ next, f.field.type.target? = some next ∧ Walks s next rest target) := by
  cases h with
  | field hf => exact ⟨hf, .inl rfl⟩
  | follow hf ht hrest => exact ⟨hf, .inr ⟨_, ht, hrest⟩⟩

theorem Walks.eq_of_names_eq {front back other others : List ResolvedField} {target target' : Target}
    (h : Walks s model (front ++ back) target) (h' : Walks s model (other ++ others) target')
    (hnames : names front = names other) : front = other := by
  induction front generalizing model other with
  | nil => exact (List.map_eq_nil_iff.1 hnames.symm).symm
  | cons f front ih =>
    cases other with
    | nil => exact nomatch hnames
    | cons g other =>
      obtain ⟨hname, htail⟩ : f.field.name = g.field.name ∧ names front = names other := List.cons.inj hnames
      rw [List.cons_append] at h h'
      obtain ⟨hf, hback⟩ := h.cons_inv
      obtain ⟨hg, hothers⟩ := h'.cons_inv
      rw [← hname, hf] at hg
      obtain rfl := Except.ok.inj hg
      refine congrArg (f :: ·) ?_
      rcases hback with hempty | ⟨next, ht, hback⟩
      · rw [(List.append_eq_nil_iff.1 hempty).1] at htail ⊢
        exact (List.map_eq_nil_iff.1 htail.symm).symm
      · rcases hothers with hempty | ⟨next', ht', hothers⟩
        · rw [(List.append_eq_nil_iff.1 hempty).1] at htail ⊢
          exact List.map_eq_nil_iff.1 htail
        · obtain rfl := Option.some.inj (ht.symm.trans ht')
          exact ih hback hothers htail

end Paths

namespace Sparql

theorem Variable.name_join_ne {k : Nat} (u : Variable) (h : u ≠ .join k) : (Variable.join k).name ≠ u.name :=
  fun heq => h (name_injective heq).symm

namespace Pattern

def subject : Pattern → Variable
  | .instance v _ _ _ | .tagged v _ _ | .untagged v _ _ | .triple v _ _ | .optional v _ _ => v

theorem subject_of_mem_edges {p : Pattern} {b : Service.Edge} (hb : b ∈ p.element.edges) : b.subject = p.subject.slot := by
  cases p <;> rw [List.mem_singleton.1 hb] <;> rfl

end Pattern

/-- That every pattern is about the row, or about what an earlier pattern binds for sure. -/
inductive Ordered : List Pattern → Prop
  | nil : Ordered []
  | concat {ps : List Pattern} {p : Pattern} : Ordered ps →
    (p.subject = .item ∨ ∃ subject property, .triple subject property p.subject ∈ ps) → Ordered (ps ++ [p])

theorem Ordered.held {ps before after : List Pattern} {p : Pattern} (h : Ordered ps) (heq : ps = before ++ p :: after) :
    p.subject = .item ∨ ∃ subject property, .triple subject property p.subject ∈ before := by
  induction h generalizing after with
  | nil => exact absurd heq (by simp)
  | @concat ps q hps hq ih =>
    rcases List.eq_nil_or_concat after with rfl | ⟨later, r, rfl⟩
    · obtain ⟨rfl, hqp⟩ := List.append_inj' heq rfl
      obtain rfl := (List.cons.inj hqp).1
      exact hq
    · rw [List.concat_eq_append, ← List.cons_append, ← List.append_assoc] at heq
      exact ih (List.append_inj' heq rfl).1

theorem Ordered.append_item {ps qs : List Pattern} (h : Ordered ps) (hqs : ∀ q ∈ qs, q.subject = .item) :
    Ordered (ps ++ qs) := by
  induction qs using List.reverseRecOn with
  | nil => rwa [List.append_nil]
  | append_singleton qs q ih =>
    rw [← List.append_assoc]
    exact (ih fun r hr => hqs r (List.mem_append_left _ hr)).concat (.inl (hqs q (by simp)))

end Sparql

namespace Outline

open Sparql (Ordered)

variable {v : Vocabulary} {links : List Link}

theorem triple_mem_of_held {u : Variable} (h : Held links u) : u = .item ∨
    ∃ subject property, .triple subject property u ∈ links.flatMap (linkPatterns v) := by
  refine h.imp_right ?_
  rintro ⟨subject, key, hl⟩
  exact ⟨subject, v.property key, List.mem_flatMap.2 ⟨_, hl, List.mem_cons_self⟩⟩

theorem ordered_links {ps : List Pattern} (hps : Ordered ps) (h : Rooted links) :
    Ordered (ps ++ links.flatMap (linkPatterns v)) := by
  induction h with
  | nil => simpa using hps
  | @concat links l hlinks hl ih =>
    have hsubject := (triple_mem_of_held (v := v) hl).imp_right fun ⟨subject, property, h⟩ =>
      (⟨subject, property, List.mem_append_right ps h⟩ : ∃ subject property, Pattern.triple subject property l.subject ∈ _)
    rw [List.flatMap_append, ← List.append_assoc, List.flatMap_singleton]
    cases l with
    | value subject key object => exact ih.concat hsubject
    | follow subject key object =>
      have hsplit : linkPatterns v (.follow subject key object) = [.triple subject (v.property key) object] ++
          [.tagged object v.reserved.tag v.tag] ++ [.untagged object v.reserved.deleted v.tag] := rfl
      rw [hsplit, ← List.append_assoc, ← List.append_assoc]
      have htriple := ih.concat (p := .triple subject (v.property key) object) hsubject
      refine (htriple.concat (.inr ⟨subject, v.property key, ?_⟩)).concat (.inr ⟨subject, v.property key, ?_⟩)
      · exact List.mem_append_right _ List.mem_cons_self
      · exact List.mem_append_left _ (List.mem_append_right _ List.mem_cons_self)

theorem subject_row (v : Vocabulary) (fields : List ResolvedField) {p : Pattern}
    (hp : p ∈ Pattern.instance .item v.reserved.instanceOf v.reserved.subclassOf v.type :: belonging v .item ++
      fields.map (fun f => .optional .item (v.property f.key) (.field f.field.name))) : p.subject = .item := by
  rcases List.mem_append.1 hp with hp | hp
  · simp only [belonging, List.mem_cons, List.not_mem_nil, or_false] at hp
    rcases hp with rfl | rfl | rfl <;> rfl
  · obtain ⟨f, -, rfl⟩ := List.mem_map.1 hp
    rfl

theorem ordered_patterns {o : Outline} (h : Rooted o.links) : Ordered (o.patterns v) := by
  have hfront := Ordered.append_item .nil fun p hp => subject_row v o.fields hp
  exact ordered_links hfront h

theorem belonging_subset {o : Outline} {u : Variable} (h : Held o.links u) : belonging v u ⊆ o.patterns v := by
  intro p hp
  rcases h with rfl | ⟨subject, key, hl⟩
  · exact List.mem_append_left _ (List.mem_append_left _ (List.mem_cons_of_mem _ hp))
  · exact List.mem_append_right _ (List.mem_flatMap.2 ⟨_, hl, List.mem_cons_of_mem _ hp⟩)

theorem held_of_rooted (h : Rooted links) {l : Link} (hl : l ∈ links) : Held links l.subject := by
  induction h with
  | nil => exact absurd hl List.not_mem_nil
  | concat hlinks hlast ih =>
    rcases List.mem_append.1 hl with hl | hl
    · exact (ih hl).mono (List.subset_append_left _ _)
    · rw [List.mem_singleton.1 hl]
      exact hlast.mono (List.subset_append_left _ _)

theorem held_subject {o : Outline} (h : Rooted o.links) {p : Pattern} (hp : p ∈ o.patterns v) :
    Held o.links p.subject := by
  rcases List.mem_append.1 hp with hp | hp
  · exact .inl (subject_row v o.fields hp)
  · obtain ⟨l, hl, hp⟩ := List.mem_flatMap.1 hp
    cases l with
    | value subject key object =>
      rw [List.mem_singleton.1 hp]
      exact held_of_rooted h hl
    | follow subject key object =>
      simp only [linkPatterns, belonging, List.mem_cons, List.not_mem_nil, or_false] at hp
      rcases hp with rfl | rfl | rfl
      · exact held_of_rooted h hl
      · exact .inr ⟨subject, key, hl⟩
      · exact .inr ⟨subject, key, hl⟩

variable {s : Schema} {model : String} {fields : List ResolvedField} {o : Outline} {paths : List (List String)}
  {reached : List Reached}

theorem not_binding_of_belonging {u : Variable} {p : Pattern} (hp : p ∈ belonging v u) {b : Service.Edge}
    (hb : b ∈ p.element.bindings) {name : String} : b.object ≠ .variable name := by
  simp only [belonging, List.mem_cons, List.not_mem_nil, or_false] at hp
  rcases hp with rfl | rfl
  · rw [List.mem_singleton.1 hb]
    intro h
    cases h
  · exact absurd hb List.not_mem_nil

theorem binding_of_link {l : Link} {p : Pattern} (hp : p ∈ linkPatterns v l) {b : Service.Edge}
    (hb : b ∈ p.element.bindings) {name : String} (hname : b.object = .variable name) :
    b = ⟨l.subject.slot, v.property l.key, l.object.slot⟩ := by
  cases l with
  | value subject key object =>
    rw [List.mem_singleton.1 hp] at hb
    exact List.mem_singleton.1 hb
  | follow subject key object =>
    rcases List.mem_cons.1 hp with rfl | hp
    · exact List.mem_singleton.1 hb
    · exact absurd hname (not_binding_of_belonging hp hb)

theorem binding_along (hs : s.Valid) (hfields : s.fields model = .ok fields) (hofields : o.fields = fields)
    (h : o.Traces s model paths reached) {p : Pattern} (hp : p ∈ o.patterns v) {b : Service.Edge}
    (hb : b ∈ p.element.bindings) {name : String} (hname : b.object = .variable name) :
    ∃ front f back target, Walks s model (front ++ f :: back) target ∧ Placed paths (names front) ∧
      Placed paths (names (front ++ [f])) ∧ b.subject = (variableOf paths (names front)).slot ∧
      b.property = v.property f.key ∧ name = (variableOf paths (names (front ++ [f]))).name := by
  rcases List.mem_append.1 hp with hp | hp
  · rcases List.mem_append.1 hp with hp | hp
    · rcases List.mem_cons.1 hp with rfl | hp
      · exact absurd hb List.not_mem_nil
      · exact absurd hname (not_binding_of_belonging hp hb)
    · obtain ⟨f, hf, rfl⟩ := List.mem_map.1 hp
      obtain rfl := List.mem_singleton.1 hb
      have hfound := hs.field_of_mem hfields (hofields ▸ hf)
      refine ⟨[], f, [], _, .field hfound, .inl (Nat.zero_le 1), .inl (Nat.le_refl 1), rfl, rfl, ?_⟩
      exact (Service.Slot.variable.inj hname).symm
  · obtain ⟨l, hl, hp⟩ := List.mem_flatMap.1 hp
    obtain ⟨r, hr, front, f, back, hsteps, hkey, hsubject, hobject⟩ := h.exists_of_mem hl
    have hwalks := h.walks r hr
    rw [hsteps] at hwalks
    obtain rfl := binding_of_link hp hb hname
    refine ⟨front, f, back, r.target, hwalks, h.placed r hr front _ hsteps,
      h.placed r hr (front ++ [f]) back (by simp [hsteps]), ?_, ?_, ?_⟩
    · rw [hsubject]
    · rw [hkey]
    · rw [← hobject]
      exact (Service.Slot.variable.inj hname).symm

end Outline

namespace Sparql.Select

open Service (Bound Element WellScoped)

variable {select : Select}

theorem mem_group {e : Element} : e ∈ select.group ↔
    (∃ p ∈ select.patterns, p.element = e) ∨ ∃ c ∈ select.constraints, c.element = e := by
  rw [group, List.mem_append, List.mem_map, List.mem_map]

theorem pattern_of_mem_edges {e : Element} (he : e ∈ select.group) {b : Service.Edge} (hb : b ∈ e.edges) :
    ∃ p ∈ select.patterns, p.element = e := by
  rcases mem_group.1 he with hp | ⟨c, -, rfl⟩
  · exact hp
  · exact absurd hb List.not_mem_nil

theorem pattern_of_mem_bindings {e : Element} (he : e ∈ select.group) {b : Service.Edge} (hb : b ∈ e.bindings) :
    ∃ p ∈ select.patterns, p.element = e := by
  rcases mem_group.1 he with hp | ⟨c, -, rfl⟩
  · exact hp
  · exact absurd hb List.not_mem_nil

theorem pattern_of_split {before after : List Element} {e : Element} (h : select.group = before ++ e :: after)
    {b : Service.Edge} (hb : b ∈ e.edges) :
    ∃ front p back, select.patterns = front ++ p :: back ∧ before = front.map Pattern.element ∧ p.element = e := by
  have hcondition : ∀ c ∈ select.constraints, c.element ≠ e := by
    rintro c - rfl
    exact absurd hb List.not_mem_nil
  rcases List.append_eq_append_iff.1 h with ⟨between, -, hbetween⟩ | ⟨between, hpatterns, hbetween⟩
  · obtain ⟨c, hc, hce⟩ := List.mem_map.1 (hbetween ▸ List.mem_append_right between List.mem_cons_self)
    exact absurd hce (hcondition c hc)
  · cases between with
    | nil =>
      obtain ⟨c, hc, hce⟩ := List.mem_map.1 (hbetween.trans (List.nil_append _) ▸ List.mem_cons_self : e ∈ _)
      exact absurd hce (hcondition c hc)
    | cons d between =>
      obtain ⟨rfl, -⟩ := List.cons.inj hbetween
      obtain ⟨front, rest, hsplit, hfront, hrest⟩ := List.map_eq_append_iff.1 hpatterns
      obtain ⟨p, back, rfl, hp, -⟩ := List.map_eq_cons_iff.1 hrest
      exact ⟨front, p, back, hsplit, hfront.symm, hp⟩

theorem bound_of_known {v : Variable} {ps : List Pattern} (hps : ps ⊆ select.patterns)
    (hv : v ∈ knownAfter [.item] ps) : Bound select.group v.name := by
  rcases View.mem_knownAfter.1 hv with hv | ⟨p, hp, hv⟩
  · rw [List.mem_singleton.1 hv]
    exact .inl rfl
  · refine .inr ⟨p.element, mem_group.2 (.inl ⟨p, hps hp, rfl⟩), ?_⟩
    cases p with
    | triple u k o =>
      rw [List.mem_singleton.1 hv]
      exact ⟨_, List.mem_singleton_self _, rfl⟩
    | optional u k o =>
      rw [List.mem_singleton.1 hv]
      exact ⟨_, List.mem_singleton_self _, rfl⟩
    | _ => exact absurd hv List.not_mem_nil

theorem variables_expression {c : Constraint} {name : String} (h : name ∈ c.element.asked) : name = c.subject.name := by
  obtain ⟨v, test⟩ := c
  cases test with
  | compare comparison t => simpa [Constraint.element, Constraint.expression, Element.asked,
      Service.Expression.variables, Service.Slot.variables, Variable.slot] using h
  | oneOf terms => simpa [Constraint.element, Constraint.expression, Element.asked,
      Service.Expression.variables, Service.Slot.variables, Variable.slot] using h
  | bound expected => cases expected <;> exact List.mem_singleton.1 h
  | never => exact absurd h List.not_mem_nil

variable {s : Schema} {model : String} {q : Query} {counting : Bool} {fields : List ResolvedField} {o : Outline}
  {v : Vocabulary}

section Scoped

variable {paths : List (List String)} {reached : List Reached} (h : o.Traces s model paths reached)

include h

theorem bound_of_asked (hfields : s.fields model = .ok fields) (hofields : o.fields = fields)
    (hpatterns : select.patterns = o.patterns v) {u : Variable}
    (hu : u ∈ o.constraints.map (·.subject) ++ o.order.map (·.1)) : Bound select.group u.name := by
  rw [h.asked] at hu
  obtain ⟨r, hr, rfl⟩ := List.mem_map.1 hu
  have hlater : View.laterPatterns ⟨s, v.tag, v.reserved, v.property, ⟨[], List.nodup_nil⟩⟩ v.base v.type fields o.links ⊆
      select.patterns := by
    rw [hpatterns, ← hofields]
    exact List.subset_cons_self _ _
  refine bound_of_known hlater (View.ending_known hfields (h.walks r hr) fun l hl => ?_)
  exact (h.mem_links l).2 ⟨r, hr, hl⟩

theorem held_of_split (hpatterns : select.patterns = o.patterns v) {before after : List Element} {e : Element}
    (hsplit : select.group = before ++ e :: after) {b : Service.Edge} (hb : b ∈ e.edges) :
    ∃ name, b.subject = .variable name ∧
      (name = "item" ∨ ∃ subject property, .edge ⟨subject, property, .variable name⟩ ∈ before) := by
  obtain ⟨front, p, back, hps, rfl, rfl⟩ := pattern_of_split hsplit hb
  refine ⟨p.subject.name, Pattern.subject_of_mem_edges hb, ?_⟩
  rcases (Outline.ordered_patterns h.rooted).held (hpatterns.symm.trans hps) with hitem | ⟨u, k, htriple⟩
  · exact .inl (congrArg Variable.name hitem)
  · exact .inr ⟨u.slot, k, List.mem_map.2 ⟨_, htriple, rfl⟩⟩

theorem belongs_of_edge (hpatterns : select.patterns = o.patterns v) {e : Element} (he : e ∈ select.group)
    {b : Service.Edge} (hb : b ∈ e.edges) :
    .edge ⟨b.subject, v.reserved.tag, .constant (.text v.tag)⟩ ∈ select.group ∧
      .notExists ⟨b.subject, v.reserved.deleted, .constant (.text v.tag)⟩ ∈ select.group := by
  obtain ⟨p, hp, rfl⟩ := pattern_of_mem_edges he hb
  rw [hpatterns] at hp
  have hbelonging := Outline.belonging_subset (v := v) (Outline.held_subject h.rooted hp)
  rw [← hpatterns] at hbelonging
  rw [Pattern.subject_of_mem_edges hb]
  exact ⟨mem_group.2 (.inl ⟨_, hbelonging List.mem_cons_self, rfl⟩),
    mem_group.2 (.inl ⟨_, hbelonging (List.mem_cons_of_mem _ List.mem_cons_self), rfl⟩)⟩

theorem bound_alike (hs : s.Valid) (hfields : s.fields model = .ok fields) (hofields : o.fields = fields)
    {p p' : Pattern} (hp : p ∈ o.patterns v) (hp' : p' ∈ o.patterns v) {b b' : Service.Edge}
    (hb : b ∈ p.element.bindings) (hb' : b' ∈ p'.element.bindings) {name : String} (hname : b.object = .variable name)
    (hname' : b'.object = .variable name) : b.subject = b'.subject ∧ b.property = b'.property := by
  obtain ⟨front, f, back, target, hwalks, -, hplaced, hsubject, hproperty, rfl⟩ :=
    Outline.binding_along hs hfields hofields h hp hb hname
  obtain ⟨front', f', back', target', hwalks', -, hplaced', hsubject', hproperty', hsame⟩ :=
    Outline.binding_along hs hfields hofields h hp' hb' hname'
  -- One variable belongs to one path, and one path passes the same fields wherever it goes on.
  have hnames := (variableOf_inj hplaced hplaced').1 (Variable.name_injective hsame)
  have hsteps : front ++ [f] = front' ++ [f'] :=
    Walks.eq_of_names_eq (by simpa using hwalks) (by simpa using hwalks') hnames
  obtain ⟨rfl, hf⟩ := List.append_inj' hsteps rfl
  obtain rfl := (List.cons.inj hf).1
  exact ⟨hsubject.trans hsubject'.symm, hproperty.trans hproperty'.symm⟩

theorem join_of_subject_ne (hs : s.Valid) (hfields : s.fields model = .ok fields) (hofields : o.fields = fields)
    {p : Pattern} (hp : p ∈ o.patterns v) {b : Service.Edge} (hb : b ∈ p.element.bindings) {name : String}
    (hname : b.object = .variable name) (hne : b.subject ≠ .variable "item") : ∃ k, name = (Variable.join k).name := by
  obtain ⟨front, f, back, target, -, -, -, hsubject, -, rfl⟩ :=
    Outline.binding_along hs hfields hofields h hp hb hname
  cases front with
  | nil => exact absurd hsubject hne
  | cons g front =>
    have hjoin : variableOf paths (names (g :: front ++ [f])) = .join (paths.idxOf (names (g :: front ++ [f]))) := by
      cases front <;> rfl
    exact ⟨_, congrArg Variable.name hjoin⟩

end Scoped

theorem wellScoped (hs : s.Valid) (hfields : s.fields model = .ok fields)
    (ho : q.outline s model fields counting = .ok o) (hpatterns : select.patterns = o.patterns v)
    (hconstraints : select.constraints = o.constraints) (horder : select.order ⊆ o.order) :
    WellScoped v.reserved v.tag select.group (select.order.map (·.1.name)) := by
  obtain ⟨hofields, paths, reached, h, -, -⟩ := Query.outline_traces ho
  refine ⟨fun before e after hsplit b hb => held_of_split h hpatterns hsplit hb,
    fun e he b hb => belongs_of_edge h hpatterns he hb, fun e he name hname => ?asked, fun name hname => ?sorted,
    fun e he b hb e' he' b' hb' name hname hname' => ?single, fun e he b hb name hname hne => ?joins⟩
  case asked =>
    rcases mem_group.1 he with ⟨p, -, rfl⟩ | ⟨c, hc, rfl⟩
    · cases p <;> exact absurd hname List.not_mem_nil
    · rw [variables_expression hname]
      exact bound_of_asked h hfields hofields hpatterns
        (List.mem_append_left _ (List.mem_map_of_mem (hconstraints ▸ hc)))
  case sorted =>
    obtain ⟨k, hk, rfl⟩ := List.mem_map.1 hname
    exact bound_of_asked h hfields hofields hpatterns (List.mem_append_right _ (List.mem_map_of_mem (horder hk)))
  case single =>
    obtain ⟨p, hp, rfl⟩ := pattern_of_mem_bindings he hb
    obtain ⟨p', hp', rfl⟩ := pattern_of_mem_bindings he' hb'
    rw [hpatterns] at hp hp'
    exact bound_alike h hs hfields hofields hp hp' hb hb' hname hname'
  case joins =>
    obtain ⟨p, hp, rfl⟩ := pattern_of_mem_bindings he hb
    rw [hpatterns] at hp
    obtain ⟨k, rfl⟩ := join_of_subject_ne h hs hfields hofields hp hb hname hne
    exact ⟨Variable.name_join_ne .item nofun, Variable.name_join_ne .count nofun,
      fun field => Variable.name_join_ne (.field field) nofun⟩

theorem exists_of_mem_zip_map {α β γ : Type} {R : α → β → Prop} {l : List α} {l' : List β} (h : List.Forall₂ R l l')
    (g : β → γ) {e : α × γ} (he : e ∈ l.zip (l'.map g)) : ∃ b ∈ l', R e.1 b ∧ e.2 = g b := by
  induction h with
  | nil => exact absurd he List.not_mem_nil
  | cons hab _ ih =>
    rw [List.map_cons, List.zip_cons_cons] at he
    rcases List.mem_cons.1 he with rfl | he
    · exact ⟨_, List.mem_cons_self, hab, rfl⟩
    · obtain ⟨b, hb, hR⟩ := ih he
      exact ⟨b, List.mem_cons_of_mem _ hb, hR⟩

theorem stem_iff (ho : q.outline s model fields counting = .ok o) {asked : List Variable}
    (hasked : asked = o.constraints.map (·.subject) ++ o.order.map (·.1)) :
    asked.length = (q.paths counting).length ∧
      ∀ e ∈ (q.paths counting).zip asked, ∀ e' ∈ (q.paths counting).zip asked,
        (e.2.text = e'.2.text ↔ Path.stem e.1 = Path.stem e'.1) := by
  obtain ⟨-, paths, reached, htraces, hwalk, -⟩ := Query.outline_traces ho
  rw [hasked, htraces.asked]
  refine ⟨by rw [List.length_map, hwalk.length_eq], fun e he e' he' => ?_⟩
  obtain ⟨r, hr, hpath, hvariable⟩ := exists_of_mem_zip_map hwalk _ he
  obtain ⟨r', hr', hpath', hvariable'⟩ := exists_of_mem_zip_map hwalk _ he'
  have hplaced := htraces.placed r hr r.steps [] (List.append_nil _).symm
  have hplaced' := htraces.placed r' hr' r'.steps [] (List.append_nil _).symm
  rw [← names_of_walk hpath, ← names_of_walk hpath', ← variableOf_inj hplaced hplaced', hvariable, hvariable']
  refine ⟨fun h => Variable.name_injective ?_, congrArg Variable.text⟩
  exact (String.append_right_inj _).1 h

theorem order_of_counting (ho : q.outline s model fields true = .ok o) : o.order = [] := by
  obtain ⟨filters, order, -, horder, rfl⟩ := Query.outline_eq_ok ho
  obtain rfl := List.forall₂_nil_left_iff.1 horder
  rfl

end Sparql.Select

end ClaimTables
