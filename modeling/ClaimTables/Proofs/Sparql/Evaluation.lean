import ClaimTables.Proofs.Sparql.Reading

/-!
The solutions of a query whose variables all hang on the row. If a meaning of the variables is given for every
row, so that each pattern leads from a meaning to a meaning, then there is one solution for each row for which
the patterns and conditions hold, and it binds the variables to their meanings.
-/

namespace ClaimTables

theorem Text.digits_injective {m n : Nat} (h : digits m = digits n) : m = n := by
  have hread := congrArg numeral? h
  rw [numeral?_digits, numeral?_digits] at hread
  exact Option.some.inj hread

namespace Service

theorem Graph.Single.filterMap_eq {g : Graph} (hg : g.Single) {β : Type} {x : Node} {p : PropertyId}
    {f : Triple → Option β} (hf : ∀ t, t.subject ≠ x ∨ t.property ≠ p → f t = none) :
    g.triples.filterMap f = ((g.object? x p).bind fun y => f ⟨x, p, y⟩).toList := by
  cases hy : g.object? x p with
  | none =>
    refine List.filterMap_eq_nil_iff.2 fun t ht => hf t (not_and_or.1 fun hmatch => ?_)
    obtain ⟨rfl, rfl⟩ := hmatch
    exact nomatch hy.symm.trans (hg.object?_eq_some.2 ht)
  | some y =>
    obtain ⟨before, after, hsplit⟩ := List.append_of_mem (Graph.mem_of_object? hy)
    have hnodup := hsplit ▸ g.nodup
    have hother : ∀ t ∈ before ++ after, f t = none := by
      intro t ht
      refine hf t (not_and_or.1 fun hmatch => ?_)
      obtain ⟨rfl, rfl⟩ := hmatch
      have hmem : t ∈ g.triples := by
        rw [hsplit, List.mem_append, List.mem_cons]
        rcases List.mem_append.1 ht with h | h
        · exact .inl h
        · exact .inr (.inr h)
      obtain rfl := hg _ hmem _ (Graph.mem_of_object? hy) rfl rfl
      exact absurd ht (List.nodup_cons.1 (List.nodup_middle.1 hnodup)).1
    rw [hsplit, List.filterMap_append, List.filterMap_cons,
      List.filterMap_eq_nil_iff.2 fun t ht => hother t (List.mem_append_left _ ht),
      List.filterMap_eq_nil_iff.2 fun t ht => hother t (List.mem_append_right _ ht), Option.bind_some]
    cases f ⟨x, p, y⟩ <;> rfl

end Service

namespace Sparql

open Service

namespace Variable

theorem name_injective {v w : Variable} (h : v.name = w.name) : v = w := by
  have h := congrArg String.toList h
  cases v <;> cases w <;> simp [name, Text.decimal, String.toList_inj] at h ⊢
  · exact h
  · exact Text.digits_injective h

end Variable

theorem lookup_name (v w : Variable) (x : Node) (μ : Mapping) :
    List.lookup v.name ((w.name, x) :: μ) = if v = w then some x else μ.lookup v.name := by
  rw [List.lookup_cons]
  by_cases h : v = w
  · rw [h, beq_self_eq_true, if_pos rfl]
  · rw [beq_eq_false_iff_ne.2 fun heq => h (Variable.name_injective heq), if_neg h]

variable {g : Graph} {ν : Variable → Option Node} {known : List Variable} {μ : Mapping}

/-- That a solution binds the known variables to what they mean, and no others. -/
def Agrees (ν : Variable → Option Node) (known : List Variable) (μ : Mapping) : Prop :=
  ∀ v, μ.lookup v.name = if v ∈ known then ν v else none

theorem Agrees.lookup (h : Agrees ν known μ) {v : Variable} (hv : v ∈ known) : μ.lookup v.name = ν v :=
  (h v).trans (if_pos hv)

theorem Agrees.append (h : Agrees ν known μ) {s o : Variable} {x y : Node} (hs : s ∈ known) (hx : ν s = some x)
    (hy : ν o = some y) : Agrees ν (o :: known) (μ ++ [(s.name, x), (o.name, y)]) := by
  intro v
  rw [List.lookup_append, h v, lookup_name, lookup_name]
  by_cases hvs : v = s
  · rw [hvs, if_pos hs, if_pos (List.mem_cons_of_mem _ hs), hx]
    rfl
  · rw [if_neg hvs]
    by_cases hvo : v = o
    · rw [hvo, if_pos rfl, if_pos List.mem_cons_self, hy]
      split <;> rfl
    · have hmem : v ∈ o :: known ↔ v ∈ known := by rw [List.mem_cons, or_iff_right hvo]
      rw [if_neg hvo, if_congr hmem rfl rfl]
      exact Option.or_none

theorem Agrees.append_subject (h : Agrees ν known μ) {s : Variable} {x : Node} (hs : s ∈ known)
    (hx : ν s = some x) : Agrees ν known (μ ++ [(s.name, x)]) := by
  intro v
  rw [List.lookup_append, h v, lookup_name]
  by_cases hvs : v = s
  · rw [hvs, if_pos hs, hx]
    rfl
  · rw [if_neg hvs]
    exact Option.or_none

section Edge

variable {s o : Variable} {p : PropertyId} {x : Node}

theorem merge?_other {a y : Node} (hs : μ.lookup s.name = some x) (ha : a ≠ x) (object : Slot) :
    ((s.slot.match? a).bind fun b => (object.match? y).bind b.merge?).bind μ.merge? = none := by
  have hne : ¬ x = a := fun heq => ha heq.symm
  cases object.match? y with
  | none => rfl
  | some b =>
    simp only [Variable.slot, Slot.match?, Option.bind_some, Mapping.merge?]
    split
    · simp [Mapping.merge?, hs, hne]
    · rfl

theorem goesWith_eq (hg : g.Single) (hs : μ.lookup s.name = some x) (object : Slot) :
    (Edge.answers g ⟨s.slot, p, object⟩).filterMap μ.merge? =
      ((g.object? x p).bind fun y =>
        ((s.slot.match? x).bind fun b => (object.match? y).bind b.merge?).bind μ.merge?).toList := by
  have hone := hg.filterMap_eq (x := x) (p := p) (f := fun t =>
    (if t.property = p then (s.slot.match? t.subject).bind fun b => (object.match? t.object).bind b.merge?
      else none).bind μ.merge?) fun t ht => ?_
  · rw [Edge.answers, List.filterMap_filterMap, hone]
    simp only [if_true]
  · by_cases hp : t.property = p
    · rw [if_pos hp, merge?_other hs (ht.resolve_right fun hne => hne hp)]
    · rw [if_neg hp, Option.bind_none]

theorem goesWith_triple (hg : g.Single) (h : Agrees ν known μ) (hs : s ∈ known) (hx : ν s = some x)
    (ho : ν o = g.object? x p) :
    (Edge.answers g ⟨s.slot, p, o.slot⟩).filterMap μ.merge? =
      ((ν o).map fun y => μ ++ [(s.name, x), (o.name, y)]).toList := by
  have hlookup : μ.lookup s.name = some x := (h.lookup hs).trans hx
  rw [goesWith_eq hg hlookup, ← ho]
  cases hy : ν o with
  | none => rfl
  | some y =>
    have hcompatible : (μ.lookup o.name).all (· = y) = true := by
      rw [h o, hy]
      split
      · exact decide_eq_true rfl
      · rfl
    have hsame : o = s → x = y := fun heq => Option.some.inj (hx.symm.trans (heq ▸ hy))
    have hfirst : Mapping.merge? [(s.name, x)] [(o.name, y)] = some [(s.name, x), (o.name, y)] := by
      simp only [Mapping.merge?, List.all_cons, List.all_nil, Bool.and_true, lookup_name, List.lookup_nil]
      by_cases hos : o = s
      · simp [hos, hsame hos]
      · simp [hos]
    have hmerge : μ.merge? [(s.name, x), (o.name, y)] = some (μ ++ [(s.name, x), (o.name, y)]) := by
      simp [Mapping.merge?, hlookup, hcompatible]
    simp only [Variable.slot, Slot.match?, Option.bind_some, hfirst, hmerge, Option.map_some]

theorem goesWith_constant (hg : g.Single) (h : Agrees ν known μ) (hs : s ∈ known) (hx : ν s = some x) (c : Node) :
    (Edge.answers g ⟨s.slot, p, .constant c⟩).filterMap μ.merge? =
      if g.object? x p = some c then [μ ++ [(s.name, x)]] else [] := by
  have hlookup : μ.lookup s.name = some x := (h.lookup hs).trans hx
  have hmerge : μ.merge? [(s.name, x)] = some (μ ++ [(s.name, x)]) := by simp [Mapping.merge?, hlookup]
  have hfirst : Mapping.merge? [(s.name, x)] [] = some [(s.name, x)] := rfl
  rw [goesWith_eq hg hlookup]
  cases g.object? x p with
  | none => rfl
  | some y =>
    by_cases hc : c = y
    · simp only [Variable.slot, Slot.match?, Option.bind_some, hfirst, hmerge, hc, if_true]
      rfl
    · have hne : ¬ some y = some c := fun heq => hc (Option.some.inj heq).symm
      simp only [Variable.slot, Slot.match?, Option.bind_some, if_neg hc, Option.bind_none, if_neg hne]
      rfl

end Edge

namespace Pattern

def holds (g : Graph) (ν : Variable → Option Node) : Pattern → Bool
  | .instance v p q type =>
    ((ν v).bind (g.object? · p)).any fun y => reaches (g.edges q) y (.item type)
  | .tagged v p tag => (ν v).bind (g.object? · p) = some (.text tag)
  | .untagged v p tag => (ν v).bind (g.object? · p) ≠ some (.text tag)
  | .triple _ _ o => (ν o).isSome
  | .optional _ _ _ => true

theorem holds_tagged {v : Variable} {p : PropertyId} {tag : String} :
    (Pattern.tagged v p tag).holds g ν = true ↔ (ν v).bind (g.object? · p) = some (.text tag) :=
  decide_eq_true_iff

theorem holds_untagged {v : Variable} {p : PropertyId} {tag : String} :
    (Pattern.untagged v p tag).holds g ν = true ↔ ¬ (ν v).bind (g.object? · p) = some (.text tag) :=
  decide_eq_true_iff

def joins (g : Graph) (ν : Variable → Option Node) : Pattern → Bool
  | .untagged _ _ _ => true
  | p => p.holds g ν

def Leads (g : Graph) (ν : Variable → Option Node) (known : List Variable) : Pattern → Prop
  | .instance _ _ _ _ => False
  | .tagged v _ _ | .untagged v _ _ => v ∈ known ∧ (ν v).isSome = true
  | .triple v p o | .optional v p o =>
    v ∈ known ∧ (ν v).isSome = true ∧ ν o = (ν v).bind (g.object? · p)

def binds : Pattern → List Variable
  | .triple _ _ o | .optional _ _ o => [o]
  | _ => []

theorem extend_one (hg : g.Single) (h : Agrees ν known μ) {p : Pattern} (hp : p.Leads g ν known) :
    if p.joins g ν then ∃ μ', p.element.extend g [μ] = [μ'] ∧ Agrees ν (p.binds ++ known) μ'
    else p.element.extend g [μ] = [] := by
  have hjoin : ∀ right, join [μ] right = right.filterMap μ.merge? := fun right => List.append_nil _
  -- A pattern that joins has one solution if its object is there, and none else; the others always keep the one that is.
  cases p with
  | «instance» => exact hp.elim
  | tagged v p tag =>
    obtain ⟨hv, hsome⟩ := hp
    obtain ⟨x, hx⟩ := Option.isSome_iff_exists.1 hsome
    simp only [joins, holds, element, Element.extend, hjoin, goesWith_constant hg h hv hx, hx, Option.bind_some,
      decide_eq_true_eq]
    split
    · exact ⟨_, rfl, h.append_subject hv hx⟩
    · rfl
  | untagged v p tag => exact ⟨μ, rfl, h⟩
  | triple v p o =>
    obtain ⟨hv, hsome, ho⟩ := hp
    obtain ⟨x, hx⟩ := Option.isSome_iff_exists.1 hsome
    rw [hx, Option.bind_some] at ho
    simp only [joins, holds, element, Element.extend, hjoin, goesWith_triple hg h hv hx ho]
    cases hy : ν o with
    | none => rfl
    | some y => exact ⟨_, rfl, h.append hv hx hy⟩
  | optional v p o =>
    obtain ⟨hv, hsome, ho⟩ := hp
    obtain ⟨x, hx⟩ := Option.isSome_iff_exists.1 hsome
    rw [hx, Option.bind_some] at ho
    simp only [joins, holds, element, Element.extend, leftJoin, List.flatMap_singleton, goesWith_triple hg h hv hx ho]
    cases hy : ν o with
    | none =>
      refine ⟨μ, rfl, fun w => (h w).trans ?_⟩
      by_cases hw : w = o
      · rw [hw, hy, ite_self, ite_self]
      · exact if_congr (by rw [binds, List.singleton_append, List.mem_cons, or_iff_right hw]) rfl rfl
    | some y => exact ⟨_, rfl, h.append hv hx hy⟩

theorem extend_cons (p : Pattern) (μ : Mapping) (solutions : List Mapping) :
    p.element.extend g (μ :: solutions) = p.element.extend g [μ] ++ p.element.extend g solutions := by
  cases p <;> simp [element, Element.extend, join, leftJoin]

end Pattern

/-- One solution for each row, which binds the known variables to what they mean for that row. -/
def Tabulates (ν : Node → Variable → Option Node) (known : List Variable) : List Node → List Mapping → Prop :=
  List.Forall₂ fun n μ => Agrees (ν n) known μ

variable {meaning : Node → Variable → Option Node} {rows : List Node} {solutions : List Mapping}

theorem Tabulates.extend (hg : g.Single) (h : Tabulates meaning known rows solutions) {p : Pattern}
    (hp : ∀ n ∈ rows, p.Leads g (meaning n) known) :
    Tabulates meaning (p.binds ++ known) (rows.filter fun n => p.joins g (meaning n)) (p.element.extend g solutions) := by
  induction h with
  | nil =>
    cases p <;> exact .nil
  | @cons n μ rows solutions hμ _ ih =>
    have hone := Pattern.extend_one hg hμ (hp n List.mem_cons_self)
    have hrest := ih fun m hm => hp m (List.mem_cons_of_mem _ hm)
    rw [Pattern.extend_cons]
    by_cases hjoins : p.joins g (meaning n) = true
    · rw [if_pos hjoins] at hone
      obtain ⟨μ', hμ', hagrees⟩ := hone
      rw [List.filter_cons, if_pos hjoins, hμ']
      exact .cons hagrees hrest
    · rw [if_neg hjoins] at hone
      rw [List.filter_cons, if_neg hjoins, hone]
      exact hrest

def Lead (g : Graph) (ν : Variable → Option Node) : (known : List Variable) → List Pattern → Prop
  | _, [] => True
  | known, p :: rest => p.Leads g ν known ∧ (p.joins g ν = true → Lead g ν (p.binds ++ known) rest)

def knownAfter (known : List Variable) : List Pattern → List Variable
  | [] => known
  | p :: rest => knownAfter (p.binds ++ known) rest

theorem Tabulates.foldl (hg : g.Single) {patterns : List Pattern} (h : Tabulates meaning known rows solutions)
    (hp : ∀ n ∈ rows, Lead g (meaning n) known patterns) :
    Tabulates meaning (knownAfter known patterns)
      (rows.filter fun n => patterns.all fun p => p.joins g (meaning n))
      ((patterns.map Pattern.element).foldl (Element.extend g) solutions) := by
  induction patterns generalizing known rows solutions with
  | nil => simpa [knownAfter] using h
  | cons p rest ih =>
    have hfirst := h.extend hg fun n hn => (hp n hn).1
    have hrest := ih hfirst fun n hn => (hp n (List.mem_of_mem_filter hn)).2 (List.mem_filter.1 hn).2
    rw [List.filter_filter] at hrest
    simpa only [knownAfter, List.map_cons, List.foldl_cons, List.all_cons, Bool.and_comm] using hrest

theorem Tabulates.filter (h : Tabulates meaning known rows solutions) {keep : Node → Bool} {pass : Mapping → Bool}
    (hpass : ∀ n ∈ rows, ∀ μ, Agrees (meaning n) known μ → pass μ = keep n) :
    Tabulates meaning known (rows.filter keep) (solutions.filter pass) := by
  induction h with
  | nil => exact .nil
  | @cons n μ rows solutions hμ _ ih =>
    have hrest := ih fun m hm => hpass m (List.mem_cons_of_mem _ hm)
    rw [List.filter_cons, List.filter_cons, hpass n List.mem_cons_self μ hμ]
    split
    · exact .cons hμ hrest
    · exact hrest

namespace Test

def holds (x? : Option Node) : Test → Bool
  | .compare comparison t => x?.any fun x => Node.compare? comparison x t.node = some true
  | .oneOf terms => x?.any fun x => terms.any fun t => x.equal? t.node = some true
  | .bound expected => x?.isSome = expected
  | .never => false

end Test

theorem or?_eq_true {a b : Option Bool} : Expression.or? a b = some true ↔ a = some true ∨ b = some true := by
  rcases a with _ | (_ | _) <;> rcases b with _ | (_ | _) <;> simp [Expression.or?]

theorem foldr_or?_eq_true (values : List (Option Bool)) :
    values.foldr Expression.or? (some false) = some true ↔ some true ∈ values := by
  induction values with
  | nil => simp
  | cons a values ih =>
    rw [List.foldr_cons, or?_eq_true, ih, List.mem_cons, eq_comm]

theorem eval?_expression (c : Constraint) (μ : Mapping) :
    c.expression.eval? μ = some true ↔ c.test.holds (μ.lookup c.subject.name) = true := by
  obtain ⟨v, test⟩ := c
  cases test with
  | compare comparison t =>
    cases hx : μ.lookup v.name <;>
      simp [Constraint.expression, Expression.eval?, Variable.slot, Slot.value?, Test.holds, hx]
  | oneOf terms =>
    cases hx : μ.lookup v.name with
    | none => simp [Constraint.expression, Expression.eval?, Variable.slot, Slot.value?, Test.holds, hx]
    | some x =>
      simp only [Constraint.expression, Expression.eval?, Variable.slot, Slot.value?, Test.holds, hx,
        Option.bind_eq_bind, Option.bind_some, foldr_or?_eq_true, Option.any_some, List.any_eq_true,
        decide_eq_true_eq, List.map_map, List.mem_map, Function.comp_def]
  | bound expected =>
    cases expected <;>
      simp [Constraint.expression, Expression.eval?, Test.holds]
  | never => simp [Constraint.expression, Expression.eval?, Test.holds]

theorem subset_knownAfter (known : List Variable) (patterns : List Pattern) : known ⊆ knownAfter known patterns := by
  induction patterns generalizing known with
  | nil => exact fun _ h => h
  | cons p rest ih => exact fun v hv => ih _ (List.mem_append_right _ hv)

theorem passes_element (hg : g.Single) (h : Agrees ν known μ) {p : Pattern} (hp : p.Leads g ν known) :
    (p.joins g ν && p.element.passes g μ) = p.holds g ν := by
  cases p with
  | untagged v p tag =>
    obtain ⟨hv, hsome⟩ := hp
    obtain ⟨x, hx⟩ := Option.isSome_iff_exists.1 hsome
    have hgoes := goesWith_constant (p := p) hg h hv hx (.text tag)
    have hempty : (Edge.answers g ⟨v.slot, p, .constant (.text tag)⟩).all (fun b => (μ.merge? b).isNone) = true ↔
        (Edge.answers g ⟨v.slot, p, .constant (.text tag)⟩).filterMap μ.merge? = [] := by
      simp only [List.all_eq_true, Option.isNone_iff_eq_none, List.filterMap_eq_nil_iff]
    rw [hgoes] at hempty
    refine Bool.eq_iff_iff.2 ?_
    simp only [Pattern.joins, Pattern.holds, Pattern.element, Element.passes, Bool.true_and, hx, Option.bind_some,
      hempty, decide_eq_true_eq]
    split <;> simp_all
  | _ => exact Bool.and_true _

theorem Pattern.Leads.mono {p : Pattern} (hp : p.Leads g ν known) {later : List Variable} (hsub : known ⊆ later) :
    p.Leads g ν later := by
  cases p with
  | «instance» => exact hp
  | _ => exact ⟨hsub hp.1, hp.2⟩

/-- The patterns that lead on all hold exactly if those that join do and the filters at the end pass. -/
theorem all_holds (hg : g.Single) {patterns : List Pattern} (hp : Lead g ν known patterns) {later : List Variable}
    (hsub : knownAfter known patterns ⊆ later) (h : Agrees ν later μ) :
    ((patterns.all fun p => p.joins g ν) && patterns.all fun p => p.element.passes g μ) =
      patterns.all fun p => p.holds g ν := by
  induction patterns generalizing known with
  | nil => rfl
  | cons p rest ih =>
    have hknown : known ⊆ later := List.Subset.trans (subset_knownAfter known (p :: rest)) hsub
    have hfirst := passes_element hg h (hp.1.mono hknown)
    simp only [List.all_cons]
    rw [← hfirst]
    cases hjoins : p.joins g ν with
    | false => simp
    | true =>
      rw [← ih (hp.2 hjoins) hsub]
      simp only [Bool.true_and, Bool.and_left_comm]

def instances (g : Graph) (instanceOf subclassOf : PropertyId) (type : ItemId) : List Node :=
  (g.triples.filter fun t => t.property = instanceOf ∧ reaches (g.edges subclassOf) t.object (.item type)).map
    (·.subject)

variable {instanceOf subclassOf : PropertyId} {type : ItemId}

theorem mem_instances {n : Node} : n ∈ instances g instanceOf subclassOf type ↔
    ∃ y, g.Step instanceOf n y ∧ g.Reaches subclassOf y (.item type) := by
  simp only [instances, List.mem_map, List.mem_filter, decide_eq_true_eq, Graph.reaches_iff, Graph.Step]
  constructor
  · rintro ⟨⟨_, _, y⟩, ⟨ht, rfl, hy⟩, rfl⟩
    exact ⟨y, ht, hy⟩
  · rintro ⟨y, ht, hy⟩
    exact ⟨_, ⟨ht, rfl, hy⟩, rfl⟩

theorem nodup_instances (hg : g.Single) : (instances g instanceOf subclassOf type).Nodup := by
  refine (g.nodup.filter _).map_on fun s hs t ht heq => ?_
  obtain ⟨hs, hsp⟩ := List.mem_filter.1 hs
  obtain ⟨ht, htp⟩ := List.mem_filter.1 ht
  rw [decide_eq_true_eq] at hsp htp
  have hproperty : s.property = t.property := hsp.1.trans htp.1.symm
  have hobject := hg s hs t ht heq hproperty
  obtain ⟨_, _, _⟩ := s
  obtain ⟨_, _, _⟩ := t
  exact congr (congr (congrArg Triple.mk heq) hproperty) hobject

theorem tabulates_instances (g : Graph) (instanceOf subclassOf : PropertyId) (type : ItemId)
    (hitem : ∀ n, meaning n .item = some n) :
    Tabulates meaning [.item] (instances g instanceOf subclassOf type)
      ((Pattern.instance .item instanceOf subclassOf type).element.extend g [[]]) := by
  have hempty : ∀ b, Mapping.merge? [] b = some b := fun b => by simp [Mapping.merge?]
  have hextend : (Pattern.instance .item instanceOf subclassOf type).element.extend g [[]] =
      (instances g instanceOf subclassOf type).map fun n => [(Variable.item.name, n)] := by
    simp only [Pattern.element, Element.extend, join, List.flatMap_singleton, hempty, List.filterMap_some, pathAnswers,
      instances, List.map_map, Variable.slot, Slot.match?]
    rw [← List.filterMap_eq_map, List.filterMap_filter]
    refine List.filterMap_congr fun t _ => ?_
    simp
  rw [hextend]
  refine List.forall₂_map_right_iff.2 (List.forall₂_same.2 fun n _ v => ?_)
  rw [lookup_name, List.lookup_nil]
  by_cases hv : v = .item
  · rw [hv, if_pos rfl, if_pos List.mem_cons_self, hitem]
  · rw [if_neg hv, if_neg (by simpa using hv)]

theorem joins_of_holds {p : Pattern} (h : p.holds g ν = true) : p.joins g ν = true := by
  cases p with
  | untagged => rfl
  | _ => exact h

theorem foldl_constraints (constraints : List Constraint) (solutions : List Mapping) :
    (constraints.map Constraint.element).foldl (Element.extend g) solutions = solutions := by
  induction constraints with
  | nil => rfl
  | cons c rest ih => exact ih

theorem all_constraints {constraints : List Constraint} (h : Agrees ν known μ)
    (hc : ∀ c ∈ constraints, c.subject ∈ known) :
    (constraints.map Constraint.element).all (Element.passes g μ) =
      constraints.all fun c => c.test.holds (ν c.subject) := by
  rw [List.all_map, Bool.eq_iff_iff, List.all_eq_true, List.all_eq_true]
  refine forall₂_congr fun c hmem => ?_
  rw [← h.lookup (hc c hmem), ← eval?_expression]
  exact decide_eq_true_iff

/--
The solutions of a group that begins with the rows of a type: one for each row for which all patterns and
conditions hold.
-/
theorem tabulates_solutions (hg : g.Single) (hitem : ∀ n, meaning n .item = some n) {patterns : List Pattern}
    {constraints : List Constraint}
    (hp : ∀ n ∈ instances g instanceOf subclassOf type, Lead g (meaning n) [.item] patterns)
    (hc : ∀ c ∈ constraints, c.subject ∈ knownAfter [.item] patterns) :
    Tabulates meaning (knownAfter [.item] patterns)
      ((instances g instanceOf subclassOf type).filter fun n =>
        (patterns.all fun p => p.holds g (meaning n)) && constraints.all fun c => c.test.holds (meaning n c.subject))
      (Service.solutions g (((Pattern.instance .item instanceOf subclassOf type :: patterns).map Pattern.element) ++
        constraints.map Constraint.element)) := by
  have hjoined := (tabulates_instances g instanceOf subclassOf type hitem).foldl hg hp
  -- Joins happen as the elements come; filters, and that a claim is absent, are left for the end.
  have hpass : ∀ n ∈ (instances g instanceOf subclassOf type).filter fun n =>
        patterns.all fun p => p.joins g (meaning n), ∀ μ, Agrees (meaning n) (knownAfter [.item] patterns) μ →
      ((Pattern.instance .item instanceOf subclassOf type :: patterns).map Pattern.element ++
        constraints.map Constraint.element).all (Element.passes g μ) =
      ((patterns.all fun p => p.holds g (meaning n)) &&
        constraints.all fun c => c.test.holds (meaning n c.subject)) := by
    intro n hn μ hμ
    obtain ⟨hn, hjoins⟩ := List.mem_filter.1 hn
    have hholds := all_holds hg (hp n hn) (List.Subset.refl _) hμ
    rw [hjoins, Bool.true_and] at hholds
    rw [List.all_append, all_constraints hμ hc, ← hholds, List.map_cons, List.all_cons, List.all_map]
    rfl
  have hkeep : ∀ n, (((patterns.all fun p => p.holds g (meaning n)) &&
      constraints.all fun c => c.test.holds (meaning n c.subject)) &&
        patterns.all fun p => p.joins g (meaning n)) =
      ((patterns.all fun p => p.holds g (meaning n)) &&
        constraints.all fun c => c.test.holds (meaning n c.subject)) := by
    intro n
    rw [Bool.and_eq_left_iff_imp, Bool.and_eq_true, List.all_eq_true, List.all_eq_true]
    exact fun h => List.all_eq_true.2 fun p hp => joins_of_holds (h.1 p hp)
  have hfiltered := hjoined.filter hpass
  rw [List.filter_filter] at hfiltered
  simp only [hkeep] at hfiltered
  rw [Service.solutions, List.foldl_append, foldl_constraints]
  exact hfiltered

end Sparql

end ClaimTables
