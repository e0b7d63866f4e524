import ClaimTables.Proofs.Query.Outline
import ClaimTables.Proofs.Sparql.Tokens

/-!
Queries that differ in their tag and in texts that are compared with text fields. They are both refused or both put into
words, and then their texts are twins: whatever the tags and the texts are, they stay inside their literals.
-/

namespace ClaimTables

open Sparql

variable {tag tag' : String} {vs ws vs' ws' : List String}

/-- That two lists are related one by one, and what the relation needs for each is needed in turn. -/
inductive InTurn {α : Type} (R : List String → List String → α → α → Prop) :
    List String → List String → List α → List α → Prop
  | nil : InTurn R [] [] [] []
  | cons {vs ws vs' ws' as bs} {a b : α} : R vs ws a b → InTurn R vs' ws' as bs →
    InTurn R (vs ++ vs') (ws ++ ws') (a :: as) (b :: bs)

namespace InTurn

variable {α β : Type} {R : List String → List String → α → α → Prop} {S : List String → List String → β → β → Prop}

theorem map {f : α → β} {g : α → β} {as bs : List α} (h : InTurn R vs ws as bs)
    (hfg : ∀ {vs ws a b}, R vs ws a b → S vs ws (f a) (g b)) : InTurn S vs ws (as.map f) (bs.map g) := by
  induction h with
  | nil => exact .nil
  | cons hab _ ih => exact .cons (hfg hab) ih

theorem append {as bs as' bs' : List α} (h : InTurn R vs ws as bs) (h' : InTurn R vs' ws' as' bs') :
    InTurn R (vs ++ vs') (ws ++ ws') (as ++ as') (bs ++ bs') := by
  induction h with
  | nil => exact h'
  | cons hab _ ih =>
    rw [List.append_assoc, List.append_assoc]
    exact .cons hab ih

theorem of_forall {as : List α} {f g : α → β} (h : ∀ a ∈ as, S [] [] (f a) (g a)) :
    InTurn S [] [] (as.map f) (as.map g) := by
  induction as with
  | nil => exact .nil
  | cons a as ih =>
    rw [List.forall_mem_cons] at h
    exact .cons h.1 (ih h.2)

end InTurn

namespace Sparql

theorem Alike.join {lines lines' : List String} (h : InTurn (Alike tag tag') vs ws lines lines') :
    Alike tag tag' vs ws (String.join lines) (String.join lines') := by
  induction h with
  | nil => exact alike_plain (s := "") (by simp)
  | cons hab _ ih =>
    rw [String.join_cons, String.join_cons]
    exact hab.append ih

theorem Alike.intercalate {lines lines' : List String} (h : InTurn (Alike tag tag') vs ws lines lines') :
    Alike tag tag' vs ws (", ".intercalate lines) (", ".intercalate lines') := by
  induction h with
  | nil => exact alike_plain (s := "") (by simp)
  | @cons _ _ _ _ as bs a b hab hrest ih =>
    cases hrest with
    | nil => simpa using hab
    | cons hcd hmore =>
      rw [String.intercalate_cons_cons, String.intercalate_cons_cons]
      have hcomma : Alike tag tag' [] [] ", " ", " := alike_plain (by decide)
      simpa using (hab.append hcomma).append ih

theorem Alike.around {front back s t : String} (h : Alike tag tag' vs ws s t) (hfront : '"' ∉ front.toList)
    (hback : '"' ∉ back.toList) : Alike tag tag' vs ws (front ++ s ++ back) (front ++ t ++ back) := by
  have hbefore : Alike tag tag' [] [] front front := alike_plain hfront
  have hall := (hbefore.append h).append (alike_plain hback)
  simpa using hall

/-! What is written outside of literals has no quotes. -/

theorem notMem_append {s t : String} (hs : '"' ∉ s.toList) (ht : '"' ∉ t.toList) : '"' ∉ (s ++ t).toList := by
  rw [String.toList_append, List.mem_append, not_or]
  exact ⟨hs, ht⟩

theorem Variable.Proper.notMem {v : Variable} (hv : v.Proper) : '"' ∉ v.text.toList := by
  refine notMem_append (by decide) fun hmem => ?_
  exact absurd (hv _ hmem) (by decide)

theorem notMem_digits (n : Nat) : '"' ∉ Text.digits n :=
  fun hmem => absurd (Text.isDigit_of_mem_digits hmem) (by decide)

theorem notMem_property (p : PropertyId) : '"' ∉ p.text.toList := by
  simp [PropertyId.text, notMem_digits]

theorem notMem_item (i : ItemId) : '"' ∉ i.text.toList := by
  simp [ItemId.text, notMem_digits]

theorem notMem_decimal (n : Nat) : '"' ∉ (Text.decimal n).toList := by
  simp [Text.decimal, notMem_digits]

theorem notMem_number {x : Binary64} (hx : x.isFinite = true) : '"' ∉ x.text.toList := by
  cases x with
  | nan | infinite _ => exact nomatch hx
  | finite negative m =>
    have hdigits : '"' ∉ Binary64.plainDigits m :=
      fun hmem => absurd ((Service.plainDigits_spec m).1 _ hmem) (by decide)
    cases negative <;> simpa [Binary64.text, Binary64.toList, Binary64.signed] using hdigits

inductive Term.Twin : List String → List String → Term → Term → Prop
  | same {t : Term} : t.Proper → Twin [] [] t t
  | text (v w : String) : Twin [v] [w] (.text v) (.text w)

theorem Term.Twin.alike {t u : Term} (h : Term.Twin vs ws t u) : Alike tag tag' vs ws t.render u.render := by
  cases h with
  | text v w => exact alike_value v w
  | same ht =>
    cases t with
    | text v => exact alike_of_reads (reads_encode v)
    | number x => exact alike_plain (notMem_number ht)
    | item i => exact alike_plain (notMem_append (by decide) (notMem_item i))
    | date d =>
      have hrender : (Term.date d).render = Literal.encode (Timestamp.queried d) ++ "^^xsd:dateTime" := by
        rw [Literal.encode, Service.body_queried]
        apply String.toList_injective
        simp [Term.render]
      rw [hrender]
      exact alike_of_reads ((reads_encode _).append (reads_plain (by decide)))

inductive Test.Twin : List String → List String → Test → Test → Prop
  | compare {vs ws t u} (c : Comparison) : Term.Twin vs ws t u → Twin vs ws (.compare c t) (.compare c u)
  | oneOf {vs ws ts us} : InTurn Term.Twin vs ws ts us → Twin vs ws (.oneOf ts) (.oneOf us)
  | bound (expected : Bool) : Twin [] [] (.bound expected) (.bound expected)
  | never : Twin [] [] .never .never

theorem Test.Twin.alike {t u : Test} (h : Test.Twin vs ws t u) {v : Variable} (hv : v.Proper) :
    Alike tag tag' vs ws (Constraint.mk v t).text (Constraint.mk v u).text := by
  cases h with
  | compare c hterm =>
    have hsymbol : '"' ∉ c.symbol.toList := by cases c <;> decide
    have hfront := notMem_append (notMem_append (notMem_append (notMem_append (by decide : '"' ∉ "FILTER(".toList)
      hv.notMem) (by decide : '"' ∉ " ".toList)) hsymbol) (by decide : '"' ∉ " ".toList)
    exact hterm.alike.around hfront (by decide)
  | oneOf hterms =>
    have hlist : Alike tag tag' vs ws _ _ := Alike.intercalate (hterms.map Term.Twin.alike)
    have hfront := notMem_append (notMem_append (by decide : '"' ∉ "FILTER(".toList) hv.notMem)
      (by decide : '"' ∉ " IN (".toList)
    exact hlist.around hfront (by decide)
  | bound expected =>
    cases expected
    · exact alike_plain (notMem_append (notMem_append (by decide) hv.notMem) (by decide))
    · exact alike_plain (notMem_append (notMem_append (by decide) hv.notMem) (by decide))
  | never => exact alike_plain (s := "FILTER(false)") (by decide)

def Pattern.retag (tag : String) : Pattern → Pattern
  | .tagged v p _ => .tagged v p tag
  | .untagged v p _ => .untagged v p tag
  | p => p

theorem notMem_triple {v : Variable} (hv : v.Proper) (p : PropertyId) {object : String} (h : '"' ∉ object.toList) :
    '"' ∉ (tripleText v p object).toList :=
  notMem_append (notMem_append (notMem_append (notMem_append (notMem_append hv.notMem (by decide)) (notMem_property p))
    (by decide)) h) (by decide)

theorem alike_constraint {v : Variable} (hv : v.Proper) (p : PropertyId) :
    Alike tag tag' [] [] ((Namespace.mk tag).constraint v.text p) ((Namespace.mk tag').constraint v.text p) := by
  have hfront := notMem_append (notMem_append (notMem_append hv.notMem (by decide : '"' ∉ " wdt:".toList))
    (notMem_property p)) (by decide : '"' ∉ " ".toList)
  exact alike_tag.around hfront (by decide)

theorem Pattern.alike_retag {p : Pattern} (hp : ∀ v ∈ p.occurring, v.Proper) :
    Alike tag tag' [] [] (p.retag tag).text (p.retag tag').text := by
  cases p with
  | «instance» v instanceOf subclassOf type =>
    have hv := hp v (by simp [Pattern.occurring])
    refine alike_plain (s := (Pattern.instance v instanceOf subclassOf type).text) ?_
    have hfront := notMem_append (notMem_append hv.notMem (by decide : '"' ∉ " wdt:".toList)) (notMem_property instanceOf)
    have hpath := notMem_append (notMem_append hfront (by decide : '"' ∉ "/wdt:".toList)) (notMem_property subclassOf)
    exact notMem_append (notMem_append (notMem_append hpath (by decide)) (notMem_item type)) (by decide)
  | tagged v p _ => exact alike_constraint (hp v (by simp [Pattern.occurring])) p
  | untagged v p _ =>
    exact (alike_constraint (hp v (by simp [Pattern.occurring])) p).around (by decide) (by decide)
  | triple v p o =>
    refine alike_plain (s := (Pattern.triple v p o).text) ?_
    exact notMem_triple (hp v (by simp [Pattern.occurring])) p (hp o (by simp [Pattern.occurring])).notMem
  | optional v p o =>
    refine alike_plain (s := (Pattern.optional v p o).text) ?_
    have htriple := notMem_triple (hp v (by simp [Pattern.occurring])) p (hp o (by simp [Pattern.occurring])).notMem
    exact notMem_append (notMem_append (by decide) htriple) (by decide)

namespace Select

/-- Queries that differ in tags and in terms, and say nothing outside of literals that has quotes. -/
structure Twin (tag tag' : String) (vs ws : List String) (a b : Select) : Prop where
  header : b.base = a.base ∧ '"' ∉ a.base.toList
  projection : b.projection = a.projection ∧ '"' ∉ (projectionText a.projection).toList
  patterns : InTurn (Alike tag tag') [] [] (a.patterns.map Pattern.text) (b.patterns.map Pattern.text)
  constraints : InTurn (Alike tag tag') vs ws (a.constraints.map Constraint.text) (b.constraints.map Constraint.text)
  modifiers : b.modifiers = a.modifiers ∧ '"' ∉ a.modifiers.toList

theorem notMem_header {base : String} (h : '"' ∉ base.toList) : '"' ∉ (Select.header base).toList := by
  refine notMem_append (notMem_append ?_ (by decide)) (by decide)
  exact notMem_append (notMem_append (notMem_append (notMem_append (by decide) h) (by decide)) (by decide)) h

theorem text_eq (s : Select) : s.text = (Select.header s.base ++ "SELECT " ++ projectionText s.projection ++ " WHERE \x7b\n") ++
    s.block ++ ("\x7d\n" ++ s.modifiers) := by
  simp only [Select.text, block, String.append_assoc]

theorem Twin.alike {a b : Select} (h : Twin tag tag' vs ws a b) : Alike tag tag' vs ws a.text b.text := by
  have hfront := notMem_append (notMem_append (notMem_append (notMem_header h.header.2) (by decide : '"' ∉ "SELECT ".toList))
    h.projection.2) (by decide : '"' ∉ " WHERE \x7b\n".toList)
  have hlines : InTurn (Alike tag tag') vs ws a.lines b.lines := h.patterns.append h.constraints
  have hblock : Alike tag tag' vs ws a.block b.block :=
    Alike.join (hlines.map fun hline => hline.around (by decide) (by decide))
  have hback := notMem_append (by decide : '"' ∉ "\x7d\n".toList) h.modifiers.2
  have hall := hblock.around hfront hback
  rw [text_eq, text_eq, h.header.1, h.projection.1, h.modifiers.1]
  exact hall

end Select

end Sparql

section Reading

variable {target : Target}

def Value.comparedTexts (target : Target) : Value → List String
  | .text a => if target = .field .text then [a] else []
  | _ => []

def Value.Twin (target : Target) (v w : Value) : Prop :=
  v = w ∨ target = .field .text ∧ ∃ a b, v = .text a ∧ w = .text b

namespace Condition

def comparedTexts (target : Target) : Condition → List String
  | .compare _ v => v.comparedTexts target
  | .oneOf values => values.flatMap (Value.comparedTexts target)
  | .isNull _ => []

inductive Twin (target : Target) : Condition → Condition → Prop
  | compare {v w} (c : Comparison) : Value.Twin target v w → Twin target (.compare c v) (.compare c w)
  | oneOf {values values'} : List.Forall₂ (Value.Twin target) values values' → Twin target (.oneOf values) (.oneOf values')
  | isNull (expected : Bool) : Twin target (.isNull expected) (.isNull expected)

end Condition

inductive Alongside {α : Type} (R : α → α → Prop) : Except Error α → Except Error α → Prop
  | error (e e' : Error) : Alongside R (.error e) (.error e')
  | ok {a b : α} : R a b → Alongside R (.ok a) (.ok b)

namespace Alongside

variable {α β : Type} {R : α → α → Prop} {S : β → β → Prop} {x y : Except Error α}

theorem bind {f g : α → Except Error β} (h : Alongside R x y) (hfg : ∀ a b, R a b → Alongside S (f a) (g b)) :
    Alongside S (x >>= f) (y >>= g) := by
  cases h with
  | error e e' => exact .error e e'
  | ok hab => exact hfg _ _ hab

theorem map {f g : α → β} (h : Alongside R x y) (hfg : ∀ a b, R a b → S (f a) (g b)) :
    Alongside S (x.map f) (y.map g) := by
  cases h with
  | error e e' => exact .error e e'
  | ok hab => exact .ok (hfg _ _ hab)

theorem isOk_eq (h : Alongside R x y) : x.isOk = y.isOk := by
  cases h <;> rfl

theorem of_forall (h : ∀ a, x = .ok a → R a a) : Alongside R x x := by
  cases x with
  | error e => exact .error e e
  | ok a => exact .ok (h a rfl)

end Alongside

theorem Value.Twin.term {refuse : String → Error} {v w : Value} (h : Value.Twin target v w) :
    Alongside (Term.Twin (v.comparedTexts target) (w.comparedTexts target)) (Condition.term refuse target v)
      (Condition.term refuse target w) := by
  rcases h with rfl | ⟨rfl, a, b, rfl, rfl⟩
  · refine .of_forall fun t ht => ?_
    have hsame := Term.Twin.same (Condition.term_eq_ok ht).2
    cases v with
    | text a =>
      rw [comparedTexts]
      split
      · next htarget =>
        subst htarget
        obtain rfl : Term.text a = t := Except.ok.inj ht
        exact .text a a
      · exact hsame
    | _ => exact hsame
  · exact .ok (.text a b)

theorem Value.Twin.terms {refuse : String → Error} {values values' : List Value}
    (h : List.Forall₂ (Value.Twin target) values values') :
    Alongside (InTurn Term.Twin (values.flatMap (Value.comparedTexts target)) (values'.flatMap (Value.comparedTexts target)))
      (values.mapM (Condition.term refuse target)) (values'.mapM (Condition.term refuse target)) := by
  induction h with
  | nil => exact .ok .nil
  | cons hvw _ ih =>
    rw [List.mapM_cons, List.mapM_cons]
    exact hvw.term.bind fun t u htu => ih.bind fun ts us hts => .ok (.cons htu hts)

theorem Condition.Twin.test {refuse : String → Error} {c d : Condition} (h : Condition.Twin target c d) :
    Alongside (Test.Twin (c.comparedTexts target) (d.comparedTexts target)) (c.test refuse target)
      (d.test refuse target) := by
  cases h with
  | compare c hvw =>
    rw [Condition.test, Condition.test]
    split
    · exact .error _ _
    · exact hvw.term.map fun t u htu => .compare c htu
  | oneOf hvalues =>
    cases hvalues with
    | nil => exact .ok .never
    | cons hvw hmore =>
      rw [Condition.test, Condition.test]
      · exact (Value.Twin.terms (.cons hvw hmore)).map fun ts us hts => .oneOf hts
      · exact List.cons_ne_nil _ _
      · exact List.cons_ne_nil _ _
  | isNull expected =>
    cases target with
    | row => exact .error _ _
    | field type => exact .ok (.bound _)

end Reading

section Outline

variable {s : Schema} {model : String}

def Filter.comparedTexts (s : Schema) (model : String) (f : Filter) : List String :=
  match (Path.walk s model f.path).ending with
  | .ok target => f.condition.comparedTexts target
  | .error _ => []

/-- Filters that differ at most in texts that are compared with a text field. -/
structure Filter.Twin (s : Schema) (model : String) (f g : Filter) : Prop where
  path : g.path = f.path
  condition : ∀ target, (Path.walk s model f.path).ending = .ok target → f.condition.Twin target g.condition

/-- Queries that differ at most in texts that are compared with text fields. -/
structure Query.Twin (s : Schema) (model : String) (q r : Query) : Prop where
  filters : List.Forall₂ (Filter.Twin s model) q.filters r.filters
  order : r.order = q.order
  limit : r.limit = q.limit
  offset : r.offset = q.offset

def Query.comparedTexts (s : Schema) (model : String) (q : Query) : List String :=
  q.filters.flatMap (Filter.comparedTexts s model)

def BesideTwin {κ α : Type} (R : List String → List String → α → α → Prop) (vs ws : List String) (a b : κ × α) : Prop :=
  b.1 = a.1 ∧ R vs ws a.2 b.2

theorem Filter.Twin.read {f g : Filter} (h : Filter.Twin s model f g) :
    Alongside (BesideTwin Test.Twin (f.comparedTexts s model) (g.comparedTexts s model)) (f.read s model)
      (g.read s model) := by
  unfold Filter.read Walk.reached
  rw [Filter.comparedTexts, Filter.comparedTexts, h.path]
  cases hending : (Path.walk s model f.path).ending with
  | error e => exact .error e e
  | ok target => exact (h.condition target hending).test.bind fun t u htu => .ok ⟨rfl, htu⟩

theorem Filter.Twin.readAll {fs gs : List Filter} (h : List.Forall₂ (Filter.Twin s model) fs gs) :
    Alongside (InTurn (BesideTwin Test.Twin) (fs.flatMap (Filter.comparedTexts s model))
      (gs.flatMap (Filter.comparedTexts s model))) (fs.mapM (Filter.read s model)) (gs.mapM (Filter.read s model)) := by
  induction h with
  | nil => exact .ok .nil
  | cons hfg _ ih =>
    rw [List.mapM_cons, List.mapM_cons]
    exact hfg.read.bind fun t u htu => ih.bind fun ts us hts => .ok (.cons htu hts)

theorem InTurn.reachAll {all all' : List (Reached × Test)} (h : InTurn (BesideTwin Test.Twin) vs ws all all') (j : Joins) :
    (j.reachAll all').1 = (j.reachAll all).1 ∧
      InTurn (BesideTwin Test.Twin) vs ws (j.reachAll all).2 (j.reachAll all').2 := by
  induction h generalizing j with
  | nil => exact ⟨rfl, .nil⟩
  | @cons _ _ _ _ as bs a b hab _ ih =>
    obtain ⟨r, t⟩ := a
    obtain ⟨r', u⟩ := b
    obtain ⟨rfl, htu⟩ : r' = r ∧ Test.Twin _ _ t u := hab
    obtain ⟨hjoins, hmore⟩ := ih (j.reach r').1
    exact ⟨hjoins, .cons ⟨rfl, htu⟩ hmore⟩

structure Outline.Twin (vs ws : List String) (o o' : Outline) : Prop where
  fields : o'.fields = o.fields
  links : o'.links = o.links
  order : o'.order = o.order
  constraints : InTurn (fun vs ws (c c' : Constraint) => c'.subject = c.subject ∧ Test.Twin vs ws c.test c'.test) vs ws
    o.constraints o'.constraints

theorem Filter.Twin.steps {fs gs : List Filter} (h : List.Forall₂ (Filter.Twin s model) fs gs) :
    gs.map (Query.filterSteps s model) = fs.map (Query.filterSteps s model) := by
  induction h with
  | nil => rfl
  | cons hfg _ ih =>
    rw [List.map_cons, List.map_cons, ih, Query.filterSteps, Query.filterSteps, hfg.path, ← hfg.read.isOk_eq]

theorem Query.Twin.orderFor {q r : Query} (h : Query.Twin s model q r) (counting : Bool) :
    r.orderFor counting = q.orderFor counting := by
  rw [Query.orderFor, h.order]
  rfl

theorem Query.Twin.outline {q r : Query} (h : Query.Twin s model q r) (fields : List ResolvedField) (counting : Bool) :
    Alongside (Outline.Twin (q.comparedTexts s model) (r.comparedTexts s model)) (q.outline s model fields counting)
      (r.outline s model fields counting) := by
  refine (Filter.Twin.readAll h.filters).bind fun filters filters' hfilters => ?_
  rw [h.orderFor]
  refine Alongside.bind (R := Eq) (.of_forall fun _ _ => rfl) fun order order' horder' => ?_
  subst horder'
  obtain ⟨hjoins, hconstraints⟩ := hfilters.reachAll Joins.empty
  refine .ok ⟨rfl, ?_, ?_, ?_⟩
  · exact congrArg (fun j => (Joins.reachAll j order).1.links) hjoins
  · exact congrArg (fun j => (Joins.reachAll j order).2) hjoins
  · exact hconstraints.map fun h => h

theorem Query.Twin.mentions {q r : Query} (h : Query.Twin s model q r) (fields : List ResolvedField) (counting : Bool) :
    r.mentions s model fields counting = q.mentions s model fields counting := by
  rw [Query.mentions, Query.mentions, Filter.Twin.steps h.filters, h.orderFor]

theorem patterns_retag (o : Outline) (v : Vocabulary) (tag : String) :
    o.patterns { v with tag := tag } = (o.patterns v).map (Pattern.retag tag) := by
  have hlink : ∀ l, Outline.linkPatterns { v with tag := tag } l = (Outline.linkPatterns v l).map (Pattern.retag tag) := by
    intro l
    cases l <;> rfl
  simp only [Outline.patterns, Outline.belonging, List.map_append, List.map_cons, List.map_nil, List.map_map,
    List.map_flatMap, ← hlink]
  rfl

theorem notMem_intercalate {texts : List String} (h : ∀ t ∈ texts, '"' ∉ t.toList) :
    '"' ∉ (" ".intercalate texts).toList := by
  induction texts with
  | nil => decide
  | cons t texts ih =>
    rw [List.forall_mem_cons] at h
    cases texts with
    | nil => simpa using h.1
    | cons u texts =>
      rw [String.intercalate_cons_cons]
      exact notMem_append (notMem_append h.1 (by decide)) (ih h.2)

theorem notMem_modifiers {select : Select} (h : ∀ k ∈ select.order, k.1.Proper) : '"' ∉ select.modifiers.toList := by
  have horder : '"' ∉ (" ".intercalate (select.order.map Select.sortText)).toList := by
    refine notMem_intercalate fun t ht => ?_
    obtain ⟨⟨v, descending⟩, hk, rfl⟩ := List.mem_map.1 ht
    have hdirection : '"' ∉ (if descending then "DESC" else "ASC").toList := by cases descending <;> decide
    exact notMem_append (notMem_append (notMem_append hdirection (by decide)) (h _ hk).notMem) (by decide)
  refine notMem_append (notMem_append ?_ ?_) ?_
  · split
    · decide
    · exact notMem_append (notMem_append (by decide) horder) (by decide)
  · split
    · exact notMem_append (notMem_append (by decide) (notMem_decimal _)) (by decide)
    · decide
  · split
    · exact notMem_append (notMem_append (by decide) (notMem_decimal _)) (by decide)
    · decide

variable {q : Query} {counting : Bool} {fields : List ResolvedField} {o o' : Outline} {v : Vocabulary}

theorem proper_order (hs : s.Valid) (ho : q.outline s model fields counting = .ok o) :
    ∀ k ∈ o.order, k.1.Proper := by
  obtain ⟨-, paths, reached, htraces, -, -⟩ := Query.outline_traces ho
  intro k hk
  have hasked : k.1 ∈ o.constraints.map (·.subject) ++ o.order.map (·.1) :=
    List.mem_append_right _ (List.mem_map_of_mem hk)
  rw [htraces.asked] at hasked
  obtain ⟨r, hr, hvariable⟩ := List.mem_map.1 hasked
  rw [← hvariable]
  exact proper_variableOf ((htraces.walks r hr).isIdentifier hs)

theorem InTurn.and_left {α : Type} {R : List String → List String → α → α → Prop} {P : α → Prop} {as bs : List α}
    (h : InTurn R vs ws as bs) (hP : ∀ a ∈ as, P a) : InTurn (fun vs ws a b => P a ∧ R vs ws a b) vs ws as bs := by
  induction h with
  | nil => exact .nil
  | cons hab _ ih =>
    rw [List.forall_mem_cons] at hP
    exact .cons ⟨hP.1, hab⟩ (ih hP.2)

theorem Outline.Twin.constraints_alike (h : Outline.Twin vs ws o o')
    (hproper : ∀ c ∈ o.constraints, c.subject.Proper) : InTurn (Alike tag tag') vs ws
      (o.constraints.map Constraint.text) (o'.constraints.map Constraint.text) := by
  refine (h.constraints.and_left hproper).map fun {vs ws c c'} hc => ?_
  obtain ⟨u, t⟩ := c
  obtain ⟨u', t'⟩ := c'
  obtain ⟨hu, rfl, htest⟩ : u.Proper ∧ u' = u ∧ Test.Twin vs ws t t' := hc
  exact htest.alike hu

theorem Outline.Twin.select (h : Outline.Twin vs ws o o') (hs : s.Valid) (hfields : s.fields model = .ok fields)
    (ho : q.outline s model fields counting = .ok o) (hbase : '"' ∉ v.base.toList) (tag' : String)
    (limit offset : Option UInt64) :
    Select.Twin v.tag tag' vs ws (if counting then o.count v else o.rows v limit offset)
      (if counting then o'.count { v with tag := tag' } else o'.rows { v with tag := tag' } limit offset) := by
  obtain ⟨hofields, -⟩ := Query.outline_traces ho
  have hreadable : (o.rows v limit offset).Readable := readable_outline hs hfields ho rfl rfl
  have hpatterns : InTurn (Alike v.tag tag') [] [] ((o.patterns v).map Pattern.text)
      ((o'.patterns { v with tag := tag' }).map Pattern.text) := by
    have hsame : o'.patterns { v with tag := tag' } = o.patterns { v with tag := tag' } := by
      rw [Outline.patterns, Outline.patterns, h.fields, h.links]
    -- Both are one list of patterns with another tag, so that what is alike can be read off pattern by pattern.
    have hown := congrArg (List.map Pattern.text) (patterns_retag o v v.tag)
    rw [List.map_map] at hown
    have hown : (o.patterns v).map Pattern.text = (o.patterns v).map (Pattern.text ∘ Pattern.retag v.tag) := hown
    rw [hsame, patterns_retag o v tag', List.map_map, hown]
    exact .of_forall fun p hp => Pattern.alike_retag (hreadable.patterns p hp)
  have hconstraints : InTurn (Alike v.tag tag') vs ws (o.constraints.map Constraint.text)
      (o'.constraints.map Constraint.text) := h.constraints_alike fun c hc => (hreadable.constraints c hc).1
  have hcolumns : '"' ∉ (Select.projectionText (.rows (.item :: o.fields.map fun f => .field f.field.name))).toList := by
    refine notMem_intercalate fun t ht => ?_
    obtain ⟨u, hu, rfl⟩ := List.mem_map.1 ht
    rcases List.mem_cons.1 hu with rfl | hu
    · exact Variable.proper_item.notMem
    · obtain ⟨f, hf, rfl⟩ := List.mem_map.1 hu
      exact (Variable.proper_field (hs.fieldValid hfields (hofields ▸ hf)).identifier).notMem
  have hcount : '"' ∉ (Select.projectionText .count).toList := by decide
  have hnone : '"' ∉ "".toList := by decide
  cases counting with
  | true => exact ⟨⟨rfl, hbase⟩, ⟨rfl, hcount⟩, hpatterns, hconstraints, rfl, hnone⟩
  | false =>
    refine ⟨⟨rfl, hbase⟩, ⟨?_, hcolumns⟩, hpatterns, hconstraints, ?_, notMem_modifiers (proper_order hs ho)⟩
    · exact congrArg (fun fields => Projection.rows (.item :: fields.map fun f => .field f.field.name)) h.fields
    · exact congrArg (fun order => Select.modifiers ⟨v.base, .count, [], [], order, limit, offset⟩) h.order

end Outline

end ClaimTables
