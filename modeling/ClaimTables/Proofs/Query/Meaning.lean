import ClaimTables.Proofs.Schema.Valid
import ClaimTables.Proofs.Sparql.Evaluation
import ClaimTables.Query.Outline

/-!
What a query means, said without patterns: rows are entities of a graph, a path follows references from row to
row, and a filter compares what is found at its end.
-/

namespace ClaimTables

open Service (Graph Node)
open Sparql (Term Test)

def Value.node? : Value → Option Node
  | .null => none
  | .text s => some (.text s)
  | .boolean b => some (.text (booleanText b))
  | .number x => if x.isFinite then some (.number x.written) else none
  | .date d => some (.date d)
  | .reference id => (ItemId.ofText? id).map .item

def Target.node? : Target → Value → Option Node
  | .row, .reference id | .row, .text id => (ItemId.ofText? id).map .item
  | .row, _ => none
  | .field _, v => v.node?

def Condition.Holds (target : Target) (x? : Option Node) : Condition → Prop
  | .compare comparison v => ∃ x y, x? = some x ∧ target.node? v = some y ∧ Node.compare? comparison x y = some true
  | .oneOf values => ∃ x, x? = some x ∧ ∃ v ∈ values, ∃ y, target.node? v = some y ∧ x.equal? y = some true
  | .isNull expected => x?.isNone = expected

structure View where
  schema : Schema
  tag : String
  reserved : Reserved
  property : FieldKey → PropertyId
  graph : Graph

namespace View

variable (view : View)

def Belongs (n : Node) : Prop :=
  view.graph.Step view.reserved.tag n (.text view.tag) ∧ ¬ view.graph.Step view.reserved.deleted n (.text view.tag)

def IsInstance (type : ItemId) (n : Node) : Prop :=
  ∃ y, view.graph.Step view.reserved.instanceOf n y ∧ view.graph.Reaches view.reserved.subclassOf y (.item type)

def value? (n : Node) (f : ResolvedField) : Option Node :=
  view.graph.object? n (view.property f.key)

/-- That a condition holds at the end of a path: every row on the way exists and belongs to the namespace. -/
def Along (c : Condition) : (model : String) → (n : Node) → List String → Prop
  | _, _, [] => False
  | model, n, segment :: rest =>
    if segment = Schema.idField ∧ rest = [] then c.Holds .row (some n)
    else match view.schema.field model segment with
      | .error _ => False
      | .ok f =>
        if rest = [] then c.Holds (.field f.field.type) (view.value? n f)
        else match f.field.type.target? with
          | none => False
          | some target =>
            ∃ o, view.graph.Step (view.property f.key) n o ∧ view.Belongs o ∧ Along c target o rest

def Satisfies (model : String) (n : Node) (f : Filter) : Prop :=
  view.Along f.condition model n (Path.segments f.path)

/-- The rows that a query over a model is about, given the item of the model. -/
structure Selects (model : String) (type : ItemId) (q : Query) (n : Node) : Prop where
  isInstance : view.IsInstance type n
  belongs : view.Belongs n
  satisfies : ∀ f ∈ q.filters, view.Satisfies model n f

/-- That a solution is the one of a row: it binds the row and the values of its fields, those that there are. -/
structure Shows (fields : List ResolvedField) (n : Node) (μ : Service.Mapping) : Prop where
  item : μ.lookup "item" = some n
  values : ∀ f ∈ fields, μ.lookup ("f_" ++ f.field.name) = view.value? n f

end View

theorem mapM_eq_ok {ε α β : Type} {f : α → Except ε β} {l : List α} {out : List β} (h : l.mapM f = .ok out) :
    List.Forall₂ (fun a b => f a = .ok b) l out := by
  induction l generalizing out with
  | nil =>
    obtain rfl := Except.ok.inj h
    exact .nil
  | cons a rest ih =>
    rw [List.mapM_cons] at h
    obtain ⟨b, hb, h⟩ := ok_of_bind h
    obtain ⟨bs, hbs, h⟩ := ok_of_bind h
    obtain rfl := Except.ok.inj h
    exact .cons hb (ih hbs)

theorem exists_of_mem_right {α β : Type} {R : α → β → Prop} {l : List α} {l' : List β} (h : List.Forall₂ R l l') {b : β}
    (hb : b ∈ l') : ∃ a ∈ l, R a b := by
  induction h with
  | nil => exact (List.not_mem_nil hb).elim
  | cons hab _ ih =>
    rcases List.mem_cons.1 hb with rfl | hb
    · exact ⟨_, List.mem_cons_self, hab⟩
    · obtain ⟨a, ha, hR⟩ := ih hb
      exact ⟨a, List.mem_cons_of_mem _ ha, hR⟩

theorem exists_of_mem_left {α β : Type} {R : α → β → Prop} {l : List α} {l' : List β} (h : List.Forall₂ R l l') {a : α}
    (ha : a ∈ l) : ∃ b ∈ l', R a b :=
  exists_of_mem_right h.flip ha

theorem Term.node_of_ofValue {v : Value} {t : Term} (h : Term.ofValue v = .ok t) :
    v.node? = some t.node ∧ t.Proper := by
  cases v with
  | null => cases h
  | text s | boolean b | date d =>
    obtain rfl := Except.ok.inj h
    exact ⟨rfl, trivial⟩
  | number x =>
    rw [Term.ofValue] at h
    split at h
    · next hx =>
      obtain rfl := Except.ok.inj h
      exact ⟨if_pos hx, hx⟩
    · cases h
  | reference id =>
    simp only [Term.ofValue, Claim.item] at h
    cases hid : ItemId.ofText? id with
    | none =>
      rw [hid] at h
      cases h
    | some i =>
      rw [hid] at h
      obtain rfl := Except.ok.inj h
      exact ⟨congrArg (Option.map Node.item) hid, trivial⟩

namespace Condition

variable {refuse : String → Error} {target : Target}

theorem ok_of_mapError {ε ε' α : Type} {f : ε → ε'} {r : Except ε α} {a : α} (h : r.mapError f = .ok a) :
    r = .ok a := by
  cases r with
  | error e => exact nomatch h
  | ok b => exact congrArg Except.ok (Except.ok.inj h)

theorem term_eq_ok {v : Value} {t : Term} (h : term refuse target v = .ok t) :
    target.node? v = some t.node ∧ t.Proper := by
  cases target with
  | row =>
    cases v with
    | reference id | text id => exact Term.node_of_ofValue (ok_of_mapError h)
    | null | boolean _ | number _ | date _ => exact nomatch h
  | field type =>
    simp only [term] at h
    split at h
    · exact nomatch h
    · exact Term.node_of_ofValue (ok_of_mapError h)

theorem test_eq_ok {c : Condition} {t : Test} (h : c.test refuse target = .ok t) :
    (∃ comparison v term, c = .compare comparison v ∧ t = .compare comparison term ∧
      target.node? v = some term.node ∧ term.Proper) ∨
    (c = .oneOf [] ∧ t = .never) ∨
    (∃ values terms, c = .oneOf values ∧ t = .oneOf terms ∧ terms ≠ [] ∧
      List.Forall₂ (fun v term => target.node? v = some term.node ∧ term.Proper) values terms) ∨
    ∃ expected, c = .isNull expected ∧ t = .bound !expected := by
  cases c with
  | compare comparison v =>
    rw [test] at h
    split at h
    · exact nomatch h
    · cases hterm : term refuse target v with
      | error e =>
        rw [hterm] at h
        exact nomatch h
      | ok t' =>
        rw [hterm] at h
        exact .inl ⟨comparison, v, t', rfl, (Except.ok.inj h).symm, term_eq_ok hterm⟩
  | oneOf values =>
    cases values with
    | nil => exact .inr (.inl ⟨rfl, (Except.ok.inj h).symm⟩)
    | cons v values =>
      rw [test] at h
      · cases hterms : (v :: values).mapM (term refuse target) with
        | error e =>
          rw [hterms] at h
          exact nomatch h
        | ok terms =>
          rw [hterms] at h
          have hpairs := (mapM_eq_ok hterms).imp fun _ _ => term_eq_ok
          refine .inr (.inr (.inl ⟨_, terms, rfl, (Except.ok.inj h).symm, ?_, hpairs⟩))
          -- A list that is not empty has terms for all its values, so it is not empty either.
          rintro rfl
          exact nomatch hpairs
      · exact fun heq => nomatch heq
  | isNull expected =>
    cases target with
    | row => exact nomatch h
    | field type => exact .inr (.inr (.inr ⟨expected, rfl, (Except.ok.inj h).symm⟩))

theorem holds_of_test {c : Condition} {t : Test} (h : c.test refuse target = .ok t) (x? : Option Node) :
    t.holds x? = true ↔ c.Holds target x? := by
  rcases test_eq_ok h with ⟨comparison, v, term, rfl, rfl, hv, _⟩ | ⟨rfl, rfl⟩ |
    ⟨values, terms, rfl, rfl, _, hpairs⟩ | ⟨expected, rfl, rfl⟩
  · cases x? <;> simp [Test.holds, Holds, hv]
  · cases x? <;> simp [Test.holds, Holds]
  · have hany : ∀ x : Node, (∃ term ∈ terms, x.equal? term.node = some true) ↔
        ∃ v ∈ values, ∃ y, target.node? v = some y ∧ x.equal? y = some true := by
      intro x
      constructor
      · rintro ⟨term, hterm, hx⟩
        obtain ⟨v, hv, hnode, _⟩ := exists_of_mem_right hpairs hterm
        exact ⟨v, hv, term.node, hnode, hx⟩
      · rintro ⟨v, hv, y, hy, hx⟩
        obtain ⟨term, hterm, hnode, _⟩ := exists_of_mem_left hpairs hv
        obtain rfl := Option.some.inj (hnode.symm.trans hy)
        exact ⟨term, hterm, hx⟩
    cases x? <;> simp [Test.holds, Holds, hany]
  · cases x? <;> cases expected <;> simp [Test.holds, Holds]

theorem readable_of_test {c : Condition} {t : Test} (h : c.test refuse target = .ok t) {v : Sparql.Variable}
    (hv : v.Proper) : Service.Readable ⟨v, t⟩ := by
  rcases test_eq_ok h with ⟨comparison, _, term, rfl, rfl, _, hterm⟩ | ⟨rfl, rfl⟩ |
    ⟨values, terms, rfl, rfl, hne, hpairs⟩ | ⟨expected, rfl, rfl⟩
  · exact ⟨hv, fun u hu => List.mem_singleton.1 hu ▸ hterm, fun heq => nomatch heq⟩
  · exact ⟨hv, fun u hu => (List.not_mem_nil hu).elim, fun heq => nomatch heq⟩
  · refine ⟨hv, fun u hu => ?_, fun heq => hne (Test.oneOf.inj heq)⟩
    obtain ⟨_, _, hpair⟩ := exists_of_mem_right hpairs hu
    exact hpair.2
  · exact ⟨hv, fun u hu => (List.not_mem_nil hu).elim, fun heq => nomatch heq⟩

end Condition

end ClaimTables
