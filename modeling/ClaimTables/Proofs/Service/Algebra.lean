import Mathlib.Algebra.Order.Ring.Rat
import Mathlib.Logic.Relation
import ClaimTables.Calendar.Date
import ClaimTables.Identifier
import ClaimTables.Query

/-!
What the query service makes of the patterns between the braces of a query: a graph of claims, solutions as
finite maps from names to terms, and the joins, optional parts and filters of SPARQL 1.1 over them.
-/

namespace ClaimTables

namespace Service

inductive Node where
  | item (id : ItemId)
  | resource (iri : String)
  | text (value : String)
  | number (value : ℚ)
  | date (value : Date)
  | literal (form datatype : String)
deriving DecidableEq

structure Triple where
  subject : Node
  property : PropertyId
  object : Node
deriving DecidableEq

structure Graph where
  triples : List Triple
  nodup : triples.Nodup

namespace Node

def isLiteral : Node → Bool
  | .item _ | .resource _ => false
  | _ => true

def isAlike : Node → Node → Bool
  | .text _, .text _ | .number _, .number _ | .date _, .date _ => true
  | _, _ => false

def equal? (x y : Node) : Option Bool :=
  if x = y then some true
  else if x.isLiteral && y.isLiteral && !x.isAlike y then none
  else some false

/-- The order of values: texts by their characters, numbers by size, days by the calendar. -/
def order? : Node → Node → Option Ordering
  | .text s, .text t => some (compare s t)
  | .number a, .number b => some (compare a b)
  | .date d, .date e =>
    some ((compare d.year e.year).then ((compare d.month e.month).then (compare d.day e.day)))
  | _, _ => none

def compare? : Comparison → Node → Node → Option Bool
  | .equal, x, y => x.equal? y
  | .different, x, y => (x.equal? y).map not
  | .less, x, y => (x.order? y).map (· = .lt)
  | .atMost, x, y => (x.order? y).map (· ≠ .gt)
  | .greater, x, y => (x.order? y).map (· = .gt)
  | .atLeast, x, y => (x.order? y).map (· ≠ .lt)

end Node

namespace Graph

variable (g : Graph)

def Single : Prop :=
  ∀ s ∈ g.triples, ∀ t ∈ g.triples, s.subject = t.subject → s.property = t.property → s.object = t.object

def object? (n : Node) (p : PropertyId) : Option Node :=
  (g.triples.find? fun t => t.subject = n ∧ t.property = p).map (·.object)

def edges (p : PropertyId) : List (Node × Node) :=
  (g.triples.filter (·.property = p)).map fun t => (t.subject, t.object)

def Step (p : PropertyId) (x y : Node) : Prop :=
  ⟨x, p, y⟩ ∈ g.triples

def Reaches (p : PropertyId) : Node → Node → Prop :=
  Relation.ReflTransGen (g.Step p)

end Graph

/-- Whether zero or more of the edges lead from one term to the other; no edge is needed twice. -/
def reaches (edges : List (Node × Node)) (x y : Node) : Bool :=
  x = y || edges.attach.any fun e => e.1.1 = x && reaches (edges.erase e.1) e.1.2 y
termination_by edges.length
decreasing_by
  rw [List.length_erase_of_mem e.2]
  exact Nat.sub_one_lt_of_lt (List.length_pos_of_mem e.2)

abbrev Mapping := List (String × Node)

namespace Mapping

def merge? (a b : Mapping) : Option Mapping :=
  if b.all fun (v, x) => (a.lookup v).all (· = x) then some (a ++ b) else none

end Mapping

inductive Slot where
  | variable (name : String)
  | constant (node : Node)
deriving DecidableEq

namespace Slot

def match? : Slot → Node → Option Mapping
  | .variable v, x => some [(v, x)]
  | .constant c, x => if c = x then some [] else none

def value? (μ : Mapping) : Slot → Option Node
  | .variable v => μ.lookup v
  | .constant c => some c

end Slot

structure Edge where
  subject : Slot
  property : PropertyId
  object : Slot
deriving DecidableEq

inductive Expression where
  | truth (value : Bool)
  | bound (name : String)
  | not (e : Expression)
  | compare (comparison : Comparison) (left right : Slot)
  | isIn (left : Slot) (terms : List Slot)
deriving DecidableEq

namespace Expression

def or? : Option Bool → Option Bool → Option Bool
  | some true, _ => some true
  | _, some true => some true
  | some false, some false => some false
  | _, _ => none

/-- The value of an expression in a solution; there is none where it is an error. -/
def eval? (μ : Mapping) : Expression → Option Bool
  | .truth b => some b
  | .bound v => some (μ.lookup v).isSome
  | .not e => (e.eval? μ).map Bool.not
  | .compare c left right => do
    let x ← left.value? μ
    let y ← right.value? μ
    Node.compare? c x y
  | .isIn left terms => do
    let x ← left.value? μ
    (terms.map fun t => (t.value? μ).bind x.equal?).foldr or? (some false)

end Expression

inductive Element where
  | edge (e : Edge)
  | path (subject : Slot) (first rest : PropertyId) (goal : Node)
  | optional (e : Edge)
  | notExists (e : Edge)
  | filter (e : Expression)
deriving DecidableEq

def Edge.answers (g : Graph) (e : Edge) : List Mapping :=
  g.triples.filterMap fun t =>
    if t.property = e.property then
      (e.subject.match? t.subject).bind fun a => (e.object.match? t.object).bind a.merge?
    else none

def pathAnswers (g : Graph) (subject : Slot) (first rest : PropertyId) (goal : Node) : List Mapping :=
  g.triples.filterMap fun t =>
    if t.property = first ∧ reaches (g.edges rest) t.object goal then subject.match? t.subject else none

def join (left right : List Mapping) : List Mapping :=
  left.flatMap fun a => right.filterMap a.merge?

def leftJoin (left right : List Mapping) : List Mapping :=
  left.flatMap fun a =>
    let found := right.filterMap a.merge?
    if found.isEmpty then [a] else found

namespace Element

/-- What an element makes of the solutions of those before it. Filters wait until all elements are done. -/
def extend (g : Graph) (solutions : List Mapping) : Element → List Mapping
  | .edge e => join solutions (e.answers g)
  | .path subject first rest goal => join solutions (pathAnswers g subject first rest goal)
  | .optional e => leftJoin solutions (e.answers g)
  | .notExists _ | .filter _ => solutions

def passes (g : Graph) (μ : Mapping) : Element → Bool
  | .notExists e => (e.answers g).all fun b => (μ.merge? b).isNone
  | .filter e => e.eval? μ = some true
  | _ => true

end Element

def solutions (g : Graph) (group : List Element) : List Mapping :=
  (group.foldl (Element.extend g) [[]]).filter fun μ => group.all (Element.passes g μ)

theorem reflTransGen_of_reaches {edges : List (Node × Node)} {x y : Node} (h : reaches edges x y = true) :
    Relation.ReflTransGen (fun a b => (a, b) ∈ edges) x y := by
  rw [reaches, Bool.or_eq_true, decide_eq_true_eq, List.any_eq_true] at h
  rcases h with rfl | ⟨⟨⟨a, b⟩, he⟩, _, hany⟩
  · exact .refl
  · rw [Bool.and_eq_true, decide_eq_true_eq] at hany
    obtain ⟨rfl, hrest⟩ := hany
    refine .head he (Relation.ReflTransGen.mono (fun c d hcd => ?_) _ _ (reflTransGen_of_reaches hrest))
    exact List.mem_of_mem_erase hcd
termination_by edges.length
decreasing_by
  rw [List.length_erase_of_mem he]
  exact Nat.sub_one_lt_of_lt (List.length_pos_of_mem he)

theorem reflTransGen_erase {edges : List (Node × Node)} {x y : Node} (a b : Node)
    (h : Relation.ReflTransGen (fun c d => (c, d) ∈ edges) x y) :
    Relation.ReflTransGen (fun c d => (c, d) ∈ edges.erase (a, b)) x y ∨
      Relation.ReflTransGen (fun c d => (c, d) ∈ edges.erase (a, b)) b y := by
  induction h using Relation.ReflTransGen.head_induction_on with
  | refl => exact .inl .refl
  | @head c d hcd _ ih =>
    rcases ih with hd | hb
    · by_cases heq : (c, d) = (a, b)
      · obtain ⟨rfl, rfl⟩ := Prod.mk.inj heq
        exact .inr hd
      · exact .inl (.head ((List.mem_erase_of_ne heq).2 hcd) hd)
    · exact .inr hb

theorem reaches_of_reflTransGen {edges : List (Node × Node)} {x y : Node}
    (h : Relation.ReflTransGen (fun a b => (a, b) ∈ edges) x y) : reaches edges x y = true := by
  rw [reaches, Bool.or_eq_true, decide_eq_true_eq, List.any_eq_true]
  rcases Relation.ReflTransGen.cases_head h with rfl | ⟨z, hz, hrest⟩
  · exact .inl rfl
  · have hlater : reaches (edges.erase (x, z)) z y = true :=
      reaches_of_reflTransGen ((reflTransGen_erase x z hrest).elim id id)
    refine .inr ⟨⟨(x, z), hz⟩, List.mem_attach _ _, ?_⟩
    rw [Bool.and_eq_true, decide_eq_true_eq]
    exact ⟨rfl, hlater⟩
termination_by edges.length
decreasing_by
  rw [List.length_erase_of_mem hz]
  exact Nat.sub_one_lt_of_lt (List.length_pos_of_mem hz)

namespace Graph

variable {g : Graph}

theorem mem_edges {p : PropertyId} {x y : Node} : (x, y) ∈ g.edges p ↔ g.Step p x y := by
  simp only [edges, Step, List.mem_map, List.mem_filter, decide_eq_true_eq, Prod.mk.injEq]
  constructor
  · rintro ⟨⟨_, _, _⟩, ⟨ht, rfl⟩, rfl, rfl⟩
    exact ht
  · exact fun h => ⟨_, ⟨h, rfl⟩, rfl, rfl⟩

theorem reaches_iff {p : PropertyId} {x y : Node} : reaches (g.edges p) x y = true ↔ g.Reaches p x y := by
  have hstep : (fun a b => (a, b) ∈ g.edges p) = g.Step p := funext fun a => funext fun b => propext mem_edges
  rw [Reaches, ← hstep]
  exact ⟨reflTransGen_of_reaches, reaches_of_reflTransGen⟩

theorem mem_of_object? {n x : Node} {p : PropertyId} (h : g.object? n p = some x) : g.Step p n x := by
  obtain ⟨⟨s, q, o⟩, hfind, rfl⟩ := Option.map_eq_some_iff.1 h
  have hmatch := List.find?_some hfind
  rw [decide_eq_true_eq] at hmatch
  obtain ⟨rfl, rfl⟩ := hmatch
  exact List.mem_of_find?_eq_some hfind

theorem Single.object?_eq_some (hg : g.Single) {n x : Node} {p : PropertyId} :
    g.object? n p = some x ↔ g.Step p n x := by
  refine ⟨mem_of_object?, fun h => ?_⟩
  cases hfound : g.object? n p with
  | none =>
    rw [object?, Option.map_eq_none_iff, List.find?_eq_none] at hfound
    exact absurd (decide_eq_true ⟨rfl, rfl⟩) (hfound _ h)
  | some y => exact congrArg some (hg _ (mem_of_object? hfound) _ h rfl rfl)

end Graph

end Service

end ClaimTables
