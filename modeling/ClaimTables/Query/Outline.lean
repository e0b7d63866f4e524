import ClaimTables.Query.Path
import ClaimTables.Sparql.Select

/-!
What a query asks, in terms of fields: which fields are read, which references are followed, and what is
asked of which variable. Given the properties of the fields it becomes a query that can be sent.
-/

namespace ClaimTables

open Sparql (Variable Term Test Constraint Pattern Select)

structure Reached where
  steps : List ResolvedField
  target : Target

namespace Walk

def reached (w : Walk) : Except Error Reached :=
  w.ending.map fun target => ⟨w.steps, target⟩

end Walk

namespace Condition

def rowTerm (refuse : String → Error) : Value → Except Error Term
  | .reference id | .text id => (Term.ofValue (.reference id)).mapError fun f => refuse (Term.faultMessage f)
  | v => .error (refuse (v.toText ++ " is not an entity id"))

def term (refuse : String → Error) (target : Target) (v : Value) : Except Error Term :=
  match target with
  | .row => rowTerm refuse v
  | .field type =>
    if v.isNull || !v.fits type then
      .error (refuse (v.toText ++ " cannot be compared with a " ++ type.datatype ++ " field"))
    else (Term.ofValue v).mapError fun f => refuse (Term.faultMessage f)

def isOrdered : Target → Bool
  | .row => false
  | .field type => type.isOrdered

def test (refuse : String → Error) (target : Target) : Condition → Except Error Test
  | .compare comparison v =>
    if comparison.isRange && !isOrdered target then
      .error (refuse ("operator " ++ comparison.symbol ++ " needs an ordered field"))
    else (term refuse target v).map (.compare comparison)
  | .oneOf [] => .ok .never
  | .oneOf values => (values.mapM (term refuse target)).map .oneOf
  | .isNull expected =>
    match target with
    | .row => .error (refuse "ids are never null")
    | .field _ => .ok (.bound !expected)

end Condition

namespace Filter

def read (s : Schema) (model : String) (f : Filter) : Except Error (Reached × Test) := do
  let reached ← (Path.walk s model f.path).reached
  let test ← f.condition.test (.unsupportedQuery model f.path) reached.target
  .ok (reached, test)

end Filter

namespace SortKey

def read (s : Schema) (model : String) (k : SortKey) : Except Error (Reached × Bool) :=
  (Path.walk s model k.path).reached.map fun reached => (reached, k.descending)

end SortKey

inductive Link where
  | follow (subject : Variable) (key : FieldKey) (object : Variable)
  | value (subject : Variable) (key : FieldKey) (object : Variable)
deriving DecidableEq

/-- The links of a query so far, each once, and the paths whose ends have a variable of their own. -/
structure Joins where
  links : List Link
  paths : List (List String)

namespace Joins

def empty : Joins := ⟨[], []⟩

def add (j : Joins) (link : Link) : Joins :=
  if j.links.contains link then j else { j with links := j.links ++ [link] }

def place (j : Joins) (path : List String) : Joins × Variable :=
  match j.paths.idxOf? path with
  | some n => (j, .join n)
  | none => ({ j with paths := j.paths ++ [path] }, .join j.paths.length)

def link (target : Target) :
    (j : Joins) → (subject : Variable) → (before : List String) → List ResolvedField → Joins × Variable
  | j, subject, _, [] => (j, subject)
  | j, subject, before, f :: rest =>
    let path := before ++ [f.field.name]
    let (j, object) := if before = [] then (j, .field f.field.name) else j.place path
    if rest = [] ∧ target ≠ .row then
      (if before = [] then j else j.add (.value subject f.key object), object)
    else link target (j.add (.follow subject f.key object)) object path rest

def reach (j : Joins) (r : Reached) : Joins × Variable :=
  link r.target j .item [] r.steps

def reachAll {α : Type} : Joins → List (Reached × α) → Joins × List (Variable × α)
  | j, [] => (j, [])
  | j, (r, a) :: rest =>
    let (j, v) := j.reach r
    let (j, vs) := reachAll j rest
    (j, (v, a) :: vs)

end Joins

structure Outline where
  fields : List ResolvedField
  links : List Link
  constraints : List Constraint
  order : List (Variable × Bool)

namespace Outline

def ofParts (fields : List ResolvedField) (filters : List (Reached × Test)) (order : List (Reached × Bool)) :
    Outline :=
  let (joins, tests) := Joins.empty.reachAll filters
  let (joins, order) := joins.reachAll order
  ⟨fields, joins.links, tests.map fun (v, test) => ⟨v, test⟩, order⟩

end Outline

namespace Query

def orderFor (q : Query) (counting : Bool) : List SortKey :=
  if counting then [] else q.order

def outline (s : Schema) (model : String) (fields : List ResolvedField) (q : Query) (counting : Bool) :
    Except Error Outline := do
  let filters ← q.filters.mapM (Filter.read s model)
  let order ← (q.orderFor counting).mapM (SortKey.read s model)
  .ok (Outline.ofParts fields filters order)

def passed : List (List ResolvedField × Bool) → List ResolvedField
  | [] => []
  | (steps, fails) :: rest => if fails then steps else steps ++ passed rest

def filterSteps (s : Schema) (model : String) (f : Filter) : List ResolvedField × Bool :=
  ((Path.walk s model f.path).steps, !(f.read s model).isOk)

def sortSteps (s : Schema) (model : String) (k : SortKey) : List ResolvedField × Bool :=
  ((Path.walk s model k.path).steps, !(k.read s model).isOk)

def mentions (s : Schema) (model : String) (fields : List ResolvedField) (q : Query) (counting : Bool) :
    List ResolvedField :=
  fields ++ passed (q.filters.map (filterSteps s model) ++ (q.orderFor counting).map (sortSteps s model))

end Query

structure Vocabulary where
  base : String
  tag : String
  reserved : Reserved
  type : ItemId
  property : FieldKey → PropertyId

namespace Outline

/-- The patterns that hold a variable to rows of the namespace that are not deleted. -/
def belonging (v : Vocabulary) (subject : Variable) : List Pattern :=
  [.tagged subject v.reserved.tag v.tag, .untagged subject v.reserved.deleted v.tag]

def linkPatterns (v : Vocabulary) : Link → List Pattern
  | .follow subject key object => .triple subject (v.property key) object :: belonging v object
  | .value subject key object => [.optional subject (v.property key) object]

def patterns (v : Vocabulary) (o : Outline) : List Pattern :=
  .instance .item v.reserved.instanceOf v.reserved.subclassOf v.type :: belonging v .item
    ++ o.fields.map (fun f => .optional .item (v.property f.key) (.field f.field.name))
    ++ o.links.flatMap (linkPatterns v)

def rows (v : Vocabulary) (o : Outline) (limit offset : Option UInt64) : Select where
  base := v.base
  projection := .rows (.item :: o.fields.map fun f => .field f.field.name)
  patterns := o.patterns v
  constraints := o.constraints
  order := o.order
  limit := limit
  offset := offset

def count (v : Vocabulary) (o : Outline) : Select where
  base := v.base
  projection := .count
  patterns := o.patterns v
  constraints := o.constraints
  order := []
  limit := none
  offset := none

end Outline

end ClaimTables
