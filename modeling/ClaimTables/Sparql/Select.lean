import ClaimTables.Namespace
import ClaimTables.Query
import ClaimTables.Sparql.Term

/-!
The queries that are sent: patterns, conditions, an order and a page, over variables whose names tell
what they stand for.
-/

namespace ClaimTables.Sparql

inductive Variable where
  | item
  | count
  | field (name : String)
  | join (number : Nat)
deriving DecidableEq

namespace Variable

def name : Variable → String
  | .item => "item"
  | .count => "count"
  | .field f => "f_" ++ f
  | .join n => "j" ++ Text.decimal n

def text (v : Variable) : String :=
  "?" ++ v.name

end Variable

inductive Pattern where
  | instance (subject : Variable) (instanceOf subclassOf : PropertyId) (type : ItemId)
  | tagged (subject : Variable) (property : PropertyId) (tag : String)
  | untagged (subject : Variable) (property : PropertyId) (tag : String)
  | triple (subject : Variable) (property : PropertyId) (object : Variable)
  | optional (subject : Variable) (property : PropertyId) (object : Variable)
deriving DecidableEq

inductive Test where
  | compare (comparison : Comparison) (term : Term)
  | oneOf (terms : List Term)
  | bound (expected : Bool)
  | never
deriving DecidableEq

structure Constraint where
  subject : Variable
  test : Test
deriving DecidableEq

inductive Projection where
  | rows (columns : List Variable)
  | count
deriving DecidableEq

structure Select where
  base : String
  projection : Projection
  patterns : List Pattern
  constraints : List Constraint
  order : List (Variable × Bool)
  limit : Option UInt64
  offset : Option UInt64

def tripleText (subject : Variable) (p : PropertyId) (object : String) : String :=
  subject.text ++ " wdt:" ++ p.text ++ " " ++ object ++ " ."

namespace Pattern

def text : Pattern → String
  | .instance v instanceOf subclassOf type =>
    v.text ++ " wdt:" ++ instanceOf.text ++ "/wdt:" ++ subclassOf.text ++ "* wd:" ++ type.text ++ " ."
  | .tagged v p tag => (Namespace.mk tag).constraint v.text p
  | .untagged v p tag => (Namespace.mk tag).exclusion v.text p
  | .triple v p o => tripleText v p o.text
  | .optional v p o => "OPTIONAL \x7b " ++ tripleText v p o.text ++ " \x7d"

end Pattern

namespace Constraint

def text (c : Constraint) : String :=
  match c.test with
  | .compare comparison term => "FILTER(" ++ c.subject.text ++ " " ++ comparison.symbol ++ " " ++ term.render ++ ")"
  | .oneOf terms => "FILTER(" ++ c.subject.text ++ " IN (" ++ ", ".intercalate (terms.map Term.render) ++ "))"
  | .bound true => "FILTER(BOUND(" ++ c.subject.text ++ "))"
  | .bound false => "FILTER(!BOUND(" ++ c.subject.text ++ "))"
  | .never => "FILTER(false)"

end Constraint

namespace Select

def header (base : String) : String :=
  "PREFIX wd: <" ++ base ++ "/entity/>\n" ++ "PREFIX wdt: <" ++ base ++ "/prop/direct/>\n"
    ++ "PREFIX xsd: <http://www.w3.org/2001/XMLSchema#>\n"

def projectionText : Projection → String
  | .rows columns => " ".intercalate (columns.map Variable.text)
  | .count => "(COUNT(DISTINCT " ++ Variable.item.text ++ ") AS " ++ Variable.count.text ++ ")"

def lines (s : Select) : List String :=
  s.patterns.map Pattern.text ++ s.constraints.map Constraint.text

def sortText : Variable × Bool → String
  | (v, descending) => (if descending then "DESC" else "ASC") ++ "(" ++ v.text ++ ")"

def modifiers (s : Select) : String :=
  (if s.order.isEmpty then "" else "ORDER BY " ++ " ".intercalate (s.order.map sortText) ++ "\n")
    ++ (match s.limit with
      | some n => "LIMIT " ++ Text.decimal n.toNat ++ "\n"
      | none => "")
    ++ (match s.offset with
      | some n => "OFFSET " ++ Text.decimal n.toNat ++ "\n"
      | none => "")

def text (s : Select) : String :=
  header s.base ++ "SELECT " ++ projectionText s.projection ++ " WHERE \x7b\n"
    ++ String.join (s.lines.map fun line => "  " ++ line ++ "\n") ++ "\x7d\n" ++ s.modifiers

end Select

end ClaimTables.Sparql
