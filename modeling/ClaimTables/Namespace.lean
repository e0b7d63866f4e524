import ClaimTables.Identifier
import ClaimTables.Sparql.Literal

/-!
Namespaces, by which several applications share one instance without seeing each other: the labels of
what belongs to a namespace end in its tag.
-/

namespace ClaimTables

structure Namespace where
  tag : String
deriving DecidableEq

structure Reserved where
  instanceOf : PropertyId
  subclassOf : PropertyId
  tag : PropertyId
  deleted : PropertyId
deriving DecidableEq

namespace Namespace

def tagLabel : String := "wikigraph namespace"

def deletedLabel : String := "wikigraph deleted"

def typeLabel (n : Namespace) (model : String) : String :=
  model ++ " in " ++ n.tag

def propertyLabel (n : Namespace) (model field : String) : String :=
  model ++ "." ++ field ++ " in " ++ n.tag

def rowLabel (n : Namespace) (model unique : String) : String :=
  model ++ ":" ++ unique ++ " in " ++ n.tag

def constraint (n : Namespace) (variableText : String) (p : PropertyId) : String :=
  variableText ++ " wdt:" ++ p.text ++ " " ++ Sparql.Literal.encode n.tag ++ " ."

def exclusion (n : Namespace) (variableText : String) (p : PropertyId) : String :=
  "FILTER NOT EXISTS \x7b " ++ n.constraint variableText p ++ " \x7d"

end Namespace

end ClaimTables
