import ClaimTables.Value

/-!
Queries over the rows of one model: conditions that all have to hold, orderings, and a page.
-/

namespace ClaimTables

inductive Comparison where
  | equal
  | different
  | less
  | atMost
  | greater
  | atLeast
deriving DecidableEq

namespace Comparison

def symbol : Comparison → String
  | .equal => "="
  | .different => "!="
  | .less => "<"
  | .atMost => "<="
  | .greater => ">"
  | .atLeast => ">="

def isRange : Comparison → Bool
  | .equal | .different => false
  | _ => true

end Comparison

inductive Condition where
  | compare (comparison : Comparison) (value : Value)
  | oneOf (values : List Value)
  | isNull (expected : Bool)
deriving DecidableEq

structure Filter where
  path : String
  condition : Condition
deriving DecidableEq

structure SortKey where
  path : String
  descending : Bool
deriving DecidableEq

structure Query where
  filters : List Filter
  order : List SortKey
  limit : Option UInt64
  offset : Option UInt64
deriving DecidableEq

namespace Query

def all : Query := ⟨[], [], none, none⟩

def havingValue (path : String) (value : Value) : Query :=
  { all with filters := [⟨path, .compare .equal value⟩], limit := some 2 }

end Query

end ClaimTables
