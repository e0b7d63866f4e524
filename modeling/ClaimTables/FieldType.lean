/-!
The types a column of a table may have.
-/

namespace ClaimTables

inductive FieldType where
  | text
  | number
  | boolean
  | date
  | reference (target : String)
deriving DecidableEq

namespace FieldType

def isOrdered : FieldType → Bool
  | .text | .number | .date => true
  | .boolean | .reference _ => false

def target? : FieldType → Option String
  | .reference target => some target
  | _ => none

def datatype : FieldType → String
  | .text | .boolean => "string"
  | .number => "quantity"
  | .date => "time"
  | .reference _ => "wikibase-item"

end FieldType

end ClaimTables
