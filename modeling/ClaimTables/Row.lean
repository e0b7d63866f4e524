import ClaimTables.Value

/-!
Rows: the identifier of an item and its values, one for each column in the model's order.
-/

namespace ClaimTables

structure Row where
  id : String
  values : List (String × Value)
deriving DecidableEq

namespace Row

def get? (row : Row) (field : String) : Option Value :=
  row.values.lookup field

def toJson (row : Row) : Json :=
  .ofEntries (("id", .string row.id) :: row.values.map fun (field, value) => (field, value.toJson))

end Row

end ClaimTables
