import ClaimTables.Claim.Stored

/-!
Edits of the claims of one property of an entity, and the plan of those that leave it with one value. What
is as it should be is not touched: an update of a field with the value it has makes no edit.
-/

namespace ClaimTables

inductive ClaimEdit where
  | add (snak : Json)
  | replace (guid : String) (snak : Json)
  | remove (guids : List String)

namespace ClaimEdit

def removing (claims : List StoredClaim) : List ClaimEdit :=
  if claims.isEmpty then [] else [.remove (claims.map (·.guid))]

def isCurrent (type : FieldType) (v : Value) (c : StoredClaim) : Bool :=
  match c.datavalue.bind (Claim.ofDatavalue? type) with
  | some current => current.equals v
  | none => false

def setting (type : FieldType) (v : Value) (snak : Json) : List StoredClaim → List ClaimEdit
  | [] => [.add snak]
  | first :: extra => (if isCurrent type v first then [] else [.replace first.guid snak]) ++ removing extra

def plan (type : FieldType) (v : Value) (stored : List StoredClaim) : Except Unstorable (List ClaimEdit) :=
  if v.isNull then .ok (removing stored)
  else (Claim.snak v).map fun snak => setting type v snak stored

end ClaimEdit

end ClaimTables
