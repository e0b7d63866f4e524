import ClaimTables.Claim.Encoding
import ClaimTables.Sparql.Literal

/-!
Values as terms of a query.
-/

namespace ClaimTables.Sparql

inductive Term where
  | text (value : String)
  | number (value : Binary64)
  | date (value : Date)
  | item (id : ItemId)
deriving DecidableEq

namespace Term

def render : Term → String
  | .text s => Literal.encode s
  | .number x => x.text
  | .date d => "\"" ++ Timestamp.queried d ++ "\"^^xsd:dateTime"
  | .item i => "wd:" ++ i.text

def ofValue : Value → Except Unstorable Term
  | .null => .error .null
  | .text s => .ok (.text s)
  | .boolean b => .ok (.text (Value.booleanText b))
  | .number x => if x.isFinite then .ok (.number x) else .error (.notFinite x)
  | .date d => .ok (.date d)
  | .reference id => (Claim.item id).map .item

def faultMessage : Unstorable → String
  | .null => "null cannot be compared; use an is-null filter"
  | fault => fault.message

theorem ofValue_isOk_iff (v : Value) : (ofValue v).isOk = (Claim.snak v).isOk := by
  cases v with
  | number x => cases h : x.isFinite <;> simp [ofValue, Claim.snak, h, Except.isOk, Except.toBool]
  | reference id =>
    simp only [ofValue, Claim.snak]
    cases Claim.item id <;> rfl
  | _ => rfl

end Term

end ClaimTables.Sparql
