import ClaimTables.Claim.Encoding

/-!
Reading stored values back as values of a field's type. What does not have the form of the type is refused.
-/

namespace ClaimTables.Claim

def number? (s : String) : Option Value :=
  (Binary64.finite? (s.toList.dropWhile (· = '+'))).map .number

def item? (value : Json) : Option ItemId :=
  match (value.get "id").text? with
  | some id => ItemId.ofText? id
  | none => (value.get "numeric-id").word?.map ItemId.mk

def ofSnak? (type : FieldType) (value : Json) : Option Value :=
  match type with
  | .text => value.text?.map .text
  | .boolean => value.text?.bind Value.boolean?
  | .number => (value.get "amount").text?.bind number?
  | .date => ((value.get "time").text?.bind Timestamp.ofStored?).map .date
  | .reference _ => (item? value).map fun i => .reference i.text

def ofDatavalue? (type : FieldType) (datavalue : Json) : Option Value :=
  ofSnak? type (datavalue.get "value")

theorem fits_of_number? {s : String} {v : Value} (h : number? s = some v) : v.fits .number = true := by
  obtain ⟨x, _, rfl⟩ := Option.map_eq_some_iff.1 h
  rfl

theorem fits_of_ofDatavalue? {type : FieldType} {datavalue : Json} {v : Value}
    (h : ofDatavalue? type datavalue = some v) : v.fits type = true := by
  cases type with
  | text | date | reference _ =>
    obtain ⟨x, _, rfl⟩ := Option.map_eq_some_iff.1 h
    rfl
  | number =>
    obtain ⟨s, _, hs⟩ := Option.bind_eq_some_iff.1 h
    exact fits_of_number? hs
  | boolean =>
    obtain ⟨s, _, hs⟩ := Option.bind_eq_some_iff.1 h
    exact Value.fits_of_boolean? hs

end ClaimTables.Claim
