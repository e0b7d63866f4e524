import ClaimTables.Proofs.Claim.RoundTrip
import ClaimTables.Query.Path
import ClaimTables.Sparql.Select
import ClaimTables.Sparql.Solutions

/-!
What the query service shows of a stored value: a string as a plain literal, a quantity by its amount without
the plus sign, a time with its year counted astronomically and an item by its address.
-/

namespace ClaimTables

namespace Export

open Sparql (Binding Solution Solutions Variable)

def xsd (name : String) : String :=
  "http://www.w3.org/2001/XMLSchema#" ++ name

/-- A stored time as the service shows it: the year -44 as -0043, and the year -1 as 0000. -/
def time : List Char → List Char
  | '-' :: cs =>
    let year := Nat.ofDigitChars 10 (cs.takeWhile (· ≠ '-')) 0 - 1
    (if year = 0 then [] else ['-']) ++ Text.padded 4 year ++ cs.dropWhile (· ≠ '-')
  | cs => cs.dropWhile (· = '+')

def address (base : String) (id : String) : String :=
  base ++ "/entity/" ++ id

def binding? (base : String) (datavalue : Json) : Option Binding :=
  let value := datavalue.get "value"
  match (datavalue.get "type").text? with
  | some "quantity" => (value.get "amount").text?.map fun s =>
    ⟨"literal", String.ofList (s.toList.dropWhile (· = '+')), some (xsd "decimal"), none⟩
  | some "time" => (value.get "time").text?.map fun s =>
    ⟨"literal", String.ofList (time s.toList), some (xsd "dateTime"), none⟩
  | some "wikibase-entityid" => (value.get "id").text?.map fun id => ⟨"uri", address base id, none, none⟩
  | _ => value.text?.map Binding.literal

def fact? (statement : Json) : Option (PropertyId × Json) := do
  let snak := statement.get "mainsnak"
  let property ← (snak.get "property").text?
  let datavalue ← snak.get? "datavalue"
  (PropertyId.ofText? property).map fun p => (p, datavalue)

def facts (data : Json) : List (PropertyId × Json) :=
  (data.get "claims").items.filterMap fact?

def solution (base : String) (property : FieldKey → PropertyId) (fields : List ResolvedField) (item : ItemId)
    (facts : List (PropertyId × Json)) : Solution :=
  (Variable.item.name, ⟨"uri", address base item.text, none, none⟩)
    :: fields.filterMap fun f => ((facts.lookup (property f.key)).bind (binding? base)).map fun b =>
      ((Variable.field f.field.name).name, b)

def answer (base : String) (property : FieldKey → PropertyId) (fields : List ResolvedField) (item : ItemId)
    (facts : List (PropertyId × Json)) : Solutions :=
  ⟨Variable.item.name :: fields.map fun f => (Variable.field f.field.name).name,
    [solution base property fields item facts]⟩

theorem fact?_statement (p : PropertyId) (datavalue : Json) :
    fact? (Claim.statement p datavalue) = some (p, datavalue) := by
  simp [fact?, Claim.statement, Json.get_ofEntries, Json.get?_ofEntries, List.lookup_cons, Json.text?,
    PropertyId.ofText?_text]

theorem ofDigitChars_padded (width n : Nat) : Nat.ofDigitChars 10 (Text.padded width n) 0 = n := by
  have h := Text.numeral?_padded width n
  unfold Text.numeral? at h
  split at h
  · exact Option.some.inj h
  · exact nomatch h

theorem time_before (year : Nat) (d : Date) : time ('-' :: Timestamp.spelled year d) =
    (if year - 1 = 0 then [] else ['-']) ++ Timestamp.spelled (year - 1) d := by
  have hno : ∀ c ∈ Text.padded 4 year, decide (c ≠ '-') = true := by
    intro c hc
    rw [decide_eq_true_eq]
    rintro rfl
    exact Text.not_mem_padded rfl 4 year hc
  have hspelled : Timestamp.spelled year d = Text.padded 4 year ++ (d.monthDay ++ Timestamp.midnight) :=
    List.append_assoc _ _ _
  have htake : (Timestamp.spelled year d).takeWhile (· ≠ '-') = Text.padded 4 year := by
    rw [hspelled, List.takeWhile_append_of_pos hno]
    exact List.append_nil _
  have hdrop : (Timestamp.spelled year d).dropWhile (· ≠ '-') = d.monthDay ++ Timestamp.midnight := by
    rw [hspelled, List.dropWhile_append_of_pos hno]
    rfl
  rw [time, htake, hdrop, ofDigitChars_padded, List.append_assoc]
  exact congrArg _ (List.append_assoc _ _ _).symm

theorem time_since (year : Nat) (d : Date) : time ('+' :: Timestamp.spelled year d) = Timestamp.spelled year d := by
  obtain ⟨c, cs, hcs, hc⟩ := Text.padded_eq_cons 4 year
  have hspelled : Timestamp.spelled year d = c :: (cs ++ (d.monthDay ++ Timestamp.midnight)) := by
    rw [Timestamp.spelled, List.append_assoc, hcs, List.cons_append]
  have htime : time ('+' :: Timestamp.spelled year d) = (Timestamp.spelled year d).dropWhile (· = '+') := rfl
  rw [htime, hspelled, Claim.dropWhile_plus hc]

theorem time_stored (d : Date) : String.ofList (time (Timestamp.stored d).toList) = Timestamp.queried d := by
  have hqueried : Timestamp.queried d =
      String.ofList ((if d.year < 0 then ['-'] else []) ++ Timestamp.spelled d.year.natAbs d) := by
    simp only [Timestamp.queried, Timestamp.spelled, List.append_assoc]
  rw [hqueried]
  by_cases hpos : 0 < d.year
  · have hstored : Timestamp.stored d = String.ofList ('+' :: Timestamp.spelled d.year.natAbs d) := by
      simp only [Timestamp.stored, Timestamp.historical, if_pos hpos, if_neg (Int.not_lt.2 (Int.le_of_lt hpos)),
        Timestamp.spelled, List.cons_append]
    rw [hstored, String.toList_ofList, time_since, if_neg (by omega), List.nil_append]
  · have hneg : d.year - 1 < 0 := by omega
    have hstored : Timestamp.stored d = String.ofList ('-' :: Timestamp.spelled (d.year - 1).natAbs d) := by
      simp only [Timestamp.stored, Timestamp.historical, if_neg hpos, if_pos hneg, Timestamp.spelled,
        List.cons_append]
    have habs : (d.year - 1).natAbs - 1 = d.year.natAbs := by omega
    rw [hstored, String.toList_ofList, time_before, habs]
    by_cases hzero : d.year = 0
    · rw [if_pos (by omega), if_neg (by omega)]
    · rw [if_neg (by omega), if_pos (by omega)]

theorem ofIri?_address (base : String) (i : ItemId) : ItemId.ofIri? (address base i.text) = some i := by
  have hno : '/' ∉ i.text.toList := by
    rw [ItemId.text, String.toList_ofList, List.mem_cons, not_or]
    refine ⟨by decide, fun hmem => ?_⟩
    exact absurd (Text.isDigit_of_mem_digits hmem) (by decide)
  have htext : (address base i.text).toList = (base.toList ++ "/entity".toList) ++ '/' :: i.text.toList := by
    simp [address]
  rw [ItemId.ofIri?, htext, List.splitOn_append_cons_self, List.splitOn_eq_singleton hno,
    List.getLast?_concat]
  exact (congrArg ItemId.ofText? String.ofList_toList).trans (ItemId.ofText?_text i)

theorem binding?_string (base s : String) :
    binding? base (Claim.typed "string" (.string s)) = some (.literal s) := by
  rw [binding?, Claim.get_typed_value, Claim.get_typed_type]
  rfl

theorem binding?_quantity (base : String) (x : Binary64) :
    binding? base (Claim.typed "quantity" (Claim.quantity x)) =
      some ⟨"literal", String.ofList (x.toSignedList.dropWhile (· = '+')), some (xsd "decimal"), none⟩ := by
  simp only [binding?, Claim.get_typed_value, Claim.get_typed_type, Claim.get_quantity_amount, Json.text?,
    Option.map_some, String.toList_ofList]

theorem binding?_time (base : String) (d : Date) :
    binding? base (Claim.typed "time" (Claim.time d)) =
      some ⟨"literal", Timestamp.queried d, some (xsd "dateTime"), none⟩ := by
  simp only [binding?, Claim.get_typed_value, Claim.get_typed_type, Claim.get_time_time, Json.text?,
    Option.map_some, time_stored]

theorem binding?_item (base : String) (i : ItemId) :
    binding? base (Claim.itemDatavalue i) = some ⟨"uri", address base i.text, none, none⟩ := by
  simp only [Claim.itemDatavalue, binding?, Claim.get_typed_value, Claim.get_typed_type, Claim.get_itemValue_id,
    Json.text?, Option.map_some]

theorem decode?_binding? (base : String) {v : Value} {type : FieldType} {stored : Json}
    (hfits : v.fits type = true) (h : Claim.datavalue v = .ok stored) :
    ∃ b, binding? base stored = some b ∧ b.decode? type = some v.canonical := by
  cases Value.suits_of_fits hfits with
  | null => exact nomatch h
  | text s =>
    obtain rfl := Except.ok.inj h
    exact ⟨_, binding?_string base s, rfl⟩
  | boolean b =>
    obtain rfl := Except.ok.inj h
    exact ⟨_, binding?_string base _, Value.boolean?_booleanText b⟩
  | number x =>
    obtain ⟨_, hvalue, rfl⟩ := Claim.datavalue_eq_ok h
    obtain ⟨hx, rfl⟩ := Claim.snak_number hvalue
    refine ⟨_, binding?_quantity base x, Claim.number?_of_dropWhile hx ?_⟩
    rw [String.toList_ofList, Claim.dropWhile_toSignedList hx, Claim.dropWhile_toList hx]
  | date d =>
    obtain rfl := Except.ok.inj h
    refine ⟨_, binding?_time base d, ?_⟩
    exact congrArg (Option.map Value.date) (Timestamp.ofQueried?_queried d)
  | reference id target =>
    obtain ⟨_, hvalue, rfl⟩ := Claim.datavalue_eq_ok h
    obtain ⟨i, hitem, rfl⟩ := Claim.snak_reference hvalue
    refine ⟨_, binding?_item base i, ?_⟩
    rw [Value.canonical_reference hitem]
    exact congrArg (Option.map fun j : ItemId => Value.reference j.text) (ofIri?_address base i)

end Export

end ClaimTables
