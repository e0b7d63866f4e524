import ClaimTables.Claim.Decoding
import ClaimTables.Proofs.Binary64.RoundTrip
import ClaimTables.Proofs.Calendar.RoundTrip

/-!
A stored value is read back as the value it was made of, with the identifier of a reference in its usual form.
-/

namespace ClaimTables

theorem Keyed.lookup_ofList {α : Type} (key : String) (entries : List (String × α)) :
    (Keyed.ofList entries).lookup key = entries.reverse.lookup key := by
  have hfold : ∀ kept : List (String × α),
      (entries.foldl (fun kept entry => Keyed.insert entry.1 entry.2 kept) kept).lookup key =
        (entries.reverse ++ kept).lookup key := by
    induction entries with
    | nil => exact fun kept => rfl
    | cons entry rest ih =>
      obtain ⟨k, v⟩ := entry
      intro kept
      rw [List.foldl_cons, ih, List.reverse_cons, List.append_assoc, List.lookup_append, List.lookup_append,
        Keyed.lookup_insert, List.singleton_append, List.lookup_cons]
      by_cases h : key = k
      · rw [if_pos h, beq_iff_eq.2 h]
      · rw [if_neg h, beq_eq_false_iff_ne.2 h]
  exact (hfold []).trans (by rw [List.append_nil])

namespace Json

theorem get?_ofEntries (key : String) (entries : List (String × Json)) :
    (ofEntries entries).get? key = entries.reverse.lookup key :=
  Keyed.lookup_ofList key entries

theorem get_ofEntries (key : String) (entries : List (String × Json)) :
    (ofEntries entries).get key = (entries.reverse.lookup key).getD .null := by
  rw [get, get?_ofEntries]

end Json

namespace Value

def canonical : Value → Value
  | .reference id => .reference (((ItemId.ofText? id).map ItemId.text).getD id)
  | v => v

theorem canonical_reference {id : String} {i : ItemId} (h : ItemId.ofText? id = some i) :
    canonical (.reference id) = .reference i.text := by
  rw [canonical, h, Option.map_some, Option.getD_some]

theorem eq_null_of_isNull {v : Value} (h : v.isNull = true) : v = .null := by
  cases v with
  | null => rfl
  | _ => exact Bool.noConfusion h

theorem boolean?_booleanText (b : Bool) : boolean? (booleanText b) = some (.boolean b) := by
  cases b <;> rfl

end Value

namespace Claim

theorem snak_number {x : Binary64} {stored : Json} (h : snak (.number x) = .ok stored) :
    x.isFinite = true ∧ quantity x = stored := by
  simp only [snak] at h
  split at h
  · next hx => exact ⟨hx, Except.ok.inj h⟩
  · exact nomatch h

theorem snak_reference {id : String} {stored : Json} (h : snak (.reference id) = .ok stored) :
    ∃ i, ItemId.ofText? id = some i ∧ itemValue i = stored := by
  simp only [snak, item] at h
  cases hitem : ItemId.ofText? id with
  | none =>
    rw [hitem] at h
    exact nomatch h
  | some i =>
    rw [hitem] at h
    exact ⟨i, rfl, Except.ok.inj h⟩

theorem datavalue_eq_ok {v : Value} {stored : Json} (h : datavalue v = .ok stored) :
    ∃ value, snak v = .ok value ∧ typed (valueType v) value = stored := by
  unfold datavalue at h
  cases hsnak : snak v with
  | error e =>
    rw [hsnak] at h
    exact nomatch h
  | ok value =>
    rw [hsnak] at h
    exact ⟨value, rfl, Except.ok.inj h⟩

theorem get_typed_value (type : String) (value : Json) : (typed type value).get "value" = value := by
  simp [typed, Json.get_ofEntries, List.lookup_cons]

theorem get_typed_type (type : String) (value : Json) : (typed type value).get "type" = .string type := by
  simp [typed, Json.get_ofEntries]

theorem get_quantity_amount (x : Binary64) :
    (quantity x).get "amount" = .string (String.ofList x.toSignedList) := by
  simp [quantity, Json.get_ofEntries, List.lookup_cons]

theorem get_time_time (d : Date) : (time d).get "time" = .string (Timestamp.stored d) := by
  simp [time, Json.get_ofEntries, List.lookup_cons]

theorem get_itemValue_id (i : ItemId) : (itemValue i).get "id" = .string i.text := by
  simp [itemValue, Json.get_ofEntries]

theorem item?_itemValue (i : ItemId) : item? (itemValue i) = some i := by
  rw [item?, get_itemValue_id]
  exact ItemId.ofText?_text i

theorem dropWhile_plus {c : Char} (hc : c.isDigit = true) (cs : List Char) :
    (c :: cs).dropWhile (· = '+') = c :: cs := by
  have hplus : c ≠ '+' := by
    rintro rfl
    exact absurd hc (by decide)
  simp [hplus]

theorem dropWhile_toList {x : Binary64} (hx : x.isFinite = true) : x.toList.dropWhile (· = '+') = x.toList := by
  cases x with
  | nan | infinite _ => exact Bool.noConfusion hx
  | finite negative m =>
    cases negative with
    | true => rfl
    | false =>
      obtain ⟨c, cs, heq, hc⟩ := Binary64.plainDigits_eq_cons m
      have hplain : Binary64.toList (.finite false m) = c :: cs := by
        rw [Binary64.toList, Binary64.signed, if_neg Bool.false_ne_true, heq, List.nil_append]
      rw [hplain]
      exact dropWhile_plus hc cs

theorem dropWhile_toSignedList {x : Binary64} (hx : x.isFinite = true) :
    x.toSignedList.dropWhile (· = '+') = x.toList := by
  cases x with
  | nan | infinite _ => exact Bool.noConfusion hx
  | finite negative m =>
    cases negative with
    | true => rfl
    | false => exact dropWhile_toList hx

theorem number?_of_dropWhile {s : String} {x : Binary64} (hx : x.isFinite = true)
    (hs : s.toList.dropWhile (· = '+') = x.toList) : number? s = some (.number x) := by
  rw [number?, hs, Binary64.finite?, Binary64.ofList?_toList, Option.filter_some, if_pos hx, Option.map_some]

theorem number?_amount {x : Binary64} (hx : x.isFinite = true) :
    number? (String.ofList x.toSignedList) = some (.number x) :=
  number?_of_dropWhile hx (by rw [String.toList_ofList, dropWhile_toSignedList hx])

theorem ofSnak?_snak {v : Value} {type : FieldType} {stored : Json} (hfits : v.fits type = true)
    (h : snak v = .ok stored) : ofSnak? type stored = some v.canonical := by
  cases Value.suits_of_fits hfits with
  | null => exact nomatch h
  | text s =>
    obtain rfl := Except.ok.inj h
    rfl
  | boolean b =>
    obtain rfl := Except.ok.inj h
    exact Value.boolean?_booleanText b
  | number x =>
    obtain ⟨hx, rfl⟩ := snak_number h
    simp only [ofSnak?, get_quantity_amount, Json.text?, Option.bind_some]
    exact number?_amount hx
  | date d =>
    obtain rfl := Except.ok.inj h
    simp only [ofSnak?, get_time_time, Json.text?, Option.bind_some, Timestamp.ofStored?_stored]
    rfl
  | reference id target =>
    obtain ⟨i, hitem, rfl⟩ := snak_reference h
    rw [Value.canonical_reference hitem, ofSnak?, item?_itemValue, Option.map_some]

theorem ofDatavalue?_datavalue {v : Value} {type : FieldType} {stored : Json} (hfits : v.fits type = true)
    (h : datavalue v = .ok stored) : ofDatavalue? type stored = some v.canonical := by
  obtain ⟨value, hvalue, rfl⟩ := datavalue_eq_ok h
  rw [ofDatavalue?, get_typed_value]
  exact ofSnak?_snak hfits hvalue

end Claim

end ClaimTables
