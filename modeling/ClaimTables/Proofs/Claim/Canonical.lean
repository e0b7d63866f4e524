import ClaimTables.Proofs.Claim.RoundTrip

/-!
Which values can be stored, and which are read. Main statement: what is stored of a value is read as the value, a reference with
its identifier in the usual form, and a value that is read from any document at all can be stored and is read again as it is.
-/

namespace ClaimTables

variable {type : FieldType} {v : Value} {document : Json} {s : String}

namespace Value

/-- That a value can be stored: there is one, a number is finite, and a reference is to an item. -/
def Storable : Value → Prop
  | .null => False
  | .number x => x.isFinite = true
  | .reference id => ∃ i, ItemId.ofText? id = some i
  | .boolean _ | .date _ | .text _ => True

theorem canonical_eq_self (h : ∀ id, v ≠ .reference id) : v.canonical = v := by
  cases v with
  | reference id => exact absurd rfl (h id)
  | null | boolean _ | number _ | date _ | text _ => rfl

theorem canonical_item (i : ItemId) : canonical (.reference i.text) = .reference i.text :=
  canonical_reference (ItemId.ofText?_text i)

theorem exists_of_boolean? (h : boolean? s = some v) : ∃ b, v = .boolean b := by
  unfold boolean? at h
  split at h
  · exact ⟨true, (Option.some.inj h).symm⟩
  · split at h
    · exact ⟨false, (Option.some.inj h).symm⟩
    · exact nomatch h

end Value

namespace Claim

theorem exists_snak_iff : (∃ stored, snak v = .ok stored) ↔ v.Storable := by
  cases v with
  | null => exact iff_of_false (fun ⟨_, h⟩ => nomatch h) id
  | boolean b | date d | text s => exact iff_of_true ⟨_, rfl⟩ True.intro
  | number x =>
    refine ⟨fun ⟨_, h⟩ => (snak_number h).1, fun hx => ⟨quantity x, ?_⟩⟩
    exact if_pos hx
  | reference id =>
    constructor
    · rintro ⟨_, h⟩
      obtain ⟨i, hitem, -⟩ := snak_reference h
      exact ⟨i, hitem⟩
    · rintro ⟨i, hitem⟩
      refine ⟨itemValue i, ?_⟩
      rw [snak, item, hitem]
      rfl

theorem exists_datavalue_iff : (∃ stored, datavalue v = .ok stored) ↔ v.Storable := by
  rw [← exists_snak_iff]
  constructor
  · rintro ⟨_, h⟩
    obtain ⟨value, hvalue, -⟩ := datavalue_eq_ok h
    exact ⟨value, hvalue⟩
  · rintro ⟨value, hvalue⟩
    exact ⟨typed (valueType v) value, by rw [datavalue, hvalue]; rfl⟩

theorem storable_of_ofDatavalue? (h : ofDatavalue? type document = some v) : v.Storable ∧ v.canonical = v := by
  cases type with
  | text | date =>
    obtain ⟨x, -, rfl⟩ := Option.map_eq_some_iff.1 h
    exact ⟨True.intro, rfl⟩
  | boolean =>
    obtain ⟨s, -, hs⟩ := Option.bind_eq_some_iff.1 h
    obtain ⟨b, rfl⟩ := Value.exists_of_boolean? hs
    exact ⟨True.intro, rfl⟩
  | number =>
    obtain ⟨s, -, hs⟩ := Option.bind_eq_some_iff.1 h
    obtain ⟨x, hx, rfl⟩ := Option.map_eq_some_iff.1 hs
    exact ⟨Binary64.isFinite_of_finite? hx, rfl⟩
  | reference target =>
    obtain ⟨i, -, rfl⟩ := Option.map_eq_some_iff.1 h
    exact ⟨⟨i, ItemId.ofText?_text i⟩, Value.canonical_item i⟩

/--
What is stored of a value that fits a type is read as the value, or as the reference to its item, and all values but null,
numbers that are not finite and references to no item can be stored. Whatever a value is read from, it fits the type, it can
be stored, and what is stored of it is read as the value again.
-/
theorem stored_and_read (type : FieldType) (v : Value) :
    (∀ stored, v.fits type = true → datavalue v = .ok stored →
      ((∀ id, v ≠ .reference id) → ofDatavalue? type stored = some v) ∧
      ∀ id, v = .reference id → ∃ i, ItemId.ofText? id = some i ∧ ofDatavalue? type stored = some (.reference i.text)) ∧
    ((∃ stored, datavalue v = .ok stored) ↔ v.Storable) ∧
    ∀ document, ofDatavalue? type document = some v →
      v.fits type = true ∧ ∃ stored, datavalue v = .ok stored ∧ ofDatavalue? type stored = some v := by
  refine ⟨fun stored hfits hstored => ⟨fun hv => ?_, fun id hid => ?_⟩, exists_datavalue_iff, fun document hread => ?_⟩
  · rw [ofDatavalue?_datavalue hfits hstored, Value.canonical_eq_self hv]
  · obtain ⟨i, hitem⟩ : (Value.reference id).Storable := exists_datavalue_iff.1 ⟨stored, hid ▸ hstored⟩
    refine ⟨i, hitem, ?_⟩
    rw [ofDatavalue?_datavalue hfits hstored, hid, Value.canonical_reference hitem]
  · obtain ⟨hstorable, hcanonical⟩ := storable_of_ofDatavalue? hread
    obtain ⟨stored, hstored⟩ := exists_datavalue_iff.2 hstorable
    have hfits := fits_of_ofDatavalue? hread
    refine ⟨hfits, stored, hstored, ?_⟩
    rw [ofDatavalue?_datavalue hfits hstored, hcanonical]

end Claim

end ClaimTables
