import ClaimTables.Proofs.Claim.RoundTrip
import ClaimTables.Proofs.Schema.Valid
import ClaimTables.Row.Validation

/-!
What the checks of a row's values promise: the checked values are those that were given, each fits its field
and has a stored form unless it is null, and what may not be null is not.
-/

namespace ClaimTables.Values

def given (values : Values) (f : ResolvedField) : Option Value :=
  values.lookup f.field.name

def Allowed (f : ResolvedField) (v : Value) : Prop :=
  (v.isNull = true ∧ f.field.nullable = true) ∨ (v.fits f.field.type = true ∧ ∃ stored, Claim.datavalue v = .ok stored)

theorem allowed_of_check {model : String} {f : ResolvedField} {v : Value} (h : check model f v = .ok ()) :
    Allowed f v := by
  unfold check at h
  split at h
  · next hnull =>
    split at h
    · next hnullable => exact .inl ⟨hnull, hnullable⟩
    · exact nomatch h
  · split at h
    · exact nomatch h
    · next hfits =>
      split at h
      · next value hvalue =>
        refine .inr ⟨by simpa using hfits, Claim.typed (Claim.valueType v) value, ?_⟩
        rw [Claim.datavalue, hvalue]
        rfl
      · exact nomatch h

variable {model : String} {values : Values} {creating : Bool} {checked : CheckedValues}

theorem checkFields_eq_ok {fields : List ResolvedField}
    (h : values.checkFields model creating fields = .ok checked) :
    checked = fields.filterMap (fun f => (values.given f).map fun v => (f, v)) ∧
      ∀ f ∈ fields, match values.given f with
        | some v => Allowed f v
        | none => creating = true → f.field.nullable = true := by
  induction fields generalizing checked with
  | nil =>
    obtain rfl := Except.ok.inj h
    exact ⟨rfl, fun f hf => nomatch hf⟩
  | cons f rest ih =>
    rw [checkFields] at h
    rw [List.filterMap_cons, List.forall_mem_cons, given]
    -- A field without a value may be left out unless the row is new and the field required.
    split at h
    · next hnone =>
      rw [hnone]
      split at h
      · exact nomatch h
      · next hrequired =>
        obtain ⟨hchecked, hrest⟩ := ih h
        refine ⟨hchecked, fun hcreating => ?_, hrest⟩
        simpa [hcreating] using hrequired
    · next v hv =>
      rw [hv]
      split at h
      · exact nomatch h
      · next hcheck =>
        cases hmore : values.checkFields model creating rest with
        | error e =>
          rw [hmore] at h
          exact nomatch h
        | ok more =>
          rw [hmore] at h
          obtain ⟨hchecked, hrest⟩ := ih hmore
          refine ⟨?_, allowed_of_check hcheck, hrest⟩
          rw [← Except.ok.inj h, hchecked]
          rfl

theorem validate_eq_ok {s : Schema} (h : values.validate s model creating = .ok checked) :
    ∃ fields, s.fields model = .ok fields ∧
      checked = fields.filterMap (fun f => (values.given f).map fun v => (f, v)) ∧
      ∀ f ∈ fields, match values.given f with
        | some v => Allowed f v
        | none => creating = true → f.field.nullable = true := by
  unfold validate at h
  split at h
  · exact nomatch h
  · next fields hfields =>
    split at h
    · exact nomatch h
    · exact ⟨fields, hfields, checkFields_eq_ok h⟩

theorem given_of_validate {s : Schema} (h : values.validate s model creating = .ok checked) {e : ResolvedField × Value}
    (he : e ∈ checked) :
    (∃ fields, s.fields model = .ok fields ∧ e.1 ∈ fields) ∧ values.given e.1 = some e.2 ∧ Allowed e.1 e.2 := by
  obtain ⟨fields, hfields, rfl, hallowed⟩ := validate_eq_ok h
  obtain ⟨f, hf, he⟩ := List.mem_filterMap.1 he
  obtain ⟨v, hv, rfl⟩ := Option.map_eq_some_iff.1 he
  have hf' := hallowed f hf
  rw [hv] at hf'
  exact ⟨⟨fields, hfields, hf⟩, hv, hf'⟩

theorem effective_of_validate {s : Schema} (h : values.validate s model creating = .ok checked) :
    ∀ e ∈ checked, s.Effective e.1 :=
  fun _ he => ⟨model, (given_of_validate h he).1⟩

end ClaimTables.Values
