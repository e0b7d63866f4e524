import ClaimTables.Proofs.Row.Checked
import ClaimTables.Proofs.Schema.Ascent

/-!
What can be wrong with the values of a row. Main statements: the error by which the checks refuse values tells of a fault
that they have, and values with a fault do not pass.
-/

namespace ClaimTables

def Error.OfRow : Error → Prop
  | .unknownModel _ | .unmappedField _ _ | .invalidValue _ _ _ => True
  | _ => False

theorem Schema.Valid.unknown_of_fields {s : Schema} (hs : s.Valid) {model : String} {e : Error}
    (h : s.fields model = .error e) : s.find? model = none ∧ e = .unknownModel model := by
  cases hm : s.model model with
  | ok m =>
    obtain ⟨hfound, rfl⟩ := model_eq_ok hm
    obtain ⟨chain, hchain⟩ := hs.exists_chain (List.mem_of_find?_eq_some hfound)
    rw [fields_eq_ok.2 ⟨chain, hchain, rfl⟩] at h
    cases h
  | error e' =>
    obtain ⟨-, hnone⟩ := model_eq_error hm
    rw [fields, ancestry_eq_unknown.2 ⟨.refl, hnone⟩] at h
    exact ⟨hnone, (Except.error.inj h).symm⟩

namespace Values

inductive Unfit (f : ResolvedField) : Value → (reason : String) → Prop
  | null (h : f.field.nullable = false) : Unfit f .null "field is not nullable"
  | type {v : Value} (h : v.fits f.field.type = false) : Unfit f v (v.toText ++ " is not a " ++ f.field.type.datatype)
  | number {x : Binary64} (h : x.isFinite = false) : Unfit f (.number x) (Unstorable.notFinite x).message
  | reference {id : String} (h : ItemId.ofText? id = none) : Unfit f (.reference id) (Unstorable.notItem id).message

inductive Fault (s : Schema) (model : String) (values : Values) (creating : Bool) : Error → Prop
  | model (h : s.find? model = none) : Fault s model values creating (.unknownModel model)
  | key {fields : List ResolvedField} {name : String} (hfields : s.fields model = .ok fields)
    (hgiven : name ∈ values.map (·.1)) (h : name ∉ fields.map (·.field.name)) :
    Fault s model values creating (.unmappedField model name)
  | value {fields : List ResolvedField} {f : ResolvedField} {v : Value} {reason : String}
    (hfields : s.fields model = .ok fields) (hf : f ∈ fields) (hgiven : values.given f = some v) (h : Unfit f v reason) :
    Fault s model values creating (.invalidValue model f.field.name reason)
  | missing {fields : List ResolvedField} {f : ResolvedField} (hfields : s.fields model = .ok fields) (hf : f ∈ fields)
    (hgiven : values.given f = none) (hcreating : creating = true) (h : f.field.nullable = false) :
    Fault s model values creating (.invalidValue model f.field.name "required field is missing")

variable {s : Schema} {model : String} {values : Values} {creating : Bool} {checked : CheckedValues} {f : ResolvedField}
  {v : Value} {reason : String} {e : Error} {fields : List ResolvedField}

theorem Unfit.not_allowed (h : Unfit f v reason) : ¬Allowed f v := by
  rintro (⟨hnull, hnullable⟩ | ⟨hfits, stored, hstored⟩)
  · obtain rfl := Value.eq_null_of_isNull hnull
    cases h with
    | null h => simp [hnullable] at h
    | type h => cases h
  · obtain ⟨value, hvalue, -⟩ := Claim.datavalue_eq_ok hstored
    cases h with
    | null => cases hvalue
    | type h => simp [hfits] at h
    | number h => simp [(Claim.snak_number hvalue).1] at h
    | reference h =>
      obtain ⟨i, hi, -⟩ := Claim.snak_reference hvalue
      cases h.symm.trans hi

theorem unfit_of_snak {why : Unstorable} (hnull : v.isNull = false) (h : Claim.snak v = .error why) :
    Unfit f v why.message := by
  cases v with
  | null => cases hnull
  | text s | boolean b | date d => cases h
  | number x =>
    simp only [Claim.snak] at h
    split at h
    · cases h
    · next hx =>
      obtain rfl := Except.error.inj h
      exact .number (Bool.not_eq_true _ ▸ hx)
  | reference id =>
    simp only [Claim.snak, Claim.item] at h
    cases hitem : ItemId.ofText? id with
    | none =>
      rw [hitem] at h
      obtain rfl := Except.error.inj h
      exact .reference hitem
    | some i =>
      rw [hitem] at h
      cases h

theorem unfit_of_check (h : check model f v = .error e) :
    ∃ reason, Unfit f v reason ∧ e = .invalidValue model f.field.name reason := by
  unfold check at h
  dsimp only at h
  split at h
  · next hnull =>
    obtain rfl := Value.eq_null_of_isNull hnull
    split at h
    · cases h
    · next hnullable => exact ⟨_, .null (Bool.not_eq_true _ ▸ hnullable), (Except.error.inj h).symm⟩
  · next hnull =>
    split at h
    · next hfits => exact ⟨_, .type (Bool.not_eq_true' _ ▸ hfits), (Except.error.inj h).symm⟩
    · split at h
      · cases h
      · next why hsnak => exact ⟨_, unfit_of_snak (Bool.not_eq_true _ ▸ hnull) hsnak, (Except.error.inj h).symm⟩

theorem fault_of_checkFields (hfields : s.fields model = .ok fields) {rest : List ResolvedField} (hrest : rest ⊆ fields)
    (h : values.checkFields model creating rest = .error e) : Fault s model values creating e := by
  induction rest with
  | nil => cases h
  | cons f rest ih =>
    rw [List.cons_subset] at hrest
    rw [checkFields] at h
    -- The first field at fault is the one reported.
    split at h
    · next hgiven =>
      split at h
      · next hmissing =>
        rw [Bool.and_eq_true, Bool.not_eq_true'] at hmissing
        obtain rfl := Except.error.inj h
        exact .missing hfields hrest.1 hgiven hmissing.1 hmissing.2
      · exact ih hrest.2 h
    · next v hgiven =>
      split at h
      · next hcheck =>
        obtain rfl := Except.error.inj h
        obtain ⟨reason, hunfit, rfl⟩ := unfit_of_check hcheck
        exact .value hfields hrest.1 hgiven hunfit
      · cases hmore : values.checkFields model creating rest with
        | ok more =>
          rw [hmore] at h
          cases h
        | error e' =>
          rw [hmore] at h
          obtain rfl := Except.error.inj h
          exact ih hrest.2 hmore

theorem fault_of_validate (hs : s.Valid) (h : values.validate s model creating = .error e) :
    Fault s model values creating e := by
  unfold validate at h
  split at h
  · next e' hfields =>
    obtain rfl := Except.error.inj h
    obtain ⟨hnone, rfl⟩ := hs.unknown_of_fields hfields
    exact .model hnone
  · next fields hfields =>
    split at h
    · next name hname =>
      obtain rfl := Except.error.inj h
      refine .key hfields (List.mem_of_find?_eq_some hname) ?_
      simpa using List.find?_some hname
    · exact fault_of_checkFields hfields (List.Subset.refl _) h

theorem names_of_validate (h : values.validate s model creating = .ok checked) (hfields : s.fields model = .ok fields) :
    ∀ name ∈ values.map (·.1), name ∈ fields.map (·.field.name) := by
  unfold validate at h
  rw [hfields] at h
  dsimp only at h
  split at h
  · cases h
  · next hnone =>
    intro name hname
    simpa using List.find?_eq_none.1 hnone name hname

theorem Fault.not_ok (h : Fault s model values creating e) : values.validate s model creating ≠ .ok checked := by
  intro hvalid
  obtain ⟨fields, hfields, -, hallowed⟩ := validate_eq_ok hvalid
  have hsame {others : List ResolvedField} (hothers : s.fields model = .ok others) : others = fields :=
    Except.ok.inj (hothers.symm.trans hfields)
  cases h with
  | model hnone =>
    obtain ⟨m, hm, hname⟩ := Schema.exists_of_fields hfields
    exact List.find?_eq_none.1 hnone m hm (decide_eq_true hname)
  | key hothers hgiven hname =>
    obtain rfl := hsame hothers
    exact hname (names_of_validate hvalid hfields _ hgiven)
  | @value others f v reason hothers hf hgiven hunfit =>
    obtain rfl := hsame hothers
    have hf := hallowed f hf
    rw [hgiven] at hf
    exact hunfit.not_allowed hf
  | @missing others f hothers hf hgiven hcreating hnullable =>
    obtain rfl := hsame hothers
    have hf := hallowed f hf
    rw [hgiven] at hf
    cases hnullable.symm.trans (hf hcreating)

end Values

end ClaimTables
