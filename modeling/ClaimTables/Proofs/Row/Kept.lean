import ClaimTables.Proofs.Row.Created
import ClaimTables.Proofs.Service.Store

/-!
Rows that are kept in order. A row has a type, the tag of its namespace and for each field one claim with a value
of the field, or none if the field may be null. What an update plans for a field leaves it so, however far it gets.
-/

namespace ClaimTables

open Sparql (Solution Variable)

/-- The claims of a field in a row: one, with a value of the field, or none if the field may be null. -/
inductive ResolvedField.Kept (f : ResolvedField) : List StoredClaim → Prop
  | empty (hnullable : f.field.nullable = true) : f.Kept []
  | value (guid : String) {v : Value} {d : Json} (hfits : v.fits f.field.type = true)
    (hstored : Claim.datavalue v = .ok d) : f.Kept [⟨guid, some d⟩]

theorem ResolvedField.Kept.decodes {f : ResolvedField} {cs : List StoredClaim} (hkept : f.Kept cs) {c : StoredClaim}
    (hc : c ∈ cs) :
    ∃ v, c.datavalue.bind (Claim.ofDatavalue? f.field.type) = some v ∧ v.fits f.field.type = true := by
  cases hkept with
  | empty => exact absurd hc List.not_mem_nil
  | value guid hfits hstored =>
    obtain rfl := List.mem_singleton.1 hc
    have hread := Claim.ofDatavalue?_datavalue hfits hstored
    exact ⟨_, hread, Claim.fits_of_ofDatavalue? hread⟩

namespace Store

theorem stored_snak {v : Value} {value : Json} (h : Claim.snak v = .ok value) :
    Claim.datavalue v = .ok (stored value) := by
  have htype : valueType value = Claim.valueType v := by
    cases v with
    | null => cases h
    | text _ | boolean _ =>
      obtain rfl := Except.ok.inj h
      rfl
    | number x =>
      obtain ⟨-, rfl⟩ := Claim.snak_number h
      simp [valueType, Claim.quantity, Json.ofEntries, Json.text?, Json.get?, Keyed.lookup_ofList, List.lookup_cons,
        Claim.valueType]
    | date d =>
      obtain rfl := Except.ok.inj h
      simp [valueType, Claim.time, Json.ofEntries, Json.text?, Json.get?, Keyed.lookup_ofList, List.lookup_cons,
        Claim.valueType]
    | reference id =>
      obtain ⟨i, -, rfl⟩ := Claim.snak_reference h
      simp [valueType, Claim.itemValue, Json.ofEntries, Json.text?, Json.get?, Keyed.lookup_ofList, List.lookup_cons,
        Claim.valueType]
  rw [Claim.datavalue, h, stored, htype]
  rfl

end Store

namespace ClaimEdit

theorem targets_removing {claims : List StoredClaim} {edit : ClaimEdit} (h : edit ∈ removing claims) :
    edit.targets = claims.map (·.guid) := by
  rw [removing] at h
  split at h
  · exact absurd h List.not_mem_nil
  · obtain rfl := List.mem_singleton.1 h
    rfl

theorem plan_eq_ok {type : FieldType} {v : Value} {stored : List StoredClaim} {edits : List ClaimEdit} :
    plan type v stored = .ok edits ↔ (v.isNull = true ∧ edits = removing stored) ∨
      (v.isNull = false ∧ ∃ snak, Claim.snak v = .ok snak ∧ edits = setting type v snak stored) := by
  rw [plan]
  split
  · next hnull => simp [hnull, eq_comm]
  · next hnull =>
    cases hsnak : Claim.snak v with
    | error why => simp [hnull, Except.map]
    | ok snak => simp [hnull, Except.map, eq_comm]

theorem targets_plan {type : FieldType} {v : Value} {stored : List StoredClaim} {edits : List ClaimEdit}
    (h : plan type v stored = .ok edits) : ∀ edit ∈ edits, edit.targets ⊆ stored.map (·.guid) := by
  intro edit hedit
  rcases plan_eq_ok.1 h with ⟨-, rfl⟩ | ⟨-, snak, -, rfl⟩
  · rw [targets_removing hedit]
    exact List.Subset.refl _
  · cases stored with
    | nil =>
      obtain rfl := List.mem_singleton.1 hedit
      exact List.nil_subset _
    | cons first extra =>
      rcases List.mem_append.1 hedit with hedit | hedit
      · split at hedit
        · exact absurd hedit List.not_mem_nil
        · obtain rfl := List.mem_singleton.1 hedit
          exact List.cons_subset.2 ⟨List.mem_cons_self, List.nil_subset _⟩
      · rw [targets_removing hedit]
        exact List.subset_cons_self _ _

end ClaimEdit

theorem Values.Allowed.nullable {f : ResolvedField} {v : Value} (h : Values.Allowed f v) (hnull : v.isNull = true) :
    f.field.nullable = true := by
  rcases h with h | ⟨-, d, hd⟩
  · exact h.2
  · obtain rfl := Value.eq_null_of_isNull hnull
    cases hd

theorem ResolvedField.Kept.plan {f : ResolvedField} {v : Value} {cs : List StoredClaim} {edits : List ClaimEdit}
    (hkept : f.Kept cs) (hallowed : Values.Allowed f v) (hplan : ClaimEdit.plan f.field.type v cs = .ok edits) :
    edits = [] ∨ ∃ edit, edits = [edit] ∧ ∀ cs', edit.Turns cs cs' → f.Kept cs' := by
  -- A field that is kept has one claim at most, so one edit is all that a plan can need.
  rcases ClaimEdit.plan_eq_ok.1 hplan with ⟨hnull, rfl⟩ | ⟨hnull, snak, hsnak, rfl⟩
  · have hnullable := hallowed.nullable hnull
    cases hkept with
    | empty => exact .inl rfl
    | value guid hfits hstored =>
      refine .inr ⟨_, rfl, fun cs' hturns => ?_⟩
      cases hturns
      simpa using Kept.empty hnullable
  · have hfits : v.fits f.field.type = true := by
      rcases hallowed with h | h
      · exact Bool.noConfusion (hnull.symm.trans h.1)
      · exact h.1
    have hstored := Store.stored_snak hsnak
    cases hkept with
    | empty =>
      refine .inr ⟨_, rfl, fun cs' hturns => ?_⟩
      cases hturns
      exact .value _ hfits hstored
    | value guid =>
      dsimp only [ClaimEdit.setting]
      split
      · exact .inl rfl
      · refine .inr ⟨_, rfl, fun cs' hturns => ?_⟩
        cases hturns
        simpa using Kept.value guid hfits hstored

namespace Tables

structure RowKept (t : Tables) (property : FieldKey → PropertyId) (fields : List ResolvedField)
    (claims : PropertyId → List StoredClaim) : Prop where
  instanceOf : ∃ guid type, claims t.reserved.instanceOf = [⟨guid, some (Claim.itemDatavalue type)⟩]
  tag : ∃ guid, claims t.reserved.tag = [⟨guid, some (Claim.stringDatavalue t.space.tag)⟩]
  fields : ∀ f ∈ fields, f.Kept (claims (property f.key))

theorem eq_singleton_of_map {cs : List StoredClaim} {d : Json} (h : cs.map (·.datavalue) = [some d]) :
    ∃ guid, cs = [⟨guid, some d⟩] := by
  obtain ⟨⟨guid, datavalue⟩, rfl, hd⟩ := List.map_eq_singleton_iff.1 h
  obtain rfl : datavalue = some d := hd
  exact ⟨guid, rfl⟩

theorem kept_of_given {f : ResolvedField} {given : Option Value} {cs : List StoredClaim}
    (hgiven : match given with
      | some v => Values.Allowed f v
      | none => f.field.nullable = true)
    (hcs : cs.map (·.datavalue) = (given.bind fun v => (Claim.datavalue v).toOption).toList.map some) : f.Kept cs := by
  have hempty : cs.map (·.datavalue) = [] → f.field.nullable = true → f.Kept cs := by
    intro h hnullable
    rw [List.map_eq_nil_iff.1 h]
    exact .empty hnullable
  cases given with
  | none => exact hempty hcs hgiven
  | some v =>
    rcases hgiven with ⟨hnull, hnullable⟩ | ⟨hfits, d, hd⟩
    · obtain rfl := Value.eq_null_of_isNull hnull
      exact hempty hcs hnullable
    · rw [Option.bind_some, hd] at hcs
      obtain ⟨guid, rfl⟩ := eq_singleton_of_map hcs
      exact .value guid hfits hd

theorem filter_filterMap {α β κ : Type} [DecidableEq κ] {l : List α} {k : α → κ} {g : α → Option β} {a : α}
    (hnodup : (l.map k).Nodup) (ha : a ∈ l) :
    ((l.filterMap fun b => (g b).map fun x => (k b, x)).filter (·.1 = k a)).map (·.2) = (g a).toList := by
  have hnone : ∀ rest : List α, k a ∉ rest.map k →
      (rest.filterMap fun b => (g b).map fun x => (k b, x)).filter (·.1 = k a) = [] := by
    intro rest hrest
    rw [List.filter_eq_nil_iff]
    intro e he
    obtain ⟨b, hb, he⟩ := List.mem_filterMap.1 he
    obtain ⟨x, -, rfl⟩ := Option.map_eq_some_iff.1 he
    have hne : k b ≠ k a := fun h => hrest (h ▸ List.mem_map_of_mem hb)
    simpa using hne
  induction l with
  | nil => exact absurd ha List.not_mem_nil
  | cons b rest ih =>
    obtain ⟨hb, hrest⟩ := List.nodup_cons.1 hnodup
    rcases List.mem_cons.1 ha with rfl | ha
    · cases hg : g a with
      | none => simp [hg, hnone rest hb]
      | some x => simp [hg, hnone rest hb]
    · have hne : k b ≠ k a := fun h => hb (h ▸ List.mem_map_of_mem ha)
      rw [← ih hrest ha, List.filterMap_cons]
      cases g b with
      | none => rfl
      | some x => simp [hne]

variable {t : Tables} {property : FieldKey → PropertyId} {fields : List ResolvedField}

theorem Registers.nodup (hregisters : t.Registers fields property) (hnames : (fields.map (·.field.name)).Nodup) :
    (fields.map fun f => property f.key).Nodup := by
  refine (List.Nodup.of_map _ hnames).map_on fun f hf g hg h => ?_
  exact List.inj_on_of_nodup_map hnames hf hg (name_eq_of_key_eq (hregisters.injective f hf g hg h))

theorem no_facts_of_others {values : Values} {p : PropertyId} (hp : ∀ f ∈ fields, property f.key ≠ p) :
    (fields.filterMap fun f => ((values.given f).bind fun v => (Claim.datavalue v).toOption).map fun stored =>
      (property f.key, stored)).filter (·.1 = p) = [] := by
  rw [List.filter_eq_nil_iff]
  intro e he
  obtain ⟨f, hf, he⟩ := List.mem_filterMap.1 he
  obtain ⟨d, -, rfl⟩ := Option.map_eq_some_iff.1 he
  simpa using hp f hf

theorem rowKept_of_said (hregisters : t.Registers fields property) (hnames : (fields.map (·.field.name)).Nodup)
    (hreserved : t.reserved.instanceOf ≠ t.reserved.tag) {values : Values} {checked : CheckedValues}
    (hchecked : checked = fields.filterMap fun f => (values.given f).map fun v => (f, v))
    (hallowed : ∀ f ∈ fields, match values.given f with
      | some v => Values.Allowed f v
      | none => true = true → f.field.nullable = true)
    {claims : PropertyId → List StoredClaim} {label : String} {type : ItemId}
    (hsaid : ∀ p, (claims p).map (·.datavalue) =
      ((Export.facts (t.client.itemData label (t.rowStatements type ++ statementsOf property checked))).filter
        (·.1 = p)).map fun f => some f.2) : t.RowKept property fields claims := by
  simp only [facts_itemData, storedOf_checked hchecked] at hsaid
  -- Each property is that of the type, of the tag, or of one field, so each has the claims of one statement.
  refine ⟨?_, ?_, fun f hf => ?_⟩
  · have hclaims := hsaid t.reserved.instanceOf
    rw [List.filter_cons_of_pos (by simp), List.filter_cons_of_neg (by simpa using hreserved.symm),
      no_facts_of_others hregisters.not_instanceOf] at hclaims
    obtain ⟨guid, hguid⟩ := eq_singleton_of_map hclaims
    exact ⟨guid, type, hguid⟩
  · have hclaims := hsaid t.reserved.tag
    rw [List.filter_cons_of_neg (by simpa using hreserved), List.filter_cons_of_pos (by simp),
      no_facts_of_others hregisters.not_tag] at hclaims
    exact eq_singleton_of_map hclaims
  · have hmap : ∀ l : List (PropertyId × Json), l.map (fun e => some e.2) = (l.map (·.2)).map some :=
      fun l => List.map_map.symm
    have hclaims := hsaid (property f.key)
    rw [List.filter_cons_of_neg (by simpa using (hregisters.not_instanceOf f hf).symm),
      List.filter_cons_of_neg (by simpa using (hregisters.not_tag f hf).symm), hmap,
      filter_filterMap (k := fun f : ResolvedField => property f.key) (hregisters.nodup hnames) hf] at hclaims
    refine kept_of_given ?_ hclaims
    have hgiven := hallowed f hf
    cases hv : values.given f with
    | none =>
      rw [hv] at hgiven
      exact hgiven rfl
    | some v =>
      rw [hv] at hgiven
      exact hgiven

/-- The first value of a property among the facts is that of the first claim of the property that has one. -/
theorem lookup_storeFacts (s : Store) (id : String) (p : PropertyId) :
    (s.facts id).lookup p = ((s.claimsOf id p).filterMap (·.datavalue)).head? := by
  obtain ⟨entities, claims⟩ := s
  induction claims with
  | nil => rfl
  | cons c rest ih =>
    simp only [Store.facts, Store.claimsOf] at ih ⊢
    by_cases hid : c.entity = id
    · by_cases hp : c.property = p
      · cases hd : c.datavalue <;> simp [hid, hp, hd, ih]
      · cases hd : c.datavalue <;> simp [hid, hp, hd, ih, List.lookup_cons, beq_eq_false_iff_ne.2 (Ne.symm hp)]
    · simp [hid, ih]

theorem cell_of_kept (base : String) {solution : Solution} {f : ResolvedField} {cs : List StoredClaim}
    (hkept : f.Kept cs) (hlookup : solution.lookup (Variable.field f.field.name).name =
      ((cs.filterMap (·.datavalue)).head?).bind (Export.binding? base)) :
    ∃ v, RowStream.cell f.field solution = .ok v := by
  rw [RowStream.cell, hlookup]
  cases hkept with
  | empty hnullable => exact ⟨.null, if_pos hnullable⟩
  | @value _ v d hfits hstored =>
    obtain ⟨b, hb, hdecode⟩ := Export.decode?_binding? base hfits hstored
    refine ⟨v.canonical, ?_⟩
    simp only [List.filterMap_cons, List.head?_cons, Option.bind_some, hb, hdecode]

theorem RowKept.reads {s : Store} {item : ItemId} (hrow : t.RowKept property fields (s.claimsOf item.text))
    (hschema : t.schema.Valid) {model : String} {shown : List ResolvedField} (hfields : t.schema.fields model = .ok shown)
    (hsub : shown ⊆ fields) (base : String) :
    ∃ row, (RowStream.ofSolutions t.schema model (Export.answer base property shown item (s.facts item.text))).map
      RowStream.toList = .ok [.ok row] := by
  have hcell : ∀ f ∈ shown, ∃ v, RowStream.cell f.field
      (Export.solution base property shown item (s.facts item.text)) = .ok v := by
    intro f hf
    refine cell_of_kept base (hrow.fields f (hsub hf)) ?_
    rw [lookup_solution (hschema.nodup hfields) hf, lookup_storeFacts]
  have hitem : RowStream.itemOf model (Export.solution base property shown item (s.facts item.text)) = .ok item := by
    have hlookup : (Export.solution base property shown item (s.facts item.text)).lookup Variable.item.name =
        some ⟨"uri", Export.address base item.text, none, none⟩ := List.lookup_cons_self
    rw [RowStream.itemOf, hlookup]
    dsimp only
    rw [Export.ofIri?_address]
  refine ⟨_, RowStream.toList_ofSolutions (v := fun f => (RowStream.cell f
    (Export.solution base property shown item (s.facts item.text))).toOption.getD .null) hfields rfl hitem ?_⟩
  intro f hf
  obtain ⟨v, hv⟩ := hcell f hf
  rw [hv]
  rfl

end Tables

end ClaimTables
