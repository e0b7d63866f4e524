import ClaimTables.Proofs.Exchange.Paths
import ClaimTables.Proofs.Tables.Changes
import ClaimTables.Proofs.Tables.Guard
import ClaimTables.Proofs.Tables.Storing

/-!
Runs of calls that make, change and delete rows. Every row that was made in a run is in order at its end, whatever
came of the calls and of the edits that they sent: so it can be read.
-/

namespace ClaimTables

/-- The answer of a store that is asked for the claims of an entity. -/
def Store.shown (w : Store) (id : String) : Json :=
  .ofEntries [("entities", .ofEntries [(id, w.document id)])]

open Store

theorem PropertyId.text_ne_text (p : PropertyId) (i : ItemId) : p.text ≠ i.text := by
  intro h
  have hchars := congrArg String.toList h
  simp [PropertyId.text, ItemId.text] at hchars

namespace Tables

inductive RowCall where
  | create (model : String) (values : Values)
  | createMany (model : String) (rows : List Values)
  | createWithKey (model : String) (values : Values) (key : String)
  | update (model id : String) (values : Values)
  | delete (id : String)

def RowCall.perform (t : Tables) : RowCall → Action Unit
  | .create model values => do
    let _ ← t.create model values
  | .createMany model rows => do
    let _ ← t.createMany model rows
  | .createWithKey model values key => do
    let _ ← t.createWithKey model values key
  | .update model id values => do
    let _ ← t.update model id values
  | .delete id => Action.ofClient (t.delete id)

def performAll (t : Tables) : List RowCall → Action Unit
  | [] => pure ()
  | call :: rest => do
    let _ ← (call.perform t).outcome
    t.performAll rest

/-- That the properties of fields tell them apart, and from those that every namespace relies on. -/
structure Distinguishes (t : Tables) (property : FieldKey → PropertyId) : Prop where
  injective : ∀ f g, t.schema.Effective f → t.schema.Effective g → property f.key = property g.key → f.key = g.key
  not_reserved : ∀ f, t.schema.Effective f →
    property f.key ∉ [t.reserved.instanceOf, t.reserved.subclassOf, t.reserved.tag, t.reserved.deleted]
  reserved : [t.reserved.instanceOf, t.reserved.subclassOf, t.reserved.tag, t.reserved.deleted].Nodup

/-- What an item that was made can be: a model's, or a row in order of the model that its label names. -/
inductive ItemKept (t : Tables) (property : FieldKey → PropertyId) (labels : Json)
    (claims : PropertyId → List StoredClaim) : Prop
  | type {model : String} (hmodel : Schema.isIdentifier model = true)
    (hlabels : labels = Claim.labels t.client.language (t.space.typeLabel model))
  | row {model : String} (name : String) {fields : List ResolvedField} (hfields : t.schema.fields model = .ok fields)
    (hlabels : labels = Claim.labels t.client.language (t.space.rowLabel model name))
    (hrow : t.RowKept property fields claims)

/-- A store in order, in which every item beyond those known before is in order too. -/
structure ItemsKept (t : Tables) (property : FieldKey → PropertyId) (before : List String) (w : Store) : Prop where
  wellKept : w.WellKept
  items : ∀ (i : ItemId) labels, (i.text, labels) ∈ w.entities → i.text ∉ before →
    t.ItemKept property labels (w.claimsOf i.text)

structure RowInOrder (t : Tables) (property : FieldKey → PropertyId) (model : String) (fields : List ResolvedField)
    (i : ItemId) (w : Store) : Prop where
  kept : t.RowKept property fields (w.claimsOf i.text)
  decodes : ∀ f ∈ fields, ∀ c ∈ w.claimsOf i.text (property f.key),
    ∃ v, c.datavalue.bind (Claim.ofDatavalue? f.field.type) = some v ∧ v.fits f.field.type = true
  reads : ∀ base, ∃ row, (RowStream.ofSolutions t.schema model
    (Export.answer base property fields i (w.facts i.text))).map RowStream.toList = .ok [.ok row]

variable {t : Tables} {property : FieldKey → PropertyId} {before : List String} {registered : String → PropertyId}
  {w w' : Store} {id : String}

theorem Distinguishes.registers (h : t.Distinguishes property) {model : String} {fields : List ResolvedField}
    (hfields : t.schema.fields model = .ok fields) : t.Registers fields property where
  injective f hf g hg := h.injective f g ⟨model, fields, hfields, hf⟩ ⟨model, fields, hfields, hg⟩
  not_instanceOf f hf he := h.not_reserved f ⟨model, fields, hfields, hf⟩ (by simp [he])
  not_tag f hf he := h.not_reserved f ⟨model, fields, hfields, hf⟩ (by simp [he])

theorem ItemsKept.made (h : t.ItemsKept property before w) {kind : String} {data : Json}
    (hmade : Made registered kind data id w w') (hwell : w'.WellKept)
    (hnew : ∀ i : ItemId, id = i.text → t.ItemKept property (data.get "labels") (w'.claimsOf id)) :
    t.ItemsKept property before w' := by
  refine ⟨hwell, fun i labels hentity hbefore => ?_⟩
  rw [hmade.entities] at hentity
  rcases List.mem_append.1 hentity with hold | hlast
  · have hne : i.text ≠ id := fun hid => hmade.unused (hid ▸ List.mem_map_of_mem hold)
    have hsame : w'.claimsOf i.text = w.claimsOf i.text := funext (hmade.others i.text hne)
    rw [hsame]
    exact h.items i labels hold hbefore
  · obtain ⟨rfl, rfl⟩ := Prod.mk.inj (List.mem_singleton.1 hlast)
    exact hnew i rfl

theorem quiet_itemsKept : t.Quiet registered (t.ItemsKept property before) where
  wellKept _ h := h.wellKept
  made kind data id w w' h hmade hwell hkind := by
    refine h.made hmade hwell fun i hi => ?_
    rcases hkind with hkind | ⟨model, hmodel, hlabels⟩
    · obtain ⟨p, hp, -⟩ := hmade.property hkind
      exact absurd (hp.symm.trans hi) (PropertyId.text_ne_text p i)
    · exact .type hmodel hlabels

theorem ItemsKept.touched (h : t.ItemsKept property before w) {ps : List PropertyId} (ht : Touched id ps w w')
    (hwell : w'.WellKept) (hinstanceOf : t.reserved.instanceOf ∉ ps) (htag : t.reserved.tag ∉ ps)
    (hkept : ∀ f, t.schema.Effective f → f.Kept (w.claimsOf id (property f.key)) →
      f.Kept (w'.claimsOf id (property f.key))) : t.ItemsKept property before w' := by
  refine ⟨hwell, fun i labels hentity hbefore => ?_⟩
  rw [ht.entities] at hentity
  rcases h.items i labels hentity hbefore with ⟨hmodel, hlabels⟩ | ⟨name, hfields, hlabels, hrow⟩
  · exact .type hmodel hlabels
  · refine .row name hfields hlabels ⟨?_, ?_, fun f hf => ?_⟩
    · rw [ht.claimsOf _ _ fun hmem => hinstanceOf hmem.2]
      exact hrow.instanceOf
    · rw [ht.claimsOf _ _ fun hmem => htag hmem.2]
      exact hrow.tag
    · by_cases hid : i.text = id
      · rw [hid]
        exact hkept f ⟨_, _, hfields, hf⟩ (hid ▸ hrow.fields f hf)
      · rw [ht.claimsOf _ _ fun hmem => hid hmem.1]
        exact hrow.fields f hf

variable (hdistinct : t.Distinguishes (t.fieldProperty registered)) (hschema : t.schema.Valid)
  (hnamed : ∀ m ∈ t.schema.models, Schema.isIdentifier m.name = true)

include hdistinct hschema hnamed

theorem leaves_insert {model : String} {values : Values} {checked : CheckedValues}
    (hvalid : values.validate t.schema model true = .ok checked) :
    t.Leaves registered (t.ItemsKept (t.fieldProperty registered) before) (t.insert model checked) fun _ => True := by
  obtain ⟨fields, hfields, hchecked, hallowed⟩ := Values.validate_eq_ok hvalid
  rw [t.insert_eq]
  refine (leaves_rowData quiet_itemsKept hnamed model (Values.effective_of_validate hvalid)).bind
    fun data hdata => .of_client fun s w hw => ?_
  obtain ⟨name, type, rfl⟩ := hdata
  refine (Client.createEntity_ensures t.client .item _ s hw.wellKept).mono fun r s' w' h => ⟨?_, fun _ _ => trivial⟩
  rcases h with ⟨rfl, -⟩ | ⟨id, hmade, hwell, -⟩
  · exact hw
  · refine hw.made hmade hwell fun i hi => .row name hfields ?_ ?_
    · simp [Client.itemData, Json.get_ofEntries, List.lookup_cons]
    · have hreserved : t.reserved.instanceOf ≠ t.reserved.tag := fun h =>
        (List.nodup_cons.1 hdistinct.reserved).1 (by simp [h])
      exact rowKept_of_said (hdistinct.registers hfields) (hschema.nodup hfields) hreserved hchecked hallowed hmade.said

/-! Updates: the claims that were read are those of the row until its own edits are sent. -/

structure Holding (id : String) (claims : ClaimSet) (I : Store → Prop) (w : Store) : Prop where
  kept : I w
  known : id ∈ w.ids
  claims : ∀ p, claims.get p = w.claimsOf id p

omit hdistinct hschema hnamed in
theorem Quiet.holding {I : Store → Prop} (hI : t.Quiet registered I) (id : String) (claims : ClaimSet) :
    t.Quiet registered (Holding id claims I) where
  wellKept w h := hI.wellKept w h.kept
  made kind data id' w w' h hmade hwell hkind := by
    refine ⟨hI.made kind data id' w w' h.kept hmade hwell hkind, ?_, fun p => ?_⟩
    · rw [ids, hmade.entities, List.map_append]
      exact List.mem_append_left _ h.known
    · have hne : id ≠ id' := fun hid => hmade.unused (hid ▸ h.known)
      rw [hmade.others id hne p]
      exact h.claims p

omit hdistinct hschema hnamed in
theorem Steady.checkOwned {W : Type} {world : World W} {I : Mappings → W → Prop} (h : t.Steady world I)
    (model id : String) (claims : ClaimSet) : (t.checkOwned model id (some claims)).Maintains world I fun c => c = claims := by
  refine .of_check (.of_check ?_)
  exact (h.closed.rowTypes model).bind fun allowed _ => .of_check (.of_pure rfl)

omit hdistinct hschema hnamed in
theorem sublist_checked (values : Values) (fields : List ResolvedField) :
    ((fields.filterMap fun f => (values.given f).map fun v => (f, v)).map (·.1)).Sublist fields := by
  induction fields with
  | nil => exact .slnil
  | cons f rest ih =>
    rw [List.filterMap_cons]
    cases values.given f with
    | none => exact ih.cons f
    | some v => exact ih.cons_cons f

def changesWith (property : FieldKey → PropertyId) (checked : CheckedValues) : List Change :=
  checked.map fun e => ⟨e.1, property e.1.key, e.2⟩

omit hdistinct hschema hnamed in
theorem leaves_changesOf {I : Store → Prop} (hI : t.Quiet registered I) (values : CheckedValues) :
    t.Leaves registered I (t.changesOf values) fun changes => changes = changesWith (t.fieldProperty registered) values := by
  induction values with
  | nil => exact .of_pure rfl
  | cons e rest ih =>
    obtain ⟨f, v⟩ := e
    refine (leaves_propertyOf hI f).bind fun p hp => ih.bind fun changes hchanges => ?_
    subst hp hchanges
    exact .of_pure rfl

omit hdistinct hschema hnamed in
theorem mem_changesWith {property : FieldKey → PropertyId} {model : String} {values : Values} {checked : CheckedValues}
    {fields : List ResolvedField} (hvalid : values.validate t.schema model false = .ok checked)
    (hfields : t.schema.fields model = .ok fields) {change : Change} (h : change ∈ changesWith property checked) :
    change.field ∈ fields ∧ change.property = property change.field.key ∧ Values.Allowed change.field change.value := by
  obtain ⟨fields', hfields', rfl, hallowed⟩ := Values.validate_eq_ok hvalid
  obtain rfl := Except.ok.inj (hfields.symm.trans hfields')
  obtain ⟨e, he, rfl⟩ := List.mem_map.1 h
  obtain ⟨f, hf, he⟩ := List.mem_filterMap.1 he
  obtain ⟨v, hv, rfl⟩ := Option.map_eq_some_iff.1 he
  have hgiven := hallowed f hf
  rw [hv] at hgiven
  exact ⟨hf, rfl, hgiven⟩

omit hnamed in
theorem nodup_changesWith {model : String} {values : Values} {checked : CheckedValues}
    (hvalid : values.validate t.schema model false = .ok checked) :
    ((changesWith (t.fieldProperty registered) checked).map (·.property)).Nodup := by
  obtain ⟨fields, hfields, rfl, -⟩ := Values.validate_eq_ok hvalid
  have hmap : (changesWith (t.fieldProperty registered) (fields.filterMap fun f => (values.given f).map fun v => (f, v))).map
      (·.property) = ((fields.filterMap fun f => (values.given f).map fun v => (f, v)).map (·.1)).map
        fun f => t.fieldProperty registered f.key := by
    simp [changesWith]
  rw [hmap]
  exact ((hdistinct.registers hfields).nodup (hschema.nodup hfields)).sublist ((sublist_checked values fields).map _)

omit hnamed in
theorem keeps_applyChanges {model : String} {values : Values} {checked : CheckedValues} {claims : ClaimSet}
    (hvalid : values.validate t.schema model false = .ok checked) (s : Session)
    (hw : Holding id claims (t.ItemsKept (t.fieldProperty registered) before) w) :
    (applyChanges t.client model id claims (changesWith (t.fieldProperty registered) checked)).Ensures
      (.storing registered) s w fun _ _ w' => t.ItemsKept (t.fieldProperty registered) before w' := by
  obtain ⟨fields, hfields, -, -⟩ := Values.validate_eq_ok hvalid
  have hregisters := hdistinct.registers hfields
  refine (applyChanges_touched t.client model (nodup_changesWith hdistinct hschema hvalid)
    (fun change _ => hw.claims change.property) s hw.kept.wellKept).mono fun _ _ w' h => ?_
  obtain ⟨⟨htouched, hwell⟩, hsound⟩ := h
  refine hw.kept.touched htouched hwell (fun hp => ?_) (fun hp => ?_) fun f hf hkept => ?_
  · obtain ⟨change, hchange, hp⟩ := List.mem_map.1 hp
    obtain ⟨hfield, hproperty, -⟩ := mem_changesWith hvalid hfields hchange
    exact hregisters.not_instanceOf _ hfield (hproperty.symm.trans hp)
  · obtain ⟨change, hchange, hp⟩ := List.mem_map.1 hp
    obtain ⟨hfield, hproperty, -⟩ := mem_changesWith hvalid hfields hchange
    exact hregisters.not_tag _ hfield (hproperty.symm.trans hp)
  · -- A property that a change is about is that of one field alone, and the change is one for this field.
    by_cases hp : t.fieldProperty registered f.key ∈ (changesWith (t.fieldProperty registered) checked).map (·.property)
    · obtain ⟨change, hchange, hp⟩ := List.mem_map.1 hp
      obtain ⟨hfield, hproperty, hallowed⟩ := mem_changesWith hvalid hfields hchange
      have hkey := hdistinct.injective _ _ ⟨_, _, hfields, hfield⟩ hf (hproperty.symm.trans hp)
      obtain rfl := hschema.eq_of_key_eq ⟨_, _, hfields, hfield⟩ hf hkey
      rw [← hproperty] at hkept ⊢
      exact hsound change hchange hkept hallowed
    · rw [htouched.claimsOf _ _ fun h => hp h.2]
      exact hkept

omit hdistinct hschema hnamed in
theorem Leaves.ensures_bind {α β : Type} {I J : Store → Prop} {x : Action α} {f : α → Action β} {mid : α → Prop}
    (hx : t.Leaves registered I x mid) (hIJ : ∀ v, I v → J v)
    (hf : ∀ a, mid a → ∀ m s v, t.Knows registered m → I v → (f a).Ensures (.storing registered) m s v
      fun _ m' _ v' => t.Knows registered m' ∧ J v') {m : Mappings} {s : Session} {v : Store}
    (hm : t.Knows registered m) (hv : I v) :
    (x >>= f).Ensures (.storing registered) m s v fun _ m' _ v' => t.Knows registered m' ∧ J v' :=
  (hx m s v hm hv).bind (fun a _ _ _ h => hf a (h.2.2 a rfl) _ _ _ h.1 h.2.1) fun _ _ _ v' h => ⟨h.1, hIJ v' h.2.1⟩

theorem leaves_update (model id : String) (values : Values) :
    t.Leaves registered (t.ItemsKept (t.fieldProperty registered) before) (t.update model id values) fun _ => True := by
  refine (Leaves.of_except _).bind fun checked hvalid => ?_
  rw [ownedClaims_eq, bind_assoc]
  intro m s w hm hw
  rw [Action.ensures_bind, Action.ensures_ofClient]
  refine (Client.getClaims_ensures t.client id s w).mono fun r s' w' h => ?_
  obtain ⟨rfl, hread⟩ := h
  match r, hread with
  | .error e, _ | .ok none, _ => exact ⟨hm, hw, fun _ _ => trivial⟩
  | .ok (some claims), hread =>
    obtain ⟨hid, hclaims⟩ := hread claims rfl
    -- What happens before the first edit leaves the claims of the row as they were fetched.
    have hquiet : t.Quiet registered (Holding id claims (t.ItemsKept (t.fieldProperty registered) before)) :=
      quiet_itemsKept.holding id claims
    have hkept : ∀ v, Holding id claims (t.ItemsKept (t.fieldProperty registered) before) v →
        t.ItemsKept (t.fieldProperty registered) before v := fun v hv => hv.kept
    have howned := Leaves.iff_maintains.2 ((steady_of_quiet hquiet hnamed).checkOwned model id claims)
    refine Action.Ensures.mono (Leaves.ensures_bind howned hkept ?_ hm ⟨hw, hid, hclaims⟩)
      fun _ _ _ _ h => ⟨h.1, h.2, fun _ _ => trivial⟩
    rintro _ rfl m s v hm hv
    refine Leaves.ensures_bind (leaves_checkUnique hquiet hnamed (some id) checked) hkept ?_ hm hv
    intro _ _ m s v hm hv
    refine Leaves.ensures_bind (leaves_changesOf hquiet checked) hkept ?_ hm hv
    rintro _ rfl m s v hm hv
    rw [Action.ensures_bind]
    refine Action.ensures_ofClient.2 ((keeps_applyChanges hdistinct hschema hvalid s hv).mono fun r s' v' h => ?_)
    cases r with
    | ok results => exact Action.ensures_ofExcept.2 ⟨hm, h⟩
    | error e => exact ⟨hm, h⟩

omit hschema hnamed in
theorem keeps_discard (hsoft : t.hardDelete = false) (id : String) :
    Client.Keeps (.storing registered) (t.ItemsKept (t.fieldProperty registered) before) (t.discard id) := by
  have htagged : Client.Keeps (.storing registered) (t.ItemsKept (t.fieldProperty registered) before)
      (t.client.createClaim id t.reserved.deleted.text (.string t.space.tag)) := by
    intro s w hw
    refine (Client.createClaim_changes t.client id t.reserved.deleted (.string t.space.tag) s w).mono fun _ _ w' h => ?_
    obtain rfl | ⟨body, hstep⟩ := h
    · exact hw
    have hedit : w.Step registered ((ClaimEdit.add (.string t.space.tag)).toStore id t.reserved.deleted) w' body := hstep
    have htouched : Touched id [t.reserved.deleted] w w' :=
      hedit.touched fun _ _ hguid => absurd hguid List.not_mem_nil
    have hreserved := hdistinct.reserved
    simp only [List.nodup_cons, List.mem_cons, List.not_mem_nil, or_false, not_or] at hreserved
    refine hw.touched htouched (hw.wellKept.step hstep) ?_ ?_ fun f hf hkept => ?_
    · simpa using hreserved.1.2.2
    · simpa using hreserved.2.2.1
    · have hne : t.fieldProperty registered f.key ≠ t.reserved.deleted := fun h =>
        hdistinct.not_reserved f hf (by simp [h])
      rw [htouched.claimsOf id _ fun h => hne (List.mem_singleton.1 h.2)]
      exact hkept
  unfold discard
  rw [hsoft]
  exact htagged.bind fun _ => Client.keeps_pure _

omit hschema hnamed in
theorem keeps_delete (hsoft : t.hardDelete = false) (id : String) :
    Client.Keeps (.storing registered) (t.ItemsKept (t.fieldProperty registered) before) (t.delete id) := by
  have hread : Client.Keeps (.storing registered) (t.ItemsKept (t.fieldProperty registered) before)
      (t.client.getClaims id) :=
    fun s w hw => (Client.getClaims_ensures t.client id s w).mono fun _ _ _ h => h.1 ▸ hw
  refine hread.bind fun found => ?_
  cases found with
  | none => exact Client.keeps_pure _
  | some claims =>
    refine Client.keeps_check (Client.keeps_check ?_)
    split
    · exact Client.keeps_pure _
    · exact keeps_discard hdistinct hsoft id

theorem leaves_perform (hsoft : t.hardDelete = false) (call : RowCall) :
    t.Leaves registered (t.ItemsKept (t.fieldProperty registered) before) (call.perform t) fun _ => True := by
  have hquiet : t.Quiet registered (t.ItemsKept (t.fieldProperty registered) before) := quiet_itemsKept
  have hsteady := steady_of_quiet hquiet hnamed
  have hinsert : ∀ {model : String} {values : Values} {checked : CheckedValues},
      values.validate t.schema model true = .ok checked → (t.insert model checked).Maintains (.storing registered)
        (fun m w => t.Knows registered m ∧ t.ItemsKept (t.fieldProperty registered) before w) fun _ => True :=
    fun hvalid => Leaves.iff_maintains.1 (leaves_insert hdistinct hschema hnamed hvalid)
  cases call with
  | create model values =>
    exact (Leaves.iff_maintains.2 (hsteady.create hinsert values)).bind fun _ _ => .of_pure trivial
  | createMany model rows =>
    exact (Leaves.iff_maintains.2 (hsteady.createMany hinsert rows)).bind fun _ _ => .of_pure trivial
  | createWithKey model values key =>
    exact (Leaves.iff_maintains.2 (hsteady.createWithKey hinsert values key)).bind fun _ _ => .of_pure trivial
  | update model id values =>
    exact (leaves_update hdistinct hschema hnamed model id values).bind fun _ _ => .of_pure trivial
  | delete id => exact .of_keeps (keeps_delete hdistinct hsoft id)

theorem leaves_performAll (hsoft : t.hardDelete = false) (calls : List RowCall) :
    t.Leaves registered (t.ItemsKept (t.fieldProperty registered) before) (t.performAll calls) fun _ => True := by
  induction calls with
  | nil => exact .of_pure trivial
  | cons call rest ih =>
    exact (Leaves.of_outcome (leaves_perform hdistinct hschema hnamed hsoft call)).bind fun _ _ => ih

omit hdistinct in
theorem ItemsKept.row_inOrder (hw : t.ItemsKept property before w) {i : ItemId} {model name : String}
    {fields : List ResolvedField} (hfields : t.schema.fields model = .ok fields)
    (hentity : (i.text, Claim.labels t.client.language (t.space.rowLabel model name)) ∈ w.entities)
    (hbefore : i.text ∉ before) : t.RowInOrder property model fields i w := by
  have hidentifier : ∀ {other others}, t.schema.fields other = .ok others → Schema.isIdentifier other = true := by
    intro other others hothers
    obtain ⟨m, hm, rfl⟩ := Schema.exists_of_fields hothers
    exact hnamed m hm
  have hmodel := hidentifier hfields
  cases hw.items i _ hentity hbefore with
  | type hother hlabels =>
    exact absurd (Claim.labels_inj hlabels).symm (Role.Named.label_ne_rowLabel (r := .type t.space _) hother hmodel)
  | row other hothers hlabels hrow =>
    obtain rfl := Namespace.rowLabel_inj hmodel (hidentifier hothers) (Claim.labels_inj hlabels)
    obtain rfl := Except.ok.inj (hfields.symm.trans hothers)
    exact ⟨hrow, fun f hf c hc => (hrow.fields f hf).decodes hc,
      fun base => hrow.reads hschema hfields (List.Subset.refl _) base⟩

omit hdistinct hschema hnamed

/--
Whatever calls are made, and however they and their edits end, each item that was made since is that of a model or
a row of the model that its label names, and every such row is in order: it has one type, one tag, for each field at
most one claim, one if the field may not be null, and it can be read.
-/
theorem rows_in_order (t : Tables) {models : List Model} (hschema : Schema.ofModels models = .ok t.schema)
    (hsoft : t.hardDelete = false) (registered : String → PropertyId)
    (hdistinct : t.Distinguishes (t.fieldProperty registered)) {m : Mappings} (hm : t.Knows registered m)
    (s : Session) {w : Store} (hw : w.WellKept) (calls : List RowCall) :
    (t.performAll calls).Ensures (.storing registered) m s w fun _ _ _ w' =>
      (∀ (i : ItemId) labels, (i.text, labels) ∈ w'.entities → i.text ∉ w.ids →
        (∃ model, labels = Claim.labels t.client.language (t.space.typeLabel model)) ∨
          ∃ model name fields, t.schema.fields model = .ok fields ∧
            labels = Claim.labels t.client.language (t.space.rowLabel model name)) ∧
      ∀ (i : ItemId) model name fields, t.schema.fields model = .ok fields →
        (i.text, Claim.labels t.client.language (t.space.rowLabel model name)) ∈ w'.entities → i.text ∉ w.ids →
          t.RowInOrder (t.fieldProperty registered) model fields i w' := by
  have hvalid := Schema.valid_of_ofModels hschema
  have hnamed : ∀ m ∈ t.schema.models, Schema.isIdentifier m.name = true :=
    fun m hm => Schema.isIdentifier_of_ofModels hschema hm
  have hstart : t.ItemsKept (t.fieldProperty registered) w.ids w :=
    ⟨hw, fun i labels hentity hbefore => absurd (List.mem_map_of_mem hentity) hbefore⟩
  refine (leaves_performAll hdistinct hvalid hnamed hsoft calls m s w hm hstart).mono fun _ _ _ w' h => ?_
  refine ⟨fun i labels hentity hbefore => ?_, fun i model name fields hfields hentity hbefore => ?_⟩
  · rcases h.2.1.items i labels hentity hbefore with ⟨-, hlabels⟩ | ⟨name, hfields, hlabels, -⟩
    · exact .inl ⟨_, hlabels⟩
    · exact .inr ⟨_, name, _, hfields, hlabels⟩
  · exact h.2.1.row_inOrder hvalid hnamed hfields hentity hbefore

theorem still_storing (registered : String → PropertyId) : (World.storing registered).Still := by
  intro w e answer hnote
  cases e with
  | send r => cases hnote
  | wait _ | clock | freshName => rfl

theorem storing_shows (registered : String → PropertyId) (w : Store) (id : String) :
    World.storing registered w (.send (.get (claimsParameters id))) (.ok (w.shown id)) w := by
  refine ⟨rfl, fun body hbody _ => ⟨fun _ id' hid => ?_, nofun⟩⟩
  obtain rfl : id = id' := Option.some.inj hid
  obtain rfl := Except.ok.inj hbody
  simp [Store.shown, Json.get_ofEntries]

theorem storing_applied {registered : String → PropertyId} {w w' : Store} {ps : Parameters} {edit : StoreEdit}
    {body : Json} (hread : StoreEdit.ofParameters? ps = some edit) (hstep : w.Step registered edit w' body)
    (hbody : ApiError.ofJson? body = none) : World.storing registered w (.send (.post ps)) (.ok body) w' := by
  simp only [World.storing, hread]
  exact .applied hstep hbody

section Scripted

def memberRegistered (label : String) : PropertyId :=
  if label = "Member.name in club" then ⟨5⟩ else if label = "Member.mentor in club" then ⟨6⟩ else ⟨7⟩

def club : Store :=
  ⟨[("Q1", Claim.labels "en" (memberTables.space.typeLabel "Member"))],
    [⟨⟨"Q1$a", some (Claim.stringDatavalue "club")⟩, "Q1", ⟨3⟩⟩]⟩

def firstMember : Json :=
  memberTables.client.itemData (memberTables.space.rowLabel "Member" "0")
    (memberTables.rowStatements ⟨1⟩ ++ [Claim.statement ⟨5⟩ (Claim.stringDatavalue "Ada")])

def clubWithAda : Store :=
  ⟨club.entities ++ [("Q2", firstMember.get "labels")], club.claims ++
    [⟨⟨"Q2$a", some (Claim.itemDatavalue ⟨1⟩)⟩, "Q2", ⟨1⟩⟩, ⟨⟨"Q2$b", some (Claim.stringDatavalue "club")⟩, "Q2", ⟨3⟩⟩,
      ⟨⟨"Q2$c", some (Claim.stringDatavalue "Ada")⟩, "Q2", ⟨5⟩⟩]⟩

def clubWithMentor : Store :=
  { clubWithAda with
    claims := clubWithAda.claims ++ [⟨⟨"Q2$d", some (stored (Claim.itemValue ⟨7⟩))⟩, "Q2", ⟨6⟩⟩] }

def clubWithoutAda : Store :=
  { clubWithMentor with claims := clubWithMentor.claims ++ [⟨⟨"Q2$e", some (stored (.string "club"))⟩, "Q2", ⟨4⟩⟩] }

def adaCalls : List RowCall :=
  [.create "Member" [("name", .text "Ada")], .update "Member" "Q2" [("mentor", .reference "Q7")], .delete "Q2"]

def signedEdit (ps : Parameters) (body : Json) : Exchange :=
  ⟨.post (Client.signed (.issued "bot") ps), .ok body⟩

def adaExchanges : List Exchange :=
  [signedEdit (Client.createEntityParameters .item firstMember) (madeBody "Q2"),
    ⟨.get (claimsParameters "Q2"), .ok (clubWithAda.shown "Q2")⟩,
    signedEdit (Client.createClaimParameters "Q2" "P6" (Claim.itemValue ⟨7⟩)) doneBody,
    ⟨.get (claimsParameters "Q2"), .ok (clubWithMentor.shown "Q2")⟩,
    signedEdit (Client.createClaimParameters "Q2" "P4" (.string "club")) doneBody]

def adaReplies : Conversation :=
  .start [.document (madeBody "Q2"), .document (clubWithAda.shown "Q2"), .document doneBody,
    .document (clubWithMentor.shown "Q2"), .document doneBody] 0 "0"

theorem adaCalls_goes : (memberTables.performAll adaCalls).Goes memberMappings (.loggedIn "bot") adaExchanges (.ok ())
    memberMappings (.loggedIn "bot") :=
  Dialogue.goes_followed (((memberTables.performAll adaCalls).run.run memberMappings).run (.loggedIn "bot")) adaReplies

theorem adaExchanges_passes : (World.storing memberRegistered).Passes club adaExchanges clubWithoutAda := by
  have hmade : club.Step memberRegistered (.make "item" firstMember) clubWithAda (madeBody "Q2") :=
    .make (by decide) (fun _ => ⟨⟨2⟩, rfl⟩) (fun h => absurd h (by decide)) ⟨by decide, by decide, by decide⟩ (by decide)
      rfl rfl
  have hmentor : clubWithAda.Step memberRegistered (.addClaim "Q2" ⟨6⟩ (Claim.itemValue ⟨7⟩)) clubWithMentor doneBody :=
    .addClaim (by decide) ⟨by decide, by decide, by decide⟩
  have hdeleted : clubWithMentor.Step memberRegistered (.addClaim "Q2" ⟨4⟩ (.string "club")) clubWithoutAda doneBody :=
    .addClaim (by decide) ⟨by decide, by decide, by decide⟩
  refine .cons (storing_applied (StoreEdit.ofParameters?_createEntity _ _ _) hmade rfl) ?_
  refine .cons (storing_shows _ _ _) ?_
  refine .cons (storing_applied (StoreEdit.ofParameters?_createClaim _ _ ⟨6⟩ _) hmentor rfl) ?_
  refine .cons (storing_shows _ _ _) ?_
  exact .cons (storing_applied (StoreEdit.ofParameters?_createClaim _ _ ⟨4⟩ _) hdeleted rfl) (.nil _)

theorem distinguishes_member : memberTables.Distinguishes (memberTables.fieldProperty memberRegistered) := by
  have hdeclared : ∀ f, memberTables.schema.Effective f → f ∈ Schema.declared memberModel := by
    intro f hf
    obtain ⟨m, hm, hfm⟩ := hf.declared
    obtain rfl := List.mem_singleton.1 hm
    exact hfm
  refine ⟨fun f g hf hg => ?_, fun f hf => ?_, by decide⟩
  · have hall : ∀ f ∈ Schema.declared memberModel, ∀ g ∈ Schema.declared memberModel,
        memberTables.fieldProperty memberRegistered f.key = memberTables.fieldProperty memberRegistered g.key →
          f.key = g.key := by decide
    exact hall f (hdeclared f hf) g (hdeclared g hg)
  · have hall : ∀ f ∈ Schema.declared memberModel, memberTables.fieldProperty memberRegistered f.key ∉
        [memberTables.reserved.instanceOf, memberTables.reserved.subclassOf, memberTables.reserved.tag,
          memberTables.reserved.deleted] := by decide
    exact hall f (hdeclared f hf)

theorem rows_in_order_member :
    Schema.ofModels [memberModel] = .ok memberTables.schema ∧ memberTables.hardDelete = false ∧
      memberTables.Distinguishes (memberTables.fieldProperty memberRegistered) ∧
      memberTables.Knows memberRegistered memberMappings ∧ club.WellKept ∧
      (memberTables.performAll adaCalls).Goes memberMappings (.loggedIn "bot") adaExchanges (.ok ()) memberMappings
        (.loggedIn "bot") ∧
      (World.storing memberRegistered).Passes club adaExchanges clubWithoutAda ∧
      memberTables.RowInOrder (memberTables.fieldProperty memberRegistered) "Member" (Schema.declared memberModel) ⟨2⟩
        clubWithoutAda := by
  have hschema : Schema.ofModels [memberModel] = .ok memberTables.schema := rfl
  have hentries : ∀ e ∈ memberMappings.fields, memberTables.fieldProperty memberRegistered e.1 = e.2 := by decide +kernel
  have hknown : memberTables.Knows memberRegistered memberMappings := fun k p h => hentries (k, p) (Keyed.mem_of_lookup h)
  have hkept : club.WellKept := ⟨by decide, by decide, by decide⟩
  have hrows := rows_in_order memberTables hschema rfl memberRegistered distinguishes_member hknown (.loggedIn "bot")
    hkept adaCalls
  have hinorder := (Action.Ensures.passes hrows (still_storing memberRegistered) adaCalls_goes adaExchanges_passes).2
  have hentity : ("Q2", firstMember.get "labels") ∈ clubWithoutAda.entities := List.mem_append_right _ List.mem_cons_self
  exact ⟨hschema, rfl, distinguishes_member, hknown, hkept, adaCalls_goes, adaExchanges_passes,
    hinorder ⟨2⟩ "Member" "0" _ rfl hentity (by decide)⟩

end Scripted

end Tables

end ClaimTables
