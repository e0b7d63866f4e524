import ClaimTables.Proofs.Row.Encodable
import ClaimTables.Proofs.Tables.Accounting

/-!
When a caller is told that the input is wrong. Main statement: a row is refused exactly if its values have a fault, and
then before anything is sent; what comes later can be encoded and asked for, and refuses no value any more.
-/

namespace ClaimTables

/-- The errors by which a caller is told that the input is wrong: those for a row, and that for a query. -/
def Error.OfInput : Error → Prop
  | .unsupportedQuery _ _ _ => True
  | e => e.OfRow

theorem Error.OfStore.not_ofInput {e : Error} (h : e.OfStore) : ¬e.OfInput := by
  cases e <;> first | exact id | exact h.elim

theorem Schema.Chain.ne_nil {s : Schema} {name : String} {chain : List Model} (h : s.Chain name chain) : chain ≠ [] := by
  cases h <;> simp

namespace Tables

open Tables.Action

theorem ofExcept_bind {α β : Type} {r : Except Error α} {a : α} (h : r = .ok a) (f : α → Action β) :
    Action.ofExcept r >>= f = f a := by
  rw [h]
  exact pure_bind a f

/-! Past the checks of the values nothing refuses them any more. -/

section Passing

variable {t : Tables} {E : Error → Prop} {model : String} (hE : ∀ e, ¬e.OfInput → E e)

include hE

theorem passes_propertyOf (f : ResolvedField) : (t.propertyOf f).Fails E :=
  fails_propertyOf (fun e he => hE e he.not_ofInput) f

theorem passes_propertiesOf (fields : List ResolvedField) : (t.propertiesOf fields).Fails E := by
  induction fields with
  | nil => exact fails_pure _
  | cons f rest ih => exact (passes_propertyOf hE f).bind fun p => ih.bind fun ps => fails_pure _

theorem passes_changesOf (values : CheckedValues) : (t.changesOf values).Fails E := by
  induction values with
  | nil => exact fails_pure _
  | cons e rest ih => exact (passes_propertyOf hE e.1).bind fun p => ih.bind fun changes => fails_pure _

theorem passes_valueStatements (model : String) {values : CheckedValues}
    (hvalues : ∀ e ∈ values, e.2.isNull = false → Encodable t.schema e.1 e.2) :
    (t.valueStatements model values).Fails E := by
  induction values with
  | nil => exact fails_pure _
  | cons e rest ih =>
    obtain ⟨f, v⟩ := e
    rw [List.forall_mem_cons] at hvalues
    rw [valueStatements]
    split
    · exact ih hvalues.2
    · next hnull =>
      refine (passes_propertyOf hE f).bind fun p => ?_
      obtain ⟨statement, hstatement⟩ := (hvalues.1 (Bool.not_eq_true _ ▸ hnull)).statement model p
      rw [hstatement]
      exact (fails_pure statement).bind fun statement => (ih hvalues.2).bind fun statements => fails_pure _

theorem passes_typeAlong {α : Type} {k : Option ItemId → Action α} (hk : ∀ i, (k (some i)).Fails E) {chain : List Model}
    {parent : Option ItemId} (h : parent.isSome ∨ chain ≠ []) : (t.typeAlong parent chain >>= k).Fails E := by
  induction chain generalizing parent with
  | nil =>
    obtain ⟨i, rfl⟩ := Option.isSome_iff_exists.1 (h.resolve_right fun hne => hne rfl)
    rw [typeAlong, pure_bind]
    exact hk i
  | cons m rest ih =>
    rw [typeAlong, bind_assoc]
    exact (fails_typeBelow (fun e he => hE e he.not_ofInput) m.name parent).bind fun i => ih (.inl rfl)

theorem passes_typeItem {chain : List Model} (hchain : t.schema.Chain model chain) : (t.typeItem model).Fails E := by
  rw [typeItem, ofExcept_bind (Schema.ancestry_eq_ok.2 hchain)]
  exact passes_typeAlong hE fails_pure (.inr hchain.ne_nil)

theorem passes_rowTypes {models : List Model} (hschema : Schema.ofModels models = .ok t.schema)
    (hmodel : ∃ chain, t.schema.Chain model chain) : (t.rowTypes model).Fails E := by
  have hitems (names : List String) (hnames : ∀ name ∈ names, ∃ chain, t.schema.Chain name chain) :
      (t.typeItems names).Fails E := by
    induction names with
    | nil => exact fails_pure _
    | cons name rest ih =>
      obtain ⟨⟨chain, hchain⟩, hrest⟩ := List.forall_mem_cons.1 hnames
      exact (passes_typeItem hE hchain).bind fun i => (ih hrest).bind fun is => fails_pure _
  refine (hitems _ (List.forall_mem_cons.2 ⟨hmodel, fun name hname => ?_⟩)).bind fun items => fails_pure _
  obtain ⟨m, hm, rfl⟩ := List.mem_map.1 hname
  exact (Schema.valid_of_ofModels hschema).exists_chain
    ((Schema.mem_descendants (Schema.nodup_of_ofModels hschema)).1 hm).1

theorem passes_ownedClaims (id : String) (htypes : (t.rowTypes model).Fails E) : (t.ownedClaims model id).Fails E := by
  rw [ownedClaims_eq]
  refine (fails_ofClient (Client.fails_getClaims (fun e he => hE e he.not_ofInput) t.client id)).bind fun found => ?_
  cases found with
  | none => exact fails_throw (hE _ fun h => h)
  | some claims =>
    refine fails_check (hE _ ?_) (fails_check (hE _ ?_) (htypes.bind fun allowed => ?_))
    · exact fun h => h
    · exact fun h => h
    · exact fails_check (hE _ fun h => h) (fails_pure claims)

theorem passes_holders {f : ResolvedField} {v : Value} (hv : Encodable t.schema f v) : (t.holders f v).Fails E := by
  obtain ⟨fields, outline, hfields, houtline⟩ := hv.lookup
  obtain ⟨chain, hchain, -⟩ := Schema.fields_eq_ok.1 hfields
  have hselect : (t.select f.declaredBy (.havingValue f.field.name v) false).Fails E := by
    rw [select, ofExcept_bind hfields]
    refine (passes_typeItem hE hchain).bind fun type => (passes_propertiesOf hE _).bind fun ps => ?_
    rw [ofExcept_bind houtline]
    exact fails_pure _
  rw [holders, rowsText, map_eq_pure_bind, bind_assoc]
  refine hselect.bind fun select => ?_
  rw [pure_bind, map_eq_pure_bind]
  exact (fails_ofClient (Client.fails_query t.client _)).bind fun _ => fails_pure _

theorem passes_checkUnique (own : Option String) {values : CheckedValues}
    (hvalues : ∀ e ∈ values, e.2.isNull = false → Encodable t.schema e.1 e.2) : (t.checkUnique own values).Fails E := by
  have hholders (values : CheckedValues) (hvalues : ∀ e ∈ values, Encodable t.schema e.1 e.2) :
      (t.checkHolders own values).Fails E := by
    induction values with
    | nil => exact fails_pure _
    | cons e rest ih =>
      obtain ⟨f, v⟩ := e
      rw [List.forall_mem_cons] at hvalues
      refine (passes_holders hE hvalues.1).bind fun items => ?_
      split
      · exact fails_throw (hE _ fun h => h)
      · exact ih hvalues.2
  refine hholders _ fun e he => ?_
  obtain ⟨hmem, hunique⟩ := List.mem_filter.1 he
  simp only [Bool.and_eq_true, Bool.not_eq_true'] at hunique
  exact hvalues e hmem hunique.2

theorem passes_insert {values : CheckedValues} (hmodel : ∃ chain, t.schema.Chain model chain)
    (hvalues : ∀ e ∈ values, e.2.isNull = false → Encodable t.schema e.1 e.2) : (t.insert model values).Fails E := by
  obtain ⟨chain, hchain⟩ := hmodel
  have hname : freshName.Fails E := fun _ _ _ _ => failsAs_ok _
  refine (passes_typeItem hE hchain).bind fun type => (passes_valueStatements hE model hvalues).bind fun statements => ?_
  exact hname.bind fun name => fails_ofClient (Client.fails_createEntity (fun e he => hE e he.not_ofInput) t.client _ _)

theorem passes_applyChange (c : Client) (model id : String) (claims : ClaimSet) {change : Change} {edits : List ClaimEdit}
    (hplan : ClaimEdit.plan change.field.field.type change.value (claims.get change.property) = .ok edits) :
    (applyChange c model id claims change).Fails E := by
  simp only [applyChange, hplan]
  exact (fails_sendEdits (fun e he => hE e he.not_ofInput) c id _ edits).bind fun _ => Client.Action.fails_pure _

theorem Attempted.failsAs {c : Client} {id : String} {claims : ClaimSet} {changes : List Change} {s s' : Session}
    {exchanged : List Exchange} {results : List (String × Except Error Bool)}
    (h : Attempted c model id claims changes s exchanged results s')
    (hplan : ∀ change ∈ changes, ∀ stored, ∃ edits, ClaimEdit.plan change.field.field.type change.value stored = .ok edits)
    (hall : ∀ y ∈ exchanged, FailsAs E y.reply) : ∀ a ∈ results, FailsAs E a.2 := by
  induction h with
  | nil => exact List.forall_mem_nil _
  | @cons change rest _ _ _ first more r results hgoes _ ih =>
    rw [List.forall_mem_cons] at hplan
    obtain ⟨hfirst, hmore⟩ := List.forall_mem_append.1 hall
    obtain ⟨edits, hedits⟩ := hplan.1 (claims.get change.property)
    exact List.forall_mem_cons.2 ⟨(passes_applyChange hE c model id claims hedits).goes hgoes hfirst, ih hplan.2 hmore⟩

theorem failsAs_updateResult (id : String) {results : List (String × Except Error Bool)}
    (h : ∀ a ∈ results, FailsAs E a.2) : FailsAs E (updateResult id results) := by
  intro e he
  rcases updateResult_error he with ⟨-, name, hname⟩ | ⟨-, failed, -, rfl⟩
  · exact h _ (mem_failures.1 hname) e rfl
  · exact hE _ fun h => h

variable {models : List Model} (hschema : Schema.ofModels models = .ok t.schema) {values : Values} {checked : CheckedValues}

include hschema

theorem passes_create (hvalid : values.validate t.schema model true = .ok checked) : (t.create model values).Fails E := by
  have hvalues := encodable_of_validate (Schema.valid_of_ofModels hschema) hvalid
  obtain ⟨fields, hfields, -⟩ := Values.validate_eq_ok hvalid
  obtain ⟨chain, hchain, -⟩ := Schema.fields_eq_ok.1 hfields
  rw [create, prepare, ofExcept_bind hvalid, bind_assoc]
  refine (passes_checkUnique hE none hvalues).bind fun _ => ?_
  rw [pure_bind]
  exact passes_insert hE ⟨chain, hchain⟩ hvalues

theorem passes_changesFor (id : String) (hvalid : values.validate t.schema model false = .ok checked) :
    (t.changesFor model id values).Fails E := by
  have hvalues := encodable_of_validate (Schema.valid_of_ofModels hschema) hvalid
  obtain ⟨fields, hfields, -⟩ := Values.validate_eq_ok hvalid
  obtain ⟨chain, hchain, -⟩ := Schema.fields_eq_ok.1 hfields
  rw [changesFor, ofExcept_bind hvalid]
  refine (passes_ownedClaims hE id (passes_rowTypes hE hschema ⟨chain, hchain⟩)).bind fun claims => ?_
  refine (passes_checkUnique hE (some id) hvalues).bind fun _ => ?_
  exact (passes_changesOf hE checked).bind fun changes => fails_pure _

theorem update_passes {id : String} (hvalid : values.validate t.schema model false = .ok checked) {m m' : Mappings}
    {s s' : Session} {exchanged : List Exchange} {r : Except Error (List String)}
    (h : (t.update model id values).Goes m s exchanged r m' s') (hall : ∀ y ∈ exchanged, FailsAs E y.reply) :
    FailsAs E r := by
  rcases update_goes h with ⟨e, hfailed, rfl⟩ | ⟨claims, changes, s₁, before, after, results, hfound, hattempted, rfl, rfl⟩
  · exact failsAs_error ((passes_changesFor hE hschema id hvalid).goes hfailed hall e rfl)
  · obtain ⟨_, hchecked, rfl, -⟩ := (Ensures.goes (t.gains_changesFor model id values) hfound).2 _ rfl
    refine failsAs_updateResult hE id (hattempted.failsAs hE (fun change hchange stored => ?_) fun y hy => ?_)
    · have hmem := List.mem_map_of_mem (f := fun change : Change => (change.field, change.value)) hchange
      exact exists_plan_of_allowed (Values.given_of_validate hchecked hmem).2.2 stored
    · exact hall y (List.mem_append_right _ hy)

end Passing

/--
How values are refused: if they have a fault, at once and with an error that tells of one; and with an error that the
input is wrong only then, unless it is that of a request.
-/
structure Refuses {α : Type} (s : Schema) (model : String) (values : Values) (creating : Bool) (r : Except Error α)
    (trace : List Exchange) : Prop where
  at_once : (∃ e, Values.Fault s model values creating e) → trace = [] ∧ ∃ e, r = .error e ∧
    Values.Fault s model values creating e
  only : ∀ e, r = .error e → e.OfInput → Values.Fault s model values creating e ∨ ∃ x ∈ trace, x.reply = .error e

section Refusing

variable {t : Tables} {model : String} {values : Values} {creating : Bool}

theorem refuses_of_error {α : Type} {s : Schema} (hs : s.Valid) {e : Error}
    (h : values.validate s model creating = .error e) :
    Refuses s model values creating (.error e : Except Error α) [] :=
  ⟨fun _ => ⟨rfl, e, rfl, Values.fault_of_validate hs h⟩,
    fun _ he _ => .inl (Except.error.inj he ▸ Values.fault_of_validate hs h)⟩

theorem refuses_of_passes {α : Type} {s : Schema} {checked : CheckedValues} {r : Except Error α} {trace : List Exchange}
    (hvalid : values.validate s model creating = .ok checked)
    (h : ∀ E : Error → Prop, (∀ e, ¬e.OfInput → E e) → (∀ x ∈ trace, FailsAs E x.reply) → FailsAs E r) :
    Refuses s model values creating r trace := by
  refine ⟨fun ⟨e, hfault⟩ => absurd hvalid hfault.not_ok, fun e he hinput => .inr ?_⟩
  -- Otherwise no request failed with this very error, and then it is not the result either.
  by_contra hnone
  push Not at hnone
  refine h (· ≠ e) (fun e' he' heq => he' (heq ▸ hinput)) (fun x hx e' hreply heq => ?_) e he rfl
  exact hnone x hx (heq ▸ hreply)

end Refusing

/--
The checks of values are complete. Making and changing a row refuse values exactly if these have a fault, and then before
anything is sent, unless a request itself fails with such an error. Whatever passes can be encoded, as a claim and as a
statement, and rows with it can be asked for.
-/
theorem values_refused (t : Tables) {models : List Model} (hschema : Schema.ofModels models = .ok t.schema)
    (model : String) (values : Values) :
    (∀ m s, (t.create model values).Ensures .noting m s [] fun r _ _ trace =>
      Refuses t.schema model values true r trace) ∧
    (∀ id m s, (t.update model id values).Ensures .noting m s [] fun r _ _ trace =>
      Refuses t.schema model values false r trace) ∧
    ∀ creating checked, values.validate t.schema model creating = .ok checked → ∀ e ∈ checked,
      (∀ stored, ∃ edits, ClaimEdit.plan e.1.field.type e.2 stored = .ok edits) ∧
      (e.2.isNull = false → Encodable t.schema e.1 e.2) := by
  have hs := Schema.valid_of_ofModels hschema
  refine ⟨fun m s => ?_, fun id m s => ?_, fun creating checked hvalid e he => ?_⟩
  · cases hvalid : values.validate t.schema model true with
    | error e =>
      rw [create, prepare, hvalid]
      exact refuses_of_error hs hvalid
    | ok checked =>
      refine ensures_of_goes fun trace r m' s' hgoes => refuses_of_passes hvalid fun E hE hall => ?_
      exact (passes_create hE hschema hvalid).goes hgoes hall
  · cases hvalid : values.validate t.schema model false with
    | error e =>
      rw [update, hvalid]
      exact refuses_of_error hs hvalid
    | ok checked =>
      refine ensures_of_goes fun trace r m' s' hgoes => refuses_of_passes hvalid fun E hE hall => ?_
      exact update_passes hE hschema hvalid hgoes hall
  · exact ⟨exists_plan_of_allowed (Values.given_of_validate hvalid he).2.2, encodable_of_validate hs hvalid e he⟩

@[irreducible]
def ageless : Values := [("age", .number .nan)]

theorem values_refused_ageless : Schema.ofModels namedAndAged.schema.models = .ok namedAndAged.schema ∧
    (∀ m s, (namedAndAged.create "Person" ageless).Ensures .noting m s [] fun r _ _ trace =>
      Refuses namedAndAged.schema "Person" ageless true r trace) ∧
    (∀ id m s, (namedAndAged.update "Person" id ageless).Ensures .noting m s [] fun r _ _ trace =>
      Refuses namedAndAged.schema "Person" ageless false r trace) ∧
    ∀ creating checked, ageless.validate namedAndAged.schema "Person" creating = .ok checked → ∀ e ∈ checked,
      (∀ stored, ∃ edits, ClaimEdit.plan e.1.field.type e.2 stored = .ok edits) ∧
      (e.2.isNull = false → Encodable namedAndAged.schema e.1 e.2) := by
  have hschema : Schema.ofModels namedAndAged.schema.models = .ok namedAndAged.schema := rfl
  exact ⟨hschema, values_refused namedAndAged hschema "Person" ageless⟩

end Tables

end ClaimTables
