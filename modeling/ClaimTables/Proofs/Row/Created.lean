import ClaimTables.Proofs.Row.Checked
import ClaimTables.Proofs.Service.Export
import ClaimTables.Tables.Writing

/-!
A row that was made is read back. What an item is made of says the type of the row, its namespace and the value
of each field that has one; shown by the query service this gives the values the row was made of.
-/

namespace ClaimTables

open Sparql (Solution Solutions Variable)

theorem lookup_filterMap {α κ β : Type} [BEq κ] [LawfulBEq κ] {l : List α} {k : α → κ} {g : α → Option β} {a : α}
    (hkey : ∀ b ∈ l, k b = k a → g b = g a) (ha : a ∈ l ∨ g a = none) :
    (l.filterMap fun b => (g b).map fun x => (k b, x)).lookup (k a) = g a := by
  induction l with
  | nil => exact (ha.resolve_left List.not_mem_nil).symm
  | cons b rest ih =>
    have hrest : ∀ c ∈ rest, k c = k a → g c = g a := fun c hc => hkey c (List.mem_cons_of_mem _ hc)
    rw [List.filterMap_cons]
    by_cases hb : k b = k a
    · have hg := hkey b List.mem_cons_self hb
      cases hga : g a with
      | none =>
        rw [hg, hga]
        exact (ih hrest (.inr hga)).trans hga
      | some x =>
        rw [hg, hga, hb]
        exact List.lookup_cons_self
    · have ha' : a ∈ rest ∨ g a = none := by
        refine ha.imp_left fun hmem => (List.mem_cons.1 hmem).resolve_left ?_
        rintro rfl
        exact hb rfl
      cases hgb : g b with
      | none => exact ih hrest ha'
      | some x =>
        refine Eq.trans ?_ (ih hrest ha')
        rw [Option.map_some, List.lookup_cons, beq_eq_false_iff_ne.2 (Ne.symm hb)]

namespace RowStream

theorem cells_eq_ok {solution : Solution} {fields : List Field} {values : List (String × Value)} :
    cells solution fields = .ok values ↔
      List.Forall₂ (fun f e => e.1 = f.name ∧ cell f solution = .ok e.2) fields values := by
  induction fields generalizing values with
  | nil => simp [cells, eq_comm]
  | cons f rest ih =>
    rw [cells, List.forall₂_cons_left_iff]
    cases hcell : cell f solution with
    | error reason =>
      refine iff_of_false (fun h => nomatch h) ?_
      rintro ⟨e, _, ⟨-, h⟩, -⟩
      exact nomatch h
    | ok v =>
      constructor
      · intro h
        cases hrest : cells solution rest with
        | error reason =>
          rw [hrest] at h
          exact nomatch h
        | ok later =>
          rw [hrest] at h
          exact ⟨(f.name, v), later, ⟨rfl, rfl⟩, ih.1 hrest, (Except.ok.inj h).symm⟩
      · rintro ⟨⟨name, w⟩, later, ⟨rfl, hw⟩, hlater, rfl⟩
        obtain rfl := Except.ok.inj hw
        dsimp only
        rw [ih.2 hlater]
        rfl

theorem toList_ofSolutions {s : Schema} {model : String} {fields : List ResolvedField} {answer : Solutions}
    {solution : Solution} {item : ItemId} {v : Field → Value} (hfields : s.fields model = .ok fields)
    (hanswer : answer.solutions = [solution]) (hitem : itemOf model solution = .ok item)
    (h : ∀ f ∈ fields, cell f.field solution = .ok (v f.field)) :
    (ofSolutions s model answer).map toList =
      .ok [.ok ⟨item.text, fields.map fun f => (f.field.name, v f.field)⟩] := by
  have hcells : cells solution (fields.map (·.field)) =
      .ok ((fields.map (·.field)).map fun f => (f.name, v f)) := by
    refine cells_eq_ok.2 (List.forall₂_map_right_iff.2 (List.forall₂_same.2 fun f hf => ⟨rfl, ?_⟩))
    obtain ⟨r, hr, rfl⟩ := List.mem_map.1 hf
    exact h r hr
  rw [List.map_map] at hcells
  have hrow : rowOf ⟨model, fields.map (·.field), [solution], []⟩ solution item =
      .ok ⟨item.text, fields.map fun f => (f.field.name, v f.field)⟩ := by
    unfold rowOf
    rw [hcells]
    rfl
  have hlist : toList ⟨model, fields.map (·.field), [solution], []⟩ =
      [.ok ⟨item.text, fields.map fun f => (f.field.name, v f.field)⟩] := by
    simp only [toList, List.length_cons, List.length_nil, take, next?, hitem, hrow]
  unfold ofSolutions
  rw [hfields, hanswer]
  exact congrArg Except.ok hlist

end RowStream

namespace Tables

open Tables.Action

def rowData (t : Tables) (model : String) (values : CheckedValues) : Action Json := do
  let type ← t.typeItem model
  let statements ← t.valueStatements model values
  let name ← freshName
  pure (t.client.itemData (t.space.rowLabel model name) (t.rowStatements type ++ statements))

theorem insert_eq (t : Tables) (model : String) (values : CheckedValues) :
    t.insert model values = t.rowData model values >>= fun data => ofClient (t.client.createEntity .item data) := by
  simp only [insert, rowData, bind_assoc, pure_bind]
  rfl

def statementsOf (property : FieldKey → PropertyId) (values : CheckedValues) : List Json :=
  values.filterMap fun e => (Claim.datavalue e.2).toOption.map (Claim.statement (property e.1.key))

variable {W : Type} {world : World W} {m : Mappings} {s : Session} {w : W}

def FieldStatement (m : Mappings) (j : Json) : Prop :=
  ∃ key p datavalue, m.fields.lookup key = some p ∧ j = Claim.statement p datavalue

theorem gains_valueStatements (t : Tables) (model : String) (values : CheckedValues) :
    (t.valueStatements model values).Gains world m s w fun statements m' => (∀ j ∈ statements, FieldStatement m' j) ∧
      ∀ property : FieldKey → PropertyId, (∀ k p, m'.fields.lookup k = some p → property k = p) →
        statements = statementsOf property values := by
  induction values generalizing m s w with
  | nil => exact .of_pure ⟨by simp, fun _ _ => rfl⟩
  | cons e rest ih =>
    obtain ⟨f, v⟩ := e
    rw [valueStatements]
    split
    · next hnull =>
      -- Null is not stored, so it has no statement.
      refine ih.mono fun statements m' _ hstatements => ⟨hstatements.1, fun property hproperty => ?_⟩
      rw [hstatements.2 property hproperty]
      obtain rfl := Value.eq_null_of_isNull hnull
      rfl
    · refine (t.gains_propertyOf f).bind fun p m₁ s₁ w₁ _ hp => ?_
      refine (Action.Gains.of_except _).bind fun statement m₂ s₂ w₂ _ hstatement => ?_
      obtain ⟨hstatement, rfl⟩ := hstatement
      refine ih.bind fun statements m₃ s₃ w₃ hwithin hstatements => ?_
      unfold valueStatement at hstatement
      split at hstatement
      · next stored hstored =>
        obtain rfl := Except.ok.inj hstatement
        have hknown := hwithin.fields _ _ hp.1
        refine .of_pure ⟨List.forall_mem_cons.2 ⟨⟨f.key, p, stored, hknown, rfl⟩, hstatements.1⟩, fun property hproperty => ?_⟩
        rw [hstatements.2 property hproperty, statementsOf, statementsOf, List.filterMap_cons, hstored, hproperty _ _ hknown]
        rfl
      · exact nomatch hstatement

theorem gains_rowItem (t : Tables) (model : String) (values : CheckedValues) :
    (t.rowData model values).Gains world m s w fun data m' => ∃ name type statements, m'.types.lookup model = some type ∧
      data = t.client.itemData (t.space.rowLabel model name) (t.rowStatements type ++ statements) ∧
      (∀ j ∈ statements, FieldStatement m' j) ∧
      ∀ property : FieldKey → PropertyId, (∀ k p, m'.fields.lookup k = some p → property k = p) →
        statements = statementsOf property values := by
  refine (t.gains_typeItem model).bind fun type m₁ s₁ w₁ _ htype => ?_
  refine (t.gains_valueStatements model values).bind fun statements m₂ s₂ w₂ hwithin hstatements => ?_
  refine gains_freshName.bind fun name m₃ s₃ w₃ _ hm => ?_
  obtain rfl := hm
  exact .of_pure ⟨name, type, statements, hwithin.types _ _ htype, rfl, hstatements⟩

theorem gains_rowData (t : Tables) (model : String) (values : CheckedValues) :
    (t.rowData model values).Gains world m s w fun data m' =>
      ∀ property : FieldKey → PropertyId, (∀ k p, m'.fields.lookup k = some p → property k = p) →
        ∃ name type, data = t.client.itemData (t.space.rowLabel model name)
          (t.rowStatements type ++ statementsOf property values) := by
  refine (t.gains_rowItem model values).mono fun data m' _ h property hproperty => ?_
  obtain ⟨name, type, statements, -, hdata, -, hstatements⟩ := h
  exact ⟨name, type, hstatements property hproperty ▸ hdata⟩

theorem facts_of_statements (c : Client) (label : String) (statements : List Json) :
    Export.facts (c.itemData label statements) = statements.filterMap Export.fact? := by
  have hclaims : (c.itemData label statements).get "claims" = .array statements := by
    simp [Client.itemData, Json.get_ofEntries]
  rw [Export.facts, hclaims, Json.items]

theorem facts_rowStatements (t : Tables) (label : String) (type : ItemId) (statements : List Json) :
    Export.facts (t.client.itemData label (t.rowStatements type ++ statements)) =
      (t.reserved.instanceOf, Claim.itemDatavalue type) :: (t.reserved.tag, Claim.stringDatavalue t.space.tag) ::
        statements.filterMap Export.fact? := by
  rw [facts_of_statements]
  simp only [rowStatements, List.cons_append, List.nil_append, List.filterMap_cons, Export.fact?_statement]

theorem facts_itemData (t : Tables) (label : String) (type : ItemId) (property : FieldKey → PropertyId)
    (values : CheckedValues) :
    Export.facts (t.client.itemData label (t.rowStatements type ++ statementsOf property values)) =
      (t.reserved.instanceOf, Claim.itemDatavalue type) :: (t.reserved.tag, Claim.stringDatavalue t.space.tag) ::
        values.filterMap fun e => (Claim.datavalue e.2).toOption.map fun stored => (property e.1.key, stored) := by
  rw [facts_rowStatements, statementsOf, List.filterMap_filterMap]
  congr 2
  refine List.filterMap_congr fun e _ => ?_
  cases Claim.datavalue e.2 with
  | error why => rfl
  | ok stored => exact Export.fact?_statement _ _

/-- That properties tell the fields of a model apart, and from what makes an item a row. -/
structure Registers (t : Tables) (fields : List ResolvedField) (property : FieldKey → PropertyId) : Prop where
  injective : ∀ f ∈ fields, ∀ g ∈ fields, property f.key = property g.key → f.key = g.key
  not_instanceOf : ∀ f ∈ fields, property f.key ≠ t.reserved.instanceOf
  not_tag : ∀ f ∈ fields, property f.key ≠ t.reserved.tag

theorem name_eq_of_key_eq {f g : ResolvedField} (h : f.key = g.key) : f.field.name = g.field.name :=
  congrArg FieldKey.field h

theorem storedOf_checked {fields : List ResolvedField} {property : FieldKey → PropertyId} {values : Values}
    {checked : CheckedValues}
    (hchecked : checked = fields.filterMap fun f => (values.given f).map fun v => (f, v)) :
    (checked.filterMap fun e => (Claim.datavalue e.2).toOption.map fun stored => (property e.1.key, stored)) =
      fields.filterMap fun f =>
        ((values.given f).bind fun v => (Claim.datavalue v).toOption).map fun stored => (property f.key, stored) := by
  rw [hchecked, List.filterMap_filterMap]
  refine List.filterMap_congr fun f _ => ?_
  cases values.given f <;> rfl

theorem lookup_facts {t : Tables} {fields : List ResolvedField} {property : FieldKey → PropertyId}
    (hproperty : t.Registers fields property) {values : Values} {checked : CheckedValues}
    (hchecked : checked = fields.filterMap fun f => (values.given f).map fun v => (f, v)) (label : String)
    (type : ItemId) {f : ResolvedField} (hf : f ∈ fields) :
    (Export.facts (t.client.itemData label (t.rowStatements type ++ statementsOf property checked))).lookup
        (property f.key) = (values.given f).bind fun v => (Claim.datavalue v).toOption := by
  rw [facts_itemData, List.lookup_cons, beq_eq_false_iff_ne.2 (hproperty.not_instanceOf f hf), List.lookup_cons,
    beq_eq_false_iff_ne.2 (hproperty.not_tag f hf), storedOf_checked hchecked]
  refine lookup_filterMap (k := fun f : ResolvedField => property f.key) (fun g hg hkey => ?_) (.inl hf)
  have hname := name_eq_of_key_eq (hproperty.injective g hg f hf hkey)
  rw [Values.given, Values.given, hname]

theorem variable_name_inj {a b : String} (h : (Variable.field a).name = (Variable.field b).name) : a = b :=
  (String.append_right_inj "f_").1 h

theorem lookup_solution {base : String} {property : FieldKey → PropertyId} {fields : List ResolvedField}
    {item : ItemId} {facts : List (PropertyId × Json)} (hnodup : (fields.map (·.field.name)).Nodup)
    {f : ResolvedField} (hf : f ∈ fields) :
    (Export.solution base property fields item facts).lookup (Variable.field f.field.name).name =
      (facts.lookup (property f.key)).bind (Export.binding? base) := by
  have hne : (Variable.field f.field.name).name ≠ Variable.item.name := by
    intro h
    have hchars := congrArg String.toList h
    simp [Variable.name] at hchars
  rw [Export.solution, List.lookup_cons, beq_eq_false_iff_ne.2 hne]
  refine lookup_filterMap (k := fun f : ResolvedField => (Variable.field f.field.name).name) (fun g hg hkey => ?_)
    (.inl hf)
  rw [List.inj_on_of_nodup_map hnodup hg hf (variable_name_inj hkey)]

theorem cell_of_given (base : String) {solution : Solution} {values : Values} {f : ResolvedField}
    (hallowed : match values.given f with
      | some v => Values.Allowed f v
      | none => true = true → f.field.nullable = true)
    (hlookup : solution.lookup (Variable.field f.field.name).name =
      ((values.given f).bind fun v => (Claim.datavalue v).toOption).bind (Export.binding? base)) :
    RowStream.cell f.field solution = .ok ((values.given f).getD .null).canonical := by
  have habsent : f.field.nullable = true → solution.lookup (Variable.field f.field.name).name = none →
      RowStream.cell f.field solution = .ok .null := by
    intro hnullable hnone
    rw [RowStream.cell, hnone]
    exact if_pos hnullable
  cases hgiven : values.given f with
  | none =>
    rw [hgiven] at hallowed hlookup
    exact habsent (hallowed rfl) hlookup
  | some v =>
    rw [hgiven] at hallowed hlookup
    rcases hallowed with ⟨hnull, hnullable⟩ | ⟨hfits, stored, hstored⟩
    · obtain rfl := Value.eq_null_of_isNull hnull
      exact habsent hnullable hlookup
    · obtain ⟨b, hb, hdecode⟩ := Export.decode?_binding? base hfits hstored
      have hbound : solution.lookup (Variable.field f.field.name).name = some b := by
        rw [hlookup, Option.bind_some, hstored]
        exact hb
      rw [RowStream.cell, hbound]
      dsimp only
      rw [hdecode]
      rfl

/--
A row that was made is read back: the statements of the data that is sent, shown by the query service, make one
row of the given values, with null for every field that has none.
-/
theorem created_row_reads_back (t : Tables) {models : List Model} (hschema : Schema.ofModels models = .ok t.schema)
    {model : String} {values : Values} {checked : CheckedValues}
    (hvalid : values.validate t.schema model true = .ok checked) (world : World W) (m : Mappings) (s : Session) (w : W) :
    t.insert model checked =
        t.rowData model checked >>= (fun data => ofClient (t.client.createEntity .item data)) ∧
      ∃ fields, t.schema.fields model = .ok fields ∧
        (t.rowData model checked).Ensures world m s w fun r m' _ _ => ∀ data, r = .ok data →
          ∀ property : FieldKey → PropertyId, (∀ k p, m'.fields.lookup k = some p → property k = p) →
            t.Registers fields property → ∀ (base : String) (item : ItemId),
              (RowStream.ofSolutions t.schema model
                  (Export.answer base property fields item (Export.facts data))).map RowStream.toList =
                .ok [.ok ⟨item.text, fields.map fun f =>
                  (f.field.name, ((values.lookup f.field.name).getD .null).canonical)⟩] := by
  obtain ⟨fields, hfields, hchecked, hallowed⟩ := Values.validate_eq_ok hvalid
  refine ⟨t.insert_eq model checked, fields, hfields, ?_⟩
  refine Action.Ensures.mono (t.gains_rowData model checked) ?_
  intro r m' _ _ hr data hdata property hproperty hregisters base item
  obtain ⟨name, type, rfl⟩ := hr.2 data hdata property hproperty
  refine RowStream.toList_ofSolutions (v := fun f => ((values.lookup f.name).getD .null).canonical) hfields rfl ?_ ?_
  · have hitem : (Export.solution base property fields item
        (Export.facts (t.client.itemData (t.space.rowLabel model name)
          (t.rowStatements type ++ statementsOf property checked)))).lookup Variable.item.name =
          some ⟨"uri", Export.address base item.text, none, none⟩ := List.lookup_cons_self
    rw [RowStream.itemOf, hitem]
    dsimp only
    rw [Export.ofIri?_address]
  · intro f hf
    refine cell_of_given base (hallowed f hf) ?_
    rw [lookup_solution ((Schema.valid_of_ofModels hschema).nodup hfields) hf, lookup_facts hregisters hchecked _ type hf]

def memberModel : Model :=
  ⟨"Member", none, [⟨"name", .text, false, false⟩, ⟨"mentor", .reference "Member", true, false⟩,
    ⟨"died", .date, true, false⟩]⟩

def memberTables : Tables :=
  ⟨⟨"bot", "secret", 1, "en"⟩, ⟨[memberModel]⟩, ⟨"club"⟩, ⟨⟨1⟩, ⟨2⟩, ⟨3⟩, ⟨4⟩⟩, "https://wiki.test", false, "Item:"⟩

def memberMappings : Mappings where
  fields := [(⟨"Member", "name"⟩, ⟨5⟩), (⟨"Member", "mentor"⟩, ⟨6⟩)]
  owners := [(⟨5⟩, ⟨"Member", "name"⟩), (⟨6⟩, ⟨"Member", "mentor"⟩)]
  types := [("Member", ⟨1⟩)]

def memberProperty (k : FieldKey) : PropertyId :=
  if k.field = "name" then ⟨5⟩ else if k.field = "mentor" then ⟨6⟩ else ⟨7⟩

def memberWorld : World Unit
  | _, .freshName, name, _ => name = "0"
  | _, _, _, _ => False

theorem created_row_reads_back_member :
    ∃ checked data, Values.validate memberTables.schema "Member"
        [("mentor", .reference "Q07"), ("name", .text "Ada")] true = .ok checked ∧
      (memberTables.rowData "Member" checked).Ensures memberWorld memberMappings Session.fresh ()
        (fun r _ _ _ => r = .ok data) ∧
      (RowStream.ofSolutions memberTables.schema "Member"
          (Export.answer "https://wiki.test" memberProperty (Schema.declared memberModel) ⟨12⟩
            (Export.facts data))).map RowStream.toList =
        .ok [.ok ⟨"Q12", [("name", .text "Ada"), ("mentor", .reference "Q7"), ("died", .null)]⟩] := by
  have hschema : Schema.ofModels [memberModel] = .ok memberTables.schema := rfl
  have hvalid : Values.validate memberTables.schema "Member" [("mentor", .reference "Q07"), ("name", .text "Ada")] true =
      .ok [(⟨"Member", ⟨"name", .text, false, false⟩⟩, .text "Ada"),
        (⟨"Member", ⟨"mentor", .reference "Member", true, false⟩⟩, .reference "Q07")] := rfl
  obtain ⟨_, fields, hfields, hrun⟩ := created_row_reads_back memberTables hschema hvalid memberWorld
    memberMappings Session.fresh ()
  obtain rfl := Except.ok.inj (hfields.symm.trans (rfl : memberTables.schema.fields "Member" =
    .ok (Schema.declared memberModel)))
  have hregisters : memberTables.Registers (Schema.declared memberModel) memberProperty :=
    ⟨by decide, by decide, by decide⟩
  have hentries : ∀ e ∈ memberMappings.fields, memberProperty e.1 = e.2 := by decide
  have hknown : ∀ k p, memberMappings.fields.lookup k = some p → memberProperty k = p :=
    fun k p h => hentries (k, p) (Keyed.mem_of_lookup h)
  refine ⟨_, memberTables.client.itemData "Member:0 in club" (memberTables.rowStatements ⟨1⟩ ++
      [Claim.statement ⟨5⟩ (Claim.stringDatavalue "Ada"), Claim.statement ⟨6⟩ (Claim.itemDatavalue ⟨7⟩)]), hvalid,
    fun name w' hname => ?_, ?_⟩
  · obtain rfl : name = "0" := hname
    rfl
  · exact hrun "0" () rfl _ rfl memberProperty hknown hregisters _ ⟨12⟩

end Tables

end ClaimTables
