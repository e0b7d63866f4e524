import ClaimTables.Proofs.Query.Scoping
import ClaimTables.Proofs.Tables.Counting

/-!
The scope of the variables in the text of a query, whether it is for rows or for their number.
-/

namespace ClaimTables.Tables

open Sparql (Select)

variable {W : Type} {world : World W} {m : Mappings} {s : Session} {w : W}

theorem gains_worded (t : Tables) (model : String) (q : Query) (counting : Bool) :
    (t.select model q counting).Gains world m s w fun select m' =>
      ∃ fields o v, t.schema.fields model = .ok fields ∧ q.outline t.schema model fields counting = .ok o ∧
        v.reserved = t.reserved ∧ v.tag = t.space.tag ∧ m'.types.lookup model = some v.type ∧
        select = if counting then o.count v else o.rows v q.limit q.offset := by
  refine (Action.Gains.of_except _).bind fun fields m₁ s₁ w₁ _ hfields => ?_
  refine (t.gains_typeItem model).bind fun type m₂ s₂ w₂ _ htype => ?_
  refine (t.gains_propertiesOf _).bind fun ps m₃ s₃ w₃ hwithin _ => ?_
  refine (Action.Gains.of_except _).bind fun o m₄ s₄ w₄ _ ho => ?_
  obtain ⟨ho, rfl⟩ := ho
  exact .of_pure ⟨fields, o, t.vocabulary type ps, hfields.1, ho, rfl, rfl, hwithin.types _ _ htype, rfl⟩

theorem gains_outline (t : Tables) (model : String) (q : Query) (counting : Bool) :
    (t.select model q counting).Gains world m s w fun select _ =>
      ∃ fields o v, t.schema.fields model = .ok fields ∧ q.outline t.schema model fields counting = .ok o ∧
        v.reserved = t.reserved ∧ v.tag = t.space.tag ∧
        select = if counting then o.count v else o.rows v q.limit q.offset :=
  (t.gains_worded model q counting).mono fun _ _ _ ⟨fields, o, v, hfields, ho, hreserved, htag, _, hselect⟩ =>
    ⟨fields, o, v, hfields, ho, hreserved, htag, hselect⟩

def queryText (t : Tables) (model : String) (q : Query) (counting : Bool) : Action String :=
  if counting then t.countText model q else t.rowsText model q

/--
In the text of a query the variables keep to their scope: a claim is asked only of the row and of what a reference was
followed to before, and both are held to the namespace; what is compared or sorted by is bound, always in one way; the
variables of two paths are one exactly if the paths have one stem; and no join's variable is taken for the row, the
count or a field.
-/
theorem queryText_wellScoped (t : Tables) {models : List Model} (hschema : Schema.ofModels models = .ok t.schema)
    (model : String) (q : Query) (counting : Bool) (world : World W) (m : Mappings) (s : Session) (w : W) :
    (t.queryText model q counting).Ensures world m s w fun r _ _ _ => ∀ text, r = .ok text →
      ∃ (select : Select) (group : List Service.Element) (asked : List Sparql.Variable), text = select.text ∧
        Service.group? select.block = some group ∧
        Service.WellScoped t.reserved t.space.tag group (select.order.map (·.1.name)) ∧
        asked = select.constraints.map (·.subject) ++ select.order.map (·.1) ∧
        asked.length = (q.paths counting).length ∧
        ∀ e ∈ (q.paths counting).zip asked, ∀ e' ∈ (q.paths counting).zip asked,
          (e.2.text = e'.2.text ↔ Path.stem e.1 = Path.stem e'.1) := by
  have hs := Schema.valid_of_ofModels hschema
  have htext : t.queryText model q counting = Select.text <$> t.select model q counting := by
    cases counting <;> rfl
  rw [htext, Action.ensures_map]
  refine Action.Ensures.mono (t.gains_outline model q counting) fun r _ _ _ hr text htext => ?_
  cases r with
  | error e => exact nomatch htext
  | ok select =>
    obtain rfl : select.text = text := Except.ok.inj htext
    obtain ⟨fields, o, v, hfields, ho, hreserved, htag, hselect⟩ := hr.2 select rfl
    -- A query that counts has no order, so what it asks for is what its outline asks for.
    have hparts : select.patterns = o.patterns v ∧ select.constraints = o.constraints ∧ select.order = o.order := by
      subst hselect
      cases counting with
      | true => exact ⟨rfl, rfl, (Select.order_of_counting ho).symm⟩
      | false => exact ⟨rfl, rfl, rfl⟩
    obtain ⟨hpatterns, hconstraints, horder⟩ := hparts
    have hgroup := Select.group?_block (readable_outline hs hfields ho hpatterns hconstraints)
    have hscoped := Select.wellScoped hs hfields ho hpatterns hconstraints (horder ▸ List.Subset.refl _)
    rw [hreserved, htag] at hscoped
    have hasked : select.constraints.map (·.subject) ++ select.order.map (·.1) =
        o.constraints.map (·.subject) ++ o.order.map (·.1) := by rw [hconstraints, horder]
    obtain ⟨hlength, hstem⟩ := Select.stem_iff ho hasked
    exact ⟨select, select.group, _, rfl, hgroup, hscoped, rfl, hlength, hstem⟩

def mentoredByAdaSorted : Query :=
  { mentoredByAda with order := [⟨"mentor.mentor.name", true⟩, ⟨"mentor.mentor.id", false⟩] }

theorem queryText_wellScoped_member : Schema.ofModels [memberModel] = .ok memberTables.schema ∧
    ∃ text select group,
      (memberTables.queryText "Member" mentoredByAdaSorted false).Ensures memberWorld clubMappings Session.fresh ()
        (fun r _ _ _ => r = .ok text) ∧
      text = Select.text select ∧ Service.group? select.block = some group ∧
      Service.WellScoped memberTables.reserved "club" group (select.order.map (·.1.name)) := by
  have hschema : Schema.ofModels [memberModel] = .ok memberTables.schema := rfl
  have hrun := queryText_wellScoped memberTables hschema "Member" mentoredByAdaSorted false memberWorld clubMappings
    Session.fresh ()
  obtain ⟨select, group, asked, htext, hgroup, hscoped, -⟩ := hrun _ rfl
  exact ⟨hschema, _, select, group, rfl, htext, hgroup, hscoped⟩

end ClaimTables.Tables
