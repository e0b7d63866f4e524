import ClaimTables.Proofs.Exchange.Paths
import ClaimTables.Proofs.Query.Supported
import ClaimTables.Proofs.Tables.Twins

/-!
Which queries tables accept. Main statement: once the item of the model and the properties of the fields are found, a query
is put into words exactly if it is supported, and a query that counts exactly if that for rows is supported without its order.
-/

namespace ClaimTables.Tables

open Tables.Action

structure Findings where
  fields : List ResolvedField
  type : ItemId
  properties : List (FieldKey × PropertyId)

def resolve (t : Tables) (model : String) (q : Query) (counting : Bool) : Action Findings := do
  let fields ← Action.ofExcept (t.schema.fields model)
  let type ← t.typeItem model
  let properties ← t.propertiesOf (q.mentions t.schema model fields counting)
  pure ⟨fields, type, properties⟩

def wording (t : Tables) (model : String) (q : Query) (counting : Bool) (found : Findings) : Except Error String :=
  (q.outline t.schema model found.fields counting).map fun o =>
    let v := t.vocabulary found.type found.properties
    (if counting then o.count v else o.rows v q.limit q.offset).text

variable {t : Tables} {model : String} {q : Query} {counting : Bool} {m m' : Mappings} {s s' : Session}
  {exchanged : List Exchange} {found : Findings}

theorem queryText_eq (t : Tables) (model : String) (q : Query) (counting : Bool) :
    t.queryText model q counting = t.resolve model q counting >>= fun found =>
      Action.ofExcept (t.wording model q counting found) := by
  have htext : t.queryText model q counting = Sparql.Select.text <$> t.select model q counting := by
    cases counting <;> rfl
  have houtline (found : Findings) : Action.ofExcept (t.wording model q counting found) =
      Sparql.Select.text <$> (Action.ofExcept (q.outline t.schema model found.fields counting) >>= fun o =>
        let v := t.vocabulary found.type found.properties
        pure (if counting then o.count v else o.rows v q.limit q.offset)) := by
    rw [wording]
    cases q.outline t.schema model found.fields counting <;> rfl
  rw [htext, select, resolve]
  simp only [houtline, map_bind, bind_assoc, pure_bind]

theorem fields_of_resolve (h : (t.resolve model q counting).Goes m s exchanged (.ok found) m' s') :
    t.schema.fields model = .ok found.fields := by
  rcases goes_bind.1 h with ⟨fields, m₁, s₁, first, rest, hfields, h, -⟩ | ⟨e, -, h⟩
  · obtain ⟨-, hfields, -⟩ := goes_ofExcept.1 hfields
    rcases goes_bind.1 h with ⟨type, m₂, s₂, _, _, -, h, -⟩ | ⟨e, -, h⟩
    · rcases goes_bind.1 h with ⟨properties, m₃, s₃, _, _, -, h, -⟩ | ⟨e, -, h⟩
      · obtain ⟨-, hfound, -⟩ := goes_pure.1 h
        obtain rfl := Except.ok.inj hfound
        exact hfields.symm
      · cases h
    · cases h
  · cases h

theorem exists_wording_iff (hs : t.schema.Valid) (found : Findings) :
    (∃ text, t.wording model q counting found = .ok text) ↔ q.Supported t.schema model counting :=
  exists_map_iff.trans (Query.exists_outline_iff hs found.fields q counting)

/--
Tables accept the supported queries and no others. A query is put into words by first finding the item of its model and the
properties of the fields that it comes upon. Once they are found it has a text exactly if it is supported, and otherwise it
is refused for one of its paths. A query that counts is accepted exactly if the one for rows is that has no order.
-/
theorem queryText_accepts (t : Tables) {models : List Model} (hschema : Schema.ofModels models = .ok t.schema)
    (model : String) (q : Query) (m : Mappings) (s : Session) (exchanged : List Exchange) (m' : Mappings) (s' : Session) :
    (∀ counting r, (t.queryText model q counting).Goes m s exchanged r m' s' ↔
      (∃ e, (t.resolve model q counting).Goes m s exchanged (.error e) m' s' ∧ r = .error e) ∨
      ∃ found, (t.resolve model q counting).Goes m s exchanged (.ok found) m' s' ∧ r = t.wording model q counting found) ∧
    (∀ counting found, (t.resolve model q counting).Goes m s exchanged (.ok found) m' s' →
      ((∃ text, t.wording model q counting found = .ok text) ↔ q.Supported t.schema model counting) ∧
      FailsAs (Error.RefusesPath model (q.paths counting)) (t.wording model q counting found)) ∧
    ((∃ text, (t.countText model q).Goes m s exchanged (.ok text) m' s') ↔
      ∃ text, (t.rowsText model { q with order := [] }).Goes m s exchanged (.ok text) m' s') := by
  have hs := Schema.valid_of_ofModels hschema
  have hgoes (q : Query) (counting : Bool) (r : Except Error String) :
      (t.queryText model q counting).Goes m s exchanged r m' s' ↔
        (∃ e, (t.resolve model q counting).Goes m s exchanged (.error e) m' s' ∧ r = .error e) ∨
        ∃ found, (t.resolve model q counting).Goes m s exchanged (.ok found) m' s' ∧
          r = t.wording model q counting found := by
    rw [queryText_eq, goes_bind, or_comm]
    refine or_congr_right ⟨?_, ?_⟩
    · rintro ⟨found, m₁, s₁, first, rest, hfound, hwording, rfl⟩
      obtain ⟨rfl, rfl, rfl, rfl⟩ := goes_ofExcept.1 hwording
      exact ⟨found, (List.append_nil first).symm ▸ hfound, rfl⟩
    · rintro ⟨found, hfound, rfl⟩
      exact ⟨found, m', s', exchanged, [], hfound, goes_ofExcept.2 ⟨rfl, rfl, rfl, rfl⟩, (List.append_nil _).symm⟩
  have haccepts (q : Query) (counting : Bool) : (∃ text, (t.queryText model q counting).Goes m s exchanged (.ok text) m' s') ↔
      (∃ found, (t.resolve model q counting).Goes m s exchanged (.ok found) m' s') ∧
        q.Supported t.schema model counting := by
    constructor
    · rintro ⟨text, htext⟩
      obtain ⟨e, -, he⟩ | ⟨found, hfound, hwording⟩ := (hgoes q counting _).1 htext
      · cases he
      · exact ⟨⟨found, hfound⟩, (exists_wording_iff hs found).1 ⟨text, hwording.symm⟩⟩
    · rintro ⟨⟨found, hfound⟩, hsupported⟩
      obtain ⟨text, htext⟩ := (exists_wording_iff hs found).2 hsupported
      exact ⟨text, (hgoes q counting _).2 (.inr ⟨found, hfound, htext.symm⟩)⟩
  refine ⟨hgoes q, fun counting found hfound => ⟨exists_wording_iff hs found, ?_⟩, ?_⟩
  · exact (refusesPath_outline hs (fields_of_resolve hfound) q counting).map _
  · -- Without an order a query comes upon the same fields as when it counts, and is supported alike.
    have hresolve : t.resolve model { q with order := [] } false = t.resolve model q true := rfl
    have hsupported : Query.Supported t.schema model { q with order := [] } false ↔ q.Supported t.schema model true :=
      ⟨fun h => ⟨h.filters, h.order⟩, fun h => ⟨h.filters, h.order⟩⟩
    refine (haccepts q true).trans (Iff.trans ?_ (haccepts { q with order := [] } false).symm)
    rw [hresolve, hsupported]

def mentoredBeforeAda : Query :=
  { Query.all with filters := [⟨"mentor", .compare .less (.reference "Q10")⟩] }

theorem queryText_accepts_member : Schema.ofModels [memberModel] = .ok memberTables.schema ∧
    mentoredByAdaSorted.Supported memberTables.schema "Member" false ∧
    ¬mentoredBeforeAda.Supported memberTables.schema "Member" false ∧
    ∃ text, (memberTables.countText "Member" mentoredByAdaSorted).Goes clubMappings Session.fresh [] (.ok text)
      clubMappings Session.fresh := by
  have hschema : Schema.ofModels [memberModel] = .ok memberTables.schema := rfl
  have haccepts (q : Query) := queryText_accepts memberTables hschema "Member" q clubMappings Session.fresh [] clubMappings
    Session.fresh
  obtain ⟨-, hsorted, hcount⟩ := haccepts mentoredByAdaSorted
  obtain ⟨-, hbefore, -⟩ := haccepts mentoredBeforeAda
  refine ⟨hschema, (hsorted false ⟨_, _, _⟩ (.done _)).1.1 ⟨_, rfl⟩, fun h => ?_, hcount.2 ⟨_, .done _⟩⟩
  obtain ⟨text, htext⟩ := (hbefore false ⟨_, _, _⟩ (.done _)).1.2 h
  cases htext

end ClaimTables.Tables
