import ClaimTables.Proofs.Query.Outline
import ClaimTables.Proofs.Row.Encodable
import ClaimTables.Proofs.Service.Denotation

/-!
What is found by a value. Numbers are written so that only the two zeros denote one number, and so two values of a field stand
for one term of the graph exactly if they are the same. Main statement: the term of a value denotes in a query what the service
shows of a stored value exactly if the two values are the same, and only then a filter or a lookup for the one finds the other.
-/

namespace ClaimTables

open Service (Graph Mapping Node)
open Sparql (Constraint Term Test Variable)

namespace Magnitude

variable {m n : Magnitude}

theorem written_zero : zero.written = 0 :=
  if_pos rfl

theorem written_pos (hm : m ≠ .zero) : 0 < m.written := by
  have hsignificand : 0 < (m.shortest .upper).significand :=
    Nat.pos_of_ne_zero (Binary64.significand_ne_zero hm (admits_shortest .upper hm))
  rw [written, if_neg hm, Decimal.value]
  exact mul_pos (by exact_mod_cast hsignificand) (zpow_pos (by norm_num) _)

theorem written_nonneg (m : Magnitude) : 0 ≤ m.written := by
  by_cases hm : m = .zero
  · rw [hm, written_zero]
  · exact (written_pos hm).le

theorem written_inj : m.written = n.written ↔ m = n := by
  refine ⟨fun h => ?_, congrArg written⟩
  by_cases hm : m = .zero
  · by_contra hne
    subst hm
    exact (written_pos fun hn => hne hn.symm).ne (written_zero ▸ h)
  · by_cases hn : n = .zero
    · subst hn
      exact absurd (written_zero ▸ h) (written_pos hm).ne'
    · rw [written, written, if_neg hm, if_neg hn] at h
      have hadmits : m.admits (n.shortest .upper) = true := admits_of_value_eq (admits_shortest .upper hm) h.symm
      exact Option.some.inj ((nearest?_of_admits hadmits).symm.trans (nearest?_of_admits (admits_shortest .upper hn)))

theorem neg_written_eq_iff : -m.written = n.written ↔ m = n ∧ m = .zero := by
  constructor
  · intro h
    have hm := m.written_nonneg
    have hn := n.written_nonneg
    have hzero (k : Magnitude) (hk : k.written = 0) : k = .zero := written_inj.1 (hk.trans written_zero.symm)
    obtain rfl := hzero m (by linarith)
    obtain rfl := hzero n (by linarith)
    exact ⟨rfl, rfl⟩
  · rintro ⟨rfl, rfl⟩
    rw [written_zero, neg_zero]

end Magnitude

theorem Binary64.written_eq_iff {x y : Binary64} (hx : x.isFinite = true) (hy : y.isFinite = true) :
    x.written = y.written ↔ x.equals y = true := by
  cases x with
  | nan | infinite _ => exact nomatch hx
  | finite s m =>
    cases y with
    | nan | infinite _ => exact nomatch hy
    | finite t n =>
      have hflip : m.written = -n.written ↔ m = n ∧ m = .zero := by
        rw [eq_comm, Magnitude.neg_written_eq_iff]
        exact ⟨fun ⟨h, h'⟩ => ⟨h.symm, h ▸ h'⟩, fun ⟨h, h'⟩ => ⟨h.symm, h ▸ h'⟩⟩
      cases s <;> cases t <;>
        simp [written, equals, neg_inj, Magnitude.written_inj, Magnitude.neg_written_eq_iff, hflip]

namespace Value

/-- Equality of values as rows hold them: a reference is to an item, however its number is written. -/
def SameAs : Value → Value → Prop
  | .reference id, .reference id' => ItemId.ofText? id = ItemId.ofText? id'
  | v, w => v.equals w = true

theorem alike_of_fits {type : FieldType} {v w : Value} (hv : v.fits type = true) (hw : w.fits type = true) (hnull : v ≠ .null)
    (hnull' : w ≠ .null) :
    (∃ s t, v = .text s ∧ w = .text t) ∨ (∃ b c, v = .boolean b ∧ w = .boolean c) ∨ (∃ x y, v = .number x ∧ w = .number y) ∨
      (∃ d e, v = .date d ∧ w = .date e) ∨ ∃ id id', v = .reference id ∧ w = .reference id' := by
  cases type <;> cases v <;> cases w <;> simp_all [fits]

theorem node?_eq_iff {type : FieldType} {v w : Value} (hv : v.fits type = true) (hw : w.fits type = true) {x y : Node}
    (hx : v.node? = some x) (hy : w.node? = some y) : x = y ↔ v.SameAs w := by
  have hnull : v ≠ .null := by
    rintro rfl
    exact nomatch hx
  have hnull' : w ≠ .null := by
    rintro rfl
    exact nomatch hy
  -- Both values are of one form. Numbers are compared as they are written.
  rcases alike_of_fits hv hw hnull hnull' with ⟨s, t, rfl, rfl⟩ | ⟨b, c, rfl, rfl⟩ | ⟨a, b, rfl, rfl⟩ | ⟨d, e, rfl, rfl⟩ |
    ⟨id, id', rfl, rfl⟩
  · obtain rfl := Option.some.inj hx
    obtain rfl := Option.some.inj hy
    simp [SameAs, equals]
  · obtain rfl := Option.some.inj hx
    obtain rfl := Option.some.inj hy
    cases b <;> cases c <;> simp [SameAs, equals, booleanText]
  · obtain ⟨ha, hx⟩ := Option.ite_none_right_eq_some.1 hx
    obtain ⟨hb, hy⟩ := Option.ite_none_right_eq_some.1 hy
    obtain rfl := Option.some.inj hx
    obtain rfl := Option.some.inj hy
    rw [Node.number.injEq]
    exact Binary64.written_eq_iff ha hb
  · obtain rfl := Option.some.inj hx
    obtain rfl := Option.some.inj hy
    simp [SameAs, equals]
  · obtain ⟨i, hi, rfl⟩ := Option.map_eq_some_iff.1 hx
    obtain ⟨j, hj, rfl⟩ := Option.map_eq_some_iff.1 hy
    rw [SameAs, hi, hj, Node.item.injEq, Option.some.injEq]

end Value

theorem Service.Node.compare?_equal {x y : Node} : Node.compare? .equal x y = some true ↔ x = y := by
  rw [Node.compare?, Node.equal?]
  by_cases h : x = y
  · rw [if_pos h]
    exact iff_of_true rfl h
  · rw [if_neg h]
    refine iff_of_false (fun hequal => ?_) h
    split at hequal <;> cases hequal

namespace Sparql

variable {t : Term} {u : Variable} {μ : Mapping}

theorem Test.holds_equal {x? : Option Node} : (Test.compare .equal t).holds x? = true ↔ x? = some t.node := by
  cases x? with
  | none => exact iff_of_false nofun nofun
  | some x => rw [holds, Option.any_some, decide_eq_true_eq, Node.compare?_equal, Option.some.injEq]

def Term.Passes (t : Term) (u : Variable) (μ : Mapping) : Prop :=
  ∃ e, (∀ rest, Service.element? ((Constraint.mk u (.compare .equal t)).text.toList ++ rest) = some (.filter e, rest)) ∧
    e.eval? μ = some true

theorem Term.passes_iff (ht : t.Proper) (hu : u.Proper) : t.Passes u μ ↔ μ.lookup u.name = some t.node := by
  have hreadable : Service.Readable ⟨u, .compare .equal t⟩ := by
    refine ⟨hu, fun t' ht' => ?_, nofun⟩
    rw [List.mem_singleton.1 ht']
    exact ht
  have hread (rest : List Char) := Service.element?_constraint rest hreadable
  rw [← Test.holds_equal, ← eval?_expression ⟨u, .compare .equal t⟩]
  constructor
  · rintro ⟨e, he, htrue⟩
    have hsame := (he []).symm.trans (hread [])
    obtain ⟨hsame, -⟩ := Prod.mk.inj (Option.some.inj hsame)
    obtain rfl := Service.Element.filter.inj hsame
    exact htrue
  · exact fun h => ⟨_, hread, h⟩

end Sparql

namespace View

variable {view : View} {base model : String} {type : ItemId} {f : ResolvedField} {v w : Value} {n : Node}

/-- That a query for the rows of a type with a value in a field, read as it is written, has a solution for a row. -/
def Finds (view : View) (base : String) (type : ItemId) (model : String) (f : ResolvedField) (w : Value) (n : Node) : Prop :=
  ∃ fields o group, view.schema.fields model = .ok fields ∧
    (Query.havingValue f.field.name w).outline view.schema model fields false = .ok o ∧
    Service.group? (o.rows (view.vocabulary base type) (some 2) none).block = some group ∧
    ∃ μ ∈ Service.solutions view.graph group, μ.lookup Variable.item.name = some n

theorem satisfies_havingValue (hs : view.schema.Valid) {fields : List ResolvedField} (hfields : view.schema.fields model = .ok fields)
    (hf : f ∈ fields) {y : Node} (hy : w.node? = some y) :
    view.Satisfies model n ⟨f.field.name, .compare .equal w⟩ ↔ view.value? n f = some y := by
  have hvalid := hs.fieldValid hfields hf
  rw [Satisfies, (Path.segments_of_isIdentifier hvalid.identifier).1, Along, if_neg fun h => hvalid.not_id h.1,
    hs.field_of_mem hfields hf]
  dsimp only
  rw [if_pos rfl]
  constructor
  · rintro ⟨x, y', hx, hy', hequal⟩
    obtain rfl := Option.some.inj (hy.symm.trans hy')
    rw [hx, Node.compare?_equal.1 hequal]
  · exact fun hx => ⟨y, y, hx, hy, Node.compare?_equal.2 rfl⟩

theorem exists_rows_havingValue (hs : view.schema.Valid) (hg : view.graph.Single) {fields : List ResolvedField}
    (hfields : view.schema.fields model = .ok fields) (hf : f ∈ fields) (hfits : w.fits f.field.type = true) {t : Term}
    (hterm : Term.ofValue w = .ok t) :
    ∃ (o : Outline) (group : List Service.Element) (rows : List Node),
      (Query.havingValue f.field.name w).outline view.schema model fields false = .ok o ∧
      Service.group? (o.rows (view.vocabulary base type) (some 2) none).block = some group ∧
      (∀ n, n ∈ rows ↔ view.IsInstance type n ∧ view.Belongs n ∧ view.value? n f = some t.node) ∧
      List.Forall₂ (view.Shows fields) rows (Service.solutions view.graph group) := by
  obtain ⟨hnode, -⟩ := Term.node_of_ofValue hterm
  have hnull : w.isNull = false := by
    cases w with
    | null => exact nomatch hnode
    | _ => rfl
  have ho := outline_havingValue hs hfields hf hnull hfits hterm
  generalize Outline.ofParts fields [(⟨[f], .field f.field.type⟩, .compare .equal t)] [] = o at ho
  -- Nothing is sorted, so the query has the patterns and conditions of one that counts.
  obtain ⟨rows, -, hrows, hshown⟩ : ∃ rows : List Node, rows.Nodup ∧
      (∀ n, n ∈ rows ↔ view.Selects model type (.havingValue f.field.name w) n) ∧
      List.Forall₂ (view.Shows fields) rows
        (Service.solutions view.graph (o.rows (view.vocabulary base type) (some 2) none).group) :=
    solutions_count hs hg hfields ho
  refine ⟨o, _, rows, ho, Sparql.Select.group?_block (readable_outline hs hfields ho rfl rfl), fun n => ?_, hshown⟩
  rw [hrows, ← satisfies_havingValue hs hfields hf hnode]
  exact ⟨fun h => ⟨h.isInstance, h.belongs, h.satisfies _ List.mem_cons_self⟩,
    fun ⟨hinstance, hbelongs, h⟩ => ⟨hinstance, hbelongs, fun f' hf' => List.mem_singleton.1 hf' ▸ h⟩⟩

theorem finds_iff (hs : view.schema.Valid) (hg : view.graph.Single) {fields : List ResolvedField}
    (hfields : view.schema.fields model = .ok fields) (hf : f ∈ fields) (hfits : w.fits f.field.type = true) {t : Term}
    (hterm : Term.ofValue w = .ok t) :
    view.Finds base type model f w n ↔ view.IsInstance type n ∧ view.Belongs n ∧ view.value? n f = some t.node := by
  obtain ⟨o, group, rows, ho, hgroup, hrows, hshown⟩ := exists_rows_havingValue hs hg hfields hf hfits hterm
  rw [← hrows]
  constructor
  · rintro ⟨fields', o', group', hfields', ho', hgroup', μ, hμ, hitem⟩
    obtain rfl := Except.ok.inj (hfields.symm.trans hfields')
    obtain rfl := Except.ok.inj (ho.symm.trans ho')
    obtain rfl := Option.some.inj (hgroup.symm.trans hgroup')
    obtain ⟨row, hrow, hshows⟩ := exists_of_mem_right hshown hμ
    obtain rfl := Option.some.inj (hshows.item.symm.trans hitem)
    exact hrow
  · intro hn
    obtain ⟨μ, hμ, hshows⟩ := exists_of_mem_left hshown hn
    exact ⟨fields, o, group, hfields, ho, hgroup, μ, hμ, hshows.item⟩

end View

/--
The term of a value denotes in a query what the service shows of a stored value of the same type exactly if the two values are
the same, and a text's literal denotes that text. So a filter for the one lets a solution with the other pass, and a query for
rows with the one finds a row of the model that has the other, exactly in that case; what is empty is not found.
-/
theorem compared_as_stored (base : String) {type : FieldType} {v w : Value} (hv : v.fits type = true) (hw : w.fits type = true)
    {stored stored' : Json} (hstored : Claim.datavalue v = .ok stored) (hstored' : Claim.datavalue w = .ok stored') :
    ∃ term shown x y, Term.ofValue w = .ok term ∧ Export.binding? base stored = some shown ∧
      Rdf.queried? base term.render = some y ∧ Rdf.shown? base shown = some x ∧ (y = x ↔ v.SameAs w) ∧
      (∀ s, Rdf.ofText? base (Sparql.Literal.encode s) = some (.literal s (Export.xsd "string"))) ∧
      (∀ (u : Variable) (μ : Mapping), u.Proper → (μ.lookup u.name = some x → (term.Passes u μ ↔ v.SameAs w)) ∧
        (μ.lookup u.name = none → ¬term.Passes u μ)) ∧
      ∀ (view : View) (models : List Model) (item : ItemId) (model : String) (fields : List ResolvedField) (f : ResolvedField)
        (n : Node), Schema.ofModels models = .ok view.schema → view.graph.Single → view.schema.fields model = .ok fields →
        f ∈ fields → f.field.type = type →
        (view.value? n f = some x →
          (view.Finds base item model f w n ↔ view.IsInstance item n ∧ view.Belongs n ∧ v.SameAs w)) ∧
        (view.value? n f = none → ¬view.Finds base item model f w n) := by
  obtain ⟨shown, x, hshown, hx, hxnode⟩ := Rdf.shown?_binding? base hstored
  obtain ⟨term, hterm⟩ := exists_term_of_datavalue hstored'
  obtain ⟨hynode, hproper⟩ := Term.node_of_ofValue hterm
  have hsame : x = term.node ↔ v.SameAs w := Value.node?_eq_iff hv hw hxnode hynode
  refine ⟨term, shown, x, term.node, hterm, hshown, Rdf.queried?_render base hproper, hx, eq_comm.trans hsame,
    Rdf.ofText?_encode base, fun u μ hu => ?_, fun view models item model fields f n hschema hg hfields hf htype => ?_⟩
  · rw [Term.passes_iff hproper hu]
    constructor
    · intro hlookup
      rw [hlookup, Option.some.injEq, hsame]
    · intro hlookup
      rw [hlookup]
      exact nofun
  · rw [View.finds_iff (Schema.valid_of_ofModels hschema) hg hfields hf (htype ▸ hw) hterm]
    constructor
    · intro hvalue
      rw [hvalue, Option.some.injEq, hsame]
    · rintro hvalue ⟨-, -, h⟩
      exact nomatch hvalue.symm.trans h

section Scripted

def bossField : ResolvedField :=
  ⟨"Person", "boss", .reference "Person", true, false⟩

def bossGraph : Graph where
  triples := [⟨.item ⟨8⟩, ⟨1⟩, .item ⟨10⟩⟩, ⟨.item ⟨8⟩, ⟨3⟩, .text "test"⟩, ⟨.item ⟨8⟩, ⟨5⟩, .item ⟨7⟩⟩]
  nodup := by decide

def bossView : View where
  schema := ⟨[⟨"Person", none, [bossField.field]⟩]⟩
  tag := "test"
  reserved := ⟨⟨1⟩, ⟨2⟩, ⟨3⟩, ⟨4⟩⟩
  property := fun _ => ⟨5⟩
  graph := bossGraph

theorem compared_as_stored_boss : (Value.reference "Q07").fits (.reference "Person") = true ∧
    (Value.reference "Q7").fits (.reference "Person") = true ∧
    Claim.datavalue (.reference "Q07") = .ok (Claim.itemDatavalue ⟨7⟩) ∧
    Claim.datavalue (.reference "Q7") = .ok (Claim.itemDatavalue ⟨7⟩) ∧
    bossView.value? (.item ⟨8⟩) bossField = some (.item ⟨7⟩) ∧
    bossView.Finds "https://wiki.test" ⟨10⟩ "Person" bossField (.reference "Q7") (.item ⟨8⟩) := by
  have hfits : (Value.reference "Q07").fits (.reference "Person") = true := rfl
  have hfits' : (Value.reference "Q7").fits (.reference "Person") = true := rfl
  have hstored : Claim.datavalue (.reference "Q07") = .ok (Claim.itemDatavalue ⟨7⟩) := by rfl
  have hstored' : Claim.datavalue (.reference "Q7") = .ok (Claim.itemDatavalue ⟨7⟩) := by rfl
  have hvalue : bossView.value? (.item ⟨8⟩) bossField = some (.item ⟨7⟩) := rfl
  obtain ⟨term, shown, x, y, -, hshown, -, hx, -, -, -, hfinds⟩ :=
    compared_as_stored "https://wiki.test" hfits hfits' hstored hstored'
  obtain rfl := Option.some.inj ((Export.binding?_item _ _).symm.trans hshown)
  obtain rfl : .item ⟨7⟩ = x := Option.some.inj ((Rdf.shown?_of_ofBinding? rfl (Rdf.node_item _ _)).symm.trans hx)
  have hschema : Schema.ofModels bossView.schema.models = .ok bossView.schema := rfl
  have hsingle : bossView.graph.Single := by
    unfold Graph.Single
    decide
  refine ⟨hfits, hfits', hstored, hstored', hvalue, ?_⟩
  refine ((hfinds bossView _ ⟨10⟩ "Person" [bossField] bossField (.item ⟨8⟩) hschema hsingle rfl List.mem_cons_self rfl).1
    hvalue).2 ⟨⟨.item ⟨10⟩, ?_, .refl⟩, ⟨?_, ?_⟩, rfl⟩
  all_goals
    unfold Graph.Step
    decide

end Scripted

end ClaimTables
