import ClaimTables.Proofs.Sparql.Matching
import ClaimTables.Proofs.Tables.Batches
import ClaimTables.Proofs.Tables.Holders

/-!
Rows that are found by their key in place of a new one. Main statement: the row is asked for among those of the model that
declares the key field, so it is one of that model or of a descendant, whatever model it was wanted for.
-/

namespace ClaimTables

open Service (Graph)
open Sparql (Pattern Select Solution Solutions Variable)

def Service.Graph.Explains (g : Graph) (group : List Service.Element) (found : Solutions) : Prop :=
  ∀ one ∈ found.solutions, ∀ i, one.item? = some i →
    ∃ μ ∈ Service.solutions g group, μ.lookup Variable.item.name = some (.item i)

theorem View.row_of_solution (view : View) {v : Vocabulary} {o : Outline} {group : List Service.Element}
    (hreserved : v.reserved = view.reserved) (htag : v.tag = view.tag)
    (hgroup : (o.patterns v).map Pattern.element ⊆ group) {μ : Service.Mapping} {n : Service.Node}
    (hμ : μ ∈ Service.solutions view.graph group) (hn : μ.lookup Variable.item.name = some n) :
    view.IsInstance v.type n ∧ view.Belongs n := by
  have hmem {p : Pattern} (hp : p ∈ o.patterns v) : p.element ∈ group := hgroup (List.mem_map_of_mem hp)
  have hinstance : Pattern.instance .item v.reserved.instanceOf v.reserved.subclassOf v.type ∈ o.patterns v := by
    simp [Outline.patterns]
  have htagged : Pattern.tagged .item v.reserved.tag v.tag ∈ o.patterns v := by
    simp [Outline.patterns, Outline.belonging]
  have huntagged : Pattern.untagged .item v.reserved.deleted v.tag ∈ o.patterns v := by
    simp [Outline.patterns, Outline.belonging]
  rw [IsInstance, Belongs, ← hreserved, ← htag]
  exact ⟨Sparql.instance_of_solution hμ (hmem hinstance) hn, Sparql.tag_of_solution hμ (hmem htagged) hn,
    Sparql.untagged_of_solution hμ (hmem huntagged) hn⟩

namespace Tables

open Tables.Action

variable {t : Tables} {model key : String} {values : Values} {m : Mappings} {s : Session} {trace : List Exchange}

theorem naturalKey_eq_ok {f : ResolvedField} {v : Value} (h : t.naturalKey model values key = .ok (f, v)) :
    t.schema.field model key = .ok f ∧ f.field.unique = true ∧ values.lookup key = some v ∧ v.isNull = false := by
  unfold naturalKey at h
  obtain ⟨g, hg, h⟩ := ok_of_bind h
  split at h
  · exact nomatch h
  · next hunique =>
    split at h
    · next w hw =>
      obtain ⟨hlookup, hnull⟩ := Option.filter_eq_some_iff.1 hw
      obtain ⟨rfl, rfl⟩ := Prod.mk.inj (Except.ok.inj h)
      exact ⟨hg, by simpa using hunique, hlookup, by simpa using hnull⟩
    · exact nomatch h

/--
That an item is in an answer to a query whose pattern for the type names the given one, so that the item is a row of that
type or of one below it in any graph that explains the answer.
-/
def FoundAmong (t : Tables) (type i : ItemId) (trace : List Exchange) : Prop :=
  ∃ (select : Select) (text : String) (found : Solutions),
    Pattern.instance .item t.reserved.instanceOf t.reserved.subclassOf type ∈ select.patterns ∧
      text = select.text ∧ Service.group? select.block = some select.group ∧ ⟨.query text, .ok found⟩ ∈ trace ∧
      (∃ one ∈ found.solutions, one.item? = some i) ∧
      ∀ property g, g.Explains select.group found →
        (t.view property g).IsInstance type (.item i) ∧ (t.view property g).Belongs (.item i)

theorem holders_foundAmong (hs : t.schema.Valid) (f : ResolvedField) (v : Value) :
    (t.holders f v).Ensures .noting m s trace fun r m' _ later => ∀ items, r = .ok items → ∀ i ∈ items,
      ∃ type, m'.types.lookup f.declaredBy = some type ∧ t.FoundAmong type i later := by
  refine (t.holders_found f v).mono fun r m' _ later h items hitems i hi => ?_
  obtain ⟨fields, o, vocabulary, text, found, hfields, ho, hreserved, htag, htype, htext, hfound, rfl⟩ := h items hitems
  obtain ⟨one, hone, hitem⟩ := List.mem_filterMap.1 hi
  refine ⟨vocabulary.type, htype, o.rows vocabulary (some 2) none, text, found, ?_, htext,
    Select.group?_block (readable_outline hs hfields ho rfl rfl), hfound, ⟨one, hone, hitem⟩, fun property g hexplains => ?_⟩
  · rw [← hreserved]
    exact List.mem_append_left _ (List.mem_append_left _ List.mem_cons_self)
  · obtain ⟨μ, hμ, hn⟩ := hexplains one hone i hitem
    exact (t.view property g).row_of_solution hreserved htag (List.subset_append_left _ _) hμ hn

/--
A row that is given in place of a new one is in an answer to a query for the rows of the model that declares the key field,
and of its descendants: so it is a row of these, in the namespace and not deleted, in any graph that explains the answer.
It was asked for among the rows of the model itself only if that model declares the key.
-/
theorem createWithKey_finds (t : Tables) {models : List Model} (hschema : Schema.ofModels models = .ok t.schema)
    (model : String) (values : Values) (key : String) (m : Mappings) (s : Session) :
    (t.createWithKey model values key).Ensures .noting m s [] fun r m' _ trace => ∀ id, r = .ok (id, false) →
      ∃ f v type i, t.schema.field model key = .ok f ∧ f.field.unique = true ∧ values.lookup key = some v ∧
        v.isNull = false ∧ m'.types.lookup f.declaredBy = some type ∧ id = i.text ∧ t.FoundAmong type i trace := by
  have hkey : (Action.ofExcept (t.naturalKey model values key)).Ensures .noting m s [] fun r _ _ _ =>
      r = t.naturalKey model values key := ensures_ofExcept.2 rfl
  refine hkey.bind (fun (f, v) m₁ s₁ trace₁ hread => ?_) fun e _ _ _ _ => nofun
  obtain ⟨hf, hunique, hlookup, hnull⟩ := naturalKey_eq_ok hread.symm
  refine (holders_foundAmong (Schema.valid_of_ofModels hschema) f v).bind (fun items m₂ s₂ trace₂ hitems => ?_)
    fun e _ _ _ _ => nofun
  cases items with
  | cons i rest =>
    rintro id ⟨⟩
    obtain ⟨type, htype, hfound⟩ := hitems _ rfl i List.mem_cons_self
    exact ⟨f, v, type, i, hf, hunique, hlookup, hnull, htype, rfl, hfound⟩
  | nil =>
    have hcreate : (t.create model values).Maintains .noting (fun _ _ => True) fun _ => True := .trivial _
    exact (hcreate m₂ s₂ trace₂ True.intro).bind (fun id _ _ _ _ => nofun) fun e _ _ _ _ => nofun

section Scripted

def stockTables : Tables :=
  ⟨⟨"Admin@wikigraph", "secret", 3, "en"⟩, ⟨[⟨"Book", some "Thing", []⟩, ⟨"Disc", some "Thing", []⟩,
    ⟨"Thing", none, [⟨"code", .text, false, true⟩]⟩]⟩, ⟨"test"⟩, ⟨⟨1⟩, ⟨2⟩, ⟨3⟩, ⟨4⟩⟩, "https://wiki.test", false, "Item:"⟩

def stockMappings : Mappings where
  fields := [(⟨"Thing", "code"⟩, ⟨5⟩)]
  owners := [(⟨5⟩, ⟨"Thing", "code"⟩)]
  types := [("Thing", ⟨10⟩), ("Book", ⟨11⟩), ("Disc", ⟨12⟩)]

def stockGraph : Graph where
  triples := [⟨.item ⟨11⟩, ⟨2⟩, .item ⟨10⟩⟩, ⟨.item ⟨12⟩, ⟨2⟩, .item ⟨10⟩⟩, ⟨.item ⟨30⟩, ⟨1⟩, .item ⟨12⟩⟩,
    ⟨.item ⟨30⟩, ⟨3⟩, .text "test"⟩, ⟨.item ⟨30⟩, ⟨5⟩, .text "X1"⟩]
  nodup := by decide

def bookX1 : Values :=
  [("code", .text "X1")]

def codedX1 : Select :=
  ⟨"https://wiki.test", .rows [.item, .field "code"], [.instance .item ⟨1⟩ ⟨2⟩ ⟨10⟩, .tagged .item ⟨3⟩ "test",
    .untagged .item ⟨4⟩ "test", .optional .item ⟨5⟩ (.field "code")], [⟨.field "code", .compare .equal (.text "X1")⟩], [],
    some 2, none⟩

def codeFound (entity : String) : Conversation :=
  .start [answerReply [.ofEntries [("item", .ofEntries [("type", .string "uri"), ("value", .string entity)]),
    ("f_code", .ofEntries [("type", .string "literal"), ("value", .string "X1")])]]] 0 ""

def bookFound : Conversation :=
  codeFound "https://wiki.test/entity/Q31"

def discFound : Conversation :=
  codeFound "https://wiki.test/entity/Q30"

theorem createWithKey_finds_book : Schema.ofModels stockTables.schema.models = .ok stockTables.schema ∧
    ((stockTables.createWithKey "Book" bookX1 "code").follow stockMappings .fresh bookFound).1 = .ok ("Q31", false) ∧
    ∃ (m' : Mappings) (f : ResolvedField) (v : Value) (type i : ItemId),
      stockTables.schema.field "Book" "code" = .ok f ∧ f.field.unique = true ∧ bookX1.lookup "code" = some v ∧
      v.isNull = false ∧ m'.types.lookup f.declaredBy = some type ∧ "Q31" = i.text ∧
      stockTables.FoundAmong type i
        ((stockTables.createWithKey "Book" bookX1 "code").follow stockMappings .fresh bookFound).2 := by
  have hschema : Schema.ofModels stockTables.schema.models = .ok stockTables.schema := rfl
  have hgiven : ((stockTables.createWithKey "Book" bookX1 "code").follow stockMappings .fresh bookFound).1 =
      .ok ("Q31", false) := by decide +kernel
  obtain ⟨m', -, hfound⟩ :=
    (createWithKey_finds stockTables hschema "Book" bookX1 "code" stockMappings .fresh).followed bookFound
  exact ⟨hschema, hgiven, m', hfound "Q31" hgiven⟩

/-- For a book that is wanted a disc is given: it has the code, but it is a row of things and not of books. -/
theorem createWithKey_finds_disc :
    ((stockTables.createWithKey "Book" bookX1 "code").follow stockMappings .fresh discFound).1 = .ok ("Q30", false) ∧
      (((stockTables.createWithKey "Book" bookX1 "code").follow stockMappings .fresh discFound).2.filterMap
        Exchange.answered?).map (·.1) = [codedX1.text] ∧
      stockMappings.types.lookup "Book" = some ⟨11⟩ ∧
      (stockTables.view (fun _ => ⟨5⟩) stockGraph).Selects "Thing" ⟨10⟩ (.havingValue "code" (.text "X1")) (.item ⟨30⟩) ∧
      ¬(stockTables.view (fun _ => ⟨5⟩) stockGraph).IsInstance ⟨11⟩ (.item ⟨30⟩) := by
  refine ⟨by decide +kernel, by decide +kernel, by decide, ⟨?_, ⟨?_, ?_⟩, ?_⟩, ?_⟩
  · exact ⟨.item ⟨12⟩, by unfold Graph.Step; decide, .single (by unfold Graph.Step; decide)⟩
  · unfold Graph.Step
    decide
  · unfold Graph.Step
    decide
  · intro f hf
    obtain rfl := List.mem_singleton.1 hf
    exact ⟨.text "X1", .text "X1", rfl, rfl, rfl⟩
  · rintro ⟨y, hstep, hreaches⟩
    obtain rfl : y = .item ⟨12⟩ := by simpa [view, stockTables, stockGraph, Graph.Step] using hstep
    rcases Relation.ReflTransGen.cases_tail hreaches with hself | ⟨z, -, hlast⟩
    · exact absurd hself (by decide)
    · simp [view, stockTables, stockGraph, Graph.Step] at hlast

end Scripted

end Tables

end ClaimTables
