import ClaimTables.Proofs.Query.Ordering
import ClaimTables.Proofs.Tables.Lineage

/-!
Counting and selecting share one pattern. Main statement: once a query for rows is put into words, the query for their
number is too, from what is known by then; between the braces it says the same but for the joins of the order.
-/

namespace ClaimTables

open Sparql (Pattern Select)

namespace Outline

variable (v : Vocabulary) (o : Outline)

def ownLines : List String :=
  (⟨o.fields, [], [], []⟩ : Outline).patterns v |>.map Pattern.text

def joinLines (links : List Link) : List String :=
  (links.flatMap (linkPatterns v)).map Pattern.text

def conditionLines : List String :=
  o.constraints.map Sparql.Constraint.text

theorem lines_eq {select : Select} (hpatterns : select.patterns = o.patterns v)
    (hconstraints : select.constraints = o.constraints) :
    select.lines = o.ownLines v ++ joinLines v o.links ++ o.conditionLines := by
  rw [Select.lines, hpatterns, hconstraints]
  simp only [patterns, ownLines, joinLines, conditionLines, List.map_append, List.flatMap_nil, List.append_nil]

end Outline

namespace Tables

open Tables.Action

def known (t : Tables) (m : Mappings) (type : ItemId) : Vocabulary :=
  ⟨t.base, t.space.tag, t.reserved, type, fun key => (m.fields.lookup key).getD ⟨0⟩⟩

section Knowing

variable {W : Type} {world : World W} {t : Tables} {m m' : Mappings} {s : Session} {w : W} {model : String} {q : Query}
  {counting : Bool} {fields : List ResolvedField} {o : Outline} {type : ItemId}

def Owns (m : Mappings) (fields : List ResolvedField) : Prop :=
  ∀ f ∈ fields, ∃ p, m.fields.lookup f.key = some p ∧ m.owners.lookup p = some f.key

theorem Owns.within (h : Owns m fields) (hwithin : m.Within m') : Owns m' fields := by
  intro f hf
  obtain ⟨p, hp, howner⟩ := h f hf
  exact ⟨p, hwithin.fields _ _ hp, hwithin.owners _ _ howner⟩

theorem gains_owns (t : Tables) (fields : List ResolvedField) :
    (t.propertiesOf fields).Gains world m s w fun _ m' => Owns m' fields := by
  induction fields generalizing m s w with
  | nil => exact .of_pure (by simp [Owns])
  | cons f rest ih =>
    refine (t.gains_propertyOf f).bind fun p m₁ s₁ w₁ _ hp => ih.bind fun ps m₂ s₂ w₂ hwithin hrest => ?_
    exact .of_pure (List.forall_mem_cons.2 ⟨⟨p, hwithin.fields _ _ hp.1, hwithin.owners _ _ hp.2⟩, hrest⟩)

theorem vocabulary_eq {ps : List (FieldKey × PropertyId)} (hkeys : ps.map (·.1) = fields.map (·.key))
    (hps : ∀ e ∈ ps, m.fields.lookup e.1 = some e.2) {f : ResolvedField} (hf : f ∈ fields) :
    (t.vocabulary type ps).property f.key = (t.known m type).property f.key := by
  obtain ⟨p, hp, hmem⟩ := lookup_of_mem_keys (hkeys ▸ List.mem_map_of_mem hf)
  exact (congrArg (Option.getD · _) hp).trans (congrArg (Option.getD · _) (hps _ hmem)).symm

theorem select_eq {ps : List (FieldKey × PropertyId)} (ho : q.outline t.schema model fields counting = .ok o)
    (hkeys : ps.map (·.1) = (q.mentions t.schema model fields counting).map (·.key))
    (hps : ∀ e ∈ ps, m.fields.lookup e.1 = some e.2) :
    (if counting then o.count (t.vocabulary type ps) else o.rows (t.vocabulary type ps) q.limit q.offset) =
      if counting then o.count (t.known m type) else o.rows (t.known m type) q.limit q.offset := by
  have hpatterns : o.patterns (t.vocabulary type ps) = o.patterns (t.known m type) :=
    patterns_congr ho fun f hf => vocabulary_eq hkeys hps hf
  cases counting with
  | true => exact congrArg (fun p => (⟨t.base, .count, p, o.constraints, [], none, none⟩ : Select)) hpatterns
  | false => exact congrArg (fun p => (⟨t.base, .rows _, p, o.constraints, o.order, q.limit, q.offset⟩ : Select)) hpatterns

theorem gains_known (t : Tables) (model : String) (q : Query) (counting : Bool) :
    (t.select model q counting).Gains world m s w fun select m' =>
      ∃ fields o type, t.schema.fields model = .ok fields ∧ q.outline t.schema model fields counting = .ok o ∧
        t.Reaches m' model ∧ m'.types.lookup model = some type ∧ Owns m' (q.mentions t.schema model fields counting) ∧
        select = if counting then o.count (t.known m' type) else o.rows (t.known m' type) q.limit q.offset := by
  refine (Gains.of_except _).bind fun fields m₁ s₁ w₁ _ hfields => ?_
  refine ((t.gains_typeItem model).and (t.gains_reaches model)).bind fun type m₂ s₂ w₂ _ htype => ?_
  refine ((t.gains_propertiesOf _).and (t.gains_owns _)).bind fun ps m₃ s₃ w₃ hwithin hps => ?_
  refine (Gains.of_except _).bind fun o m₄ s₄ w₄ _ ho => ?_
  obtain ⟨ho, rfl⟩ := ho
  refine .of_pure ⟨fields, o, type, hfields.1, ho, htype.2.within hwithin, hwithin.types _ _ htype.1, hps.2, ?_⟩
  exact select_eq ho hps.1.1 hps.1.2

theorem gives_known (hfields : t.schema.fields model = .ok fields) (ho : q.outline t.schema model fields counting = .ok o)
    (hreaches : t.Reaches m model) (htype : m.types.lookup model = some type)
    (howns : Owns m (q.mentions t.schema model fields counting)) (s : Session) :
    (t.select model q counting).Gives m s
      (.ok (if counting then o.count (t.known m type) else o.rows (t.known m type) q.limit q.offset)) := by
  obtain ⟨i, hi⟩ := hreaches.gives s
  obtain rfl : i = type := Option.some.inj ((hi.gains (t.gains_typeItem model)).symm.trans htype)
  obtain ⟨ps, hps⟩ := gives_propertiesOf (s := s) howns
  obtain ⟨hkeys, hlookups⟩ := (hps t).gains (t.gains_propertiesOf _)
  rw [← select_eq ho hkeys hlookups]
  exact gives_select hfields hi (hps t) ho

theorem count_within (ho : q.outline t.schema model fields true = .ok o)
    (howns : Owns m (q.mentions t.schema model fields true)) (hwithin : m.Within m') :
    o.count (t.known m' type) = o.count (t.known m type) := by
  have hpatterns : o.patterns (t.known m' type) = o.patterns (t.known m type) := by
    refine patterns_congr ho fun f hf => ?_
    obtain ⟨p, hp, -⟩ := howns f hf
    exact (congrArg (Option.getD · _) (hwithin.fields _ _ hp)).trans (congrArg (Option.getD · _) hp).symm
  exact congrArg (fun p => (⟨t.base, .count, p, o.constraints, [], none, none⟩ : Select)) hpatterns

end Knowing

theorem mentions_subset {s : Schema} {model : String} {q : Query} {fields : List ResolvedField} {o : Outline}
    (ho : q.outline s model fields false = .ok o) :
    q.mentions s model fields true ⊆ q.mentions s model fields false := by
  intro f hf
  rcases List.mem_append.1 hf with hf | hf
  · exact List.mem_append_left _ hf
  · obtain ⟨e, he, hfe⟩ := Query.mem_of_mem_passed hf
    rw [Query.orderFor, if_pos rfl, List.map_nil, List.append_nil] at he
    obtain ⟨g, hg, rfl⟩ := List.mem_map.1 he
    exact Query.mem_mentions ho (List.mem_append_left _ (List.mem_map_of_mem hg)) hfe

/--
A query for rows and the query for their number share one pattern. If a query for rows is put into words, then that for
their number is, from what is known by then or later, without asking; and between the braces the query for rows says the
same, with further joins between the joins and the conditions, of which there are none if the order is at hand. What is
said when rows are counted does not depend on the order and the page.
-/
theorem countText_shares_pattern (t : Tables) (model : String) (q : Query) :
    (∀ {W : Type} (world : World W) (m : Mappings) (s : Session) (w : W),
      (t.rowsText model q).Ensures world m s w fun r m' _ _ => ∀ text, r = .ok text →
        ∃ (v : Vocabulary) (fields : List ResolvedField) (o base : Outline) (more : List Link),
          t.schema.fields model = .ok fields ∧ q.outline t.schema model fields false = .ok o ∧
          q.outline t.schema model fields true = .ok base ∧ o.Extends t.schema model q base more ∧
          text = (o.rows v q.limit q.offset).text ∧
          (∀ later, m'.Within later → ∀ s, (t.countText model q).Gives later s (.ok (base.count v).text)) ∧
          (base.count v).lines = base.ownLines v ++ Outline.joinLines v base.links ++ base.conditionLines ∧
          (o.rows v q.limit q.offset).lines =
            base.ownLines v ++ Outline.joinLines v base.links ++ Outline.joinLines v more ++ base.conditionLines) ∧
    ∀ order limit offset, t.countText model ⟨q.filters, order, limit, offset⟩ = t.countText model q := by
  refine ⟨fun world m s w => ?_, fun order limit offset => rfl⟩
  rw [rowsText, ensures_map]
  refine Action.Ensures.mono (t.gains_known model q false) fun r m' _ _ hr text htext => ?_
  obtain ⟨select, rfl⟩ : ∃ select, r = .ok select := by
    cases r with
    | error e => exact nomatch htext
    | ok select => exact ⟨select, rfl⟩
  obtain ⟨fields, o, type, hfields, ho, hreaches, htype, howns, rfl⟩ := hr.2 select rfl
  obtain ⟨base, more, hbase, hextends⟩ := Query.outline_extends ho
  refine ⟨t.known m' type, fields, o, base, more, hfields, ho, hbase, hextends, (Except.ok.inj htext).symm,
    fun later hwithin s => ?_, base.lines_eq _ rfl rfl, ?_⟩
  · have hcount : Owns m' (q.mentions t.schema model fields true) := fun f hf => howns f (mentions_subset ho hf)
    rw [← count_within hbase hcount hwithin]
    exact (gives_known hfields hbase (hreaches.within hwithin) (hwithin.types _ _ htype) (hcount.within hwithin) s).map _
  · rw [o.lines_eq (t.known m' type) rfl rfl, Outline.ownLines, Outline.conditionLines, hextends.fields, hextends.constraints,
      hextends.links]
    simp only [Outline.joinLines, List.flatMap_append, List.map_append, List.append_assoc, Outline.ownLines,
      Outline.conditionLines]

section Scripted

def sortedByMentor : Query :=
  { Query.all with order := [⟨"mentor.name", false⟩] }

theorem countText_shares_pattern_member : ∃ (v : Vocabulary) (o base : Outline) (more : List Link),
    (memberTables.rowsText "Member" sortedByMentor).Gives clubMappings Session.fresh (.ok (o.rows v none none).text) ∧
      (memberTables.countText "Member" sortedByMentor).Gives clubMappings Session.fresh (.ok (base.count v).text) ∧
      o.Extends memberTables.schema "Member" sortedByMentor base more ∧
      more = [.follow .item ⟨"Member", "mentor"⟩ (.field "mentor"),
        .value (.field "mentor") ⟨"Member", "name"⟩ (.join 0)] := by
  obtain ⟨hshares, -⟩ := countText_shares_pattern memberTables "Member" sortedByMentor
  obtain ⟨v, fields, o, base, more, hfields, ho, hbase, hextends, htext, hcount, -⟩ :=
    hshares memberWorld clubMappings Session.fresh () _ rfl
  obtain rfl : Schema.declared memberModel = fields := Except.ok.inj hfields
  have hlinks := hextends.links
  obtain rfl := Except.ok.inj ho
  obtain rfl := Except.ok.inj hbase
  exact ⟨v, _, _, more, congrArg (fun text => Dialogue.done ((Except.ok text, clubMappings), Session.fresh)) htext,
    hcount _ (.refl _) _, hextends, hlinks.symm⟩

/-- What sorts by the names of mentors asks for more than what counts, and not the other way round. -/
theorem countText_lacks_joins : ∃ rows count : Select,
    (memberTables.rowsText "Member" sortedByMentor).Gives clubMappings Session.fresh (.ok rows.text) ∧
      (memberTables.countText "Member" sortedByMentor).Gives clubMappings Session.fresh (.ok count.text) ∧
      ¬∃ own joins more conditions : List String,
        rows.lines = own ++ joins ++ conditions ∧ count.lines = own ++ joins ++ more ++ conditions := by
  have hrows : (memberTables.select "Member" sortedByMentor false).Gives clubMappings Session.fresh (.ok _) := rfl
  have hcount : (memberTables.select "Member" sortedByMentor true).Gives clubMappings Session.fresh (.ok _) := rfl
  refine ⟨_, _, hrows.map Select.text, hcount.map Select.text, ?_⟩
  rintro ⟨own, joins, more, conditions, hlonger, hshorter⟩
  have hfewer : (own ++ joins ++ more ++ conditions).length < (own ++ joins ++ conditions).length := by
    rw [← hlonger, ← hshorter]
    decide
  simp only [List.length_append] at hfewer
  omega

end Scripted

end Tables

end ClaimTables
