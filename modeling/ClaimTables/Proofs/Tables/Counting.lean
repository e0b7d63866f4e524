import ClaimTables.Proofs.Query.Outline
import ClaimTables.Proofs.Row.Created
import ClaimTables.Tables.Reading

/-!
The text of a query that counts is read by the query service as patterns whose solutions are the rows that the
query means.
-/

namespace ClaimTables

open Service (Graph Node)
open Sparql (Constraint Pattern Variable)
open Joins (names trail variableOf)

section Outline

variable {s : Schema} {model : String} {q : Query} {counting : Bool} {fields : List ResolvedField} {o : Outline}

theorem Query.mem_passed {all : List (List ResolvedField × Bool)} (h : ∀ e ∈ all, e.2 = false)
    {e : List ResolvedField × Bool} (he : e ∈ all) {f : ResolvedField} (hf : f ∈ e.1) : f ∈ passed all := by
  induction all with
  | nil => exact (List.not_mem_nil he).elim
  | cons first rest ih =>
    obtain ⟨steps, fails⟩ := first
    obtain rfl : fails = false := h _ List.mem_cons_self
    rcases List.mem_cons.1 he with rfl | he
    · exact List.mem_append_left _ hf
    · exact List.mem_append_right _ (ih (fun e he => h e (List.mem_cons_of_mem _ he)) he)

theorem Query.mem_mentions (ho : q.outline s model fields counting = .ok o) {path : String}
    (hpath : path ∈ q.paths counting) {f : ResolvedField} (hf : f ∈ (Path.walk s model path).steps) :
    f ∈ q.mentions s model fields counting := by
  obtain ⟨filters, order, hfilters, horder, -⟩ := Query.outline_eq_ok ho
  refine List.mem_append_right _ (Query.mem_passed (e := ((Path.walk s model path).steps, false)) (fun e he => ?_) ?_ hf)
  · rcases List.mem_append.1 he with he | he
    · obtain ⟨g, hg, rfl⟩ := List.mem_map.1 he
      obtain ⟨_, _, hread⟩ := exists_of_mem_left hfilters hg
      rw [Query.filterSteps, hread]
      rfl
    · obtain ⟨k, hk, rfl⟩ := List.mem_map.1 he
      obtain ⟨_, _, hread⟩ := exists_of_mem_left horder hk
      rw [Query.sortSteps, hread]
      rfl
  · rcases List.mem_append.1 hpath with hpath | hpath
    · obtain ⟨g, hg, rfl⟩ := List.mem_map.1 hpath
      obtain ⟨_, _, hread⟩ := exists_of_mem_left hfilters hg
      refine List.mem_append_left _ (List.mem_map.2 ⟨g, hg, ?_⟩)
      rw [Query.filterSteps, hread]
      rfl
    · obtain ⟨k, hk, rfl⟩ := List.mem_map.1 hpath
      obtain ⟨_, _, hread⟩ := exists_of_mem_left horder hk
      refine List.mem_append_right _ (List.mem_map.2 ⟨k, hk, ?_⟩)
      rw [Query.sortSteps, hread]
      rfl

theorem patterns_congr (ho : q.outline s model fields counting = .ok o) {v : Vocabulary}
    {property : FieldKey → PropertyId} (h : ∀ f ∈ q.mentions s model fields counting, v.property f.key = property f.key) :
    o.patterns v = o.patterns { v with property := property } := by
  obtain ⟨hofields, paths, reached, htraces, hwalk, -⟩ := Query.outline_traces ho
  have hfields : ∀ f ∈ o.fields, v.property f.key = property f.key :=
    fun f hf => h f (List.mem_append_left _ (hofields ▸ hf))
  have hkeys : ∀ l ∈ o.links, v.property l.key = property l.key := by
    intro l hl
    obtain ⟨r, hr, front, g, back, hsteps, hkey, -⟩ := htraces.exists_of_mem hl
    obtain ⟨path, hpath, hr⟩ := exists_of_mem_right hwalk hr
    rw [hkey]
    refine h g (Query.mem_mentions ho hpath ?_)
    rw [hr, hsteps]
    exact List.mem_append_right _ List.mem_cons_self
  unfold Outline.patterns
  refine congr (congrArg _ (congrArg _ (List.map_congr_left fun f hf => ?_))) (List.flatMap_congr fun l hl => ?_)
  · rw [hfields f hf]
  · have hkey := hkeys l hl
    cases l <;> simp only [Link.key] at hkey <;> simp only [Outline.linkPatterns, hkey, Outline.belonging]

end Outline

namespace Tables

open Tables.Action

def view (t : Tables) (property : FieldKey → PropertyId) (g : Graph) : View :=
  ⟨t.schema, t.space.tag, t.reserved, property, g⟩

theorem lookup_of_mem_keys {ps : List (FieldKey × PropertyId)} {k : FieldKey} (h : k ∈ ps.map (·.1)) :
    ∃ p, ps.lookup k = some p ∧ (k, p) ∈ ps := by
  induction ps with
  | nil => exact (List.not_mem_nil h).elim
  | cons e rest ih =>
    obtain ⟨k', p⟩ := e
    by_cases hk : k = k'
    · exact ⟨p, by rw [hk, List.lookup_cons_self], hk ▸ List.mem_cons_self⟩
    · obtain ⟨p', hp', hmem⟩ := ih ((List.mem_cons.1 h).resolve_left hk)
      exact ⟨p', by rw [List.lookup_cons, beq_eq_false_iff_ne.2 hk, hp'], List.mem_cons_of_mem _ hmem⟩

variable {W : Type} {world : World W} {m : Mappings} {s : Session} {w : W}

theorem gains_select (t : Tables) (model : String) (q : Query) :
    (t.select model q true).Gains world m s w fun select m' =>
      ∃ type fields o, m'.types.lookup model = some type ∧ t.schema.fields model = .ok fields ∧
        q.outline t.schema model fields true = .ok o ∧
        ∀ property : FieldKey → PropertyId, (∀ k p, m'.fields.lookup k = some p → property k = p) →
          ∀ g, select = o.count ((t.view property g).vocabulary t.base type) := by
  refine (Action.Gains.of_except _).bind fun fields m₁ s₁ w₁ _ hfields => ?_
  obtain ⟨hfields, rfl⟩ := hfields
  refine (t.gains_typeItem model).bind fun type m₂ s₂ w₂ _ htype => ?_
  refine (t.gains_propertiesOf _).bind fun ps m₃ s₃ w₃ hwithin hps => ?_
  refine (Action.Gains.of_except _).bind fun o m₄ s₄ w₄ _ ho => ?_
  obtain ⟨ho, rfl⟩ := ho
  refine .of_pure ⟨type, fields, o, hwithin.types _ _ htype, hfields, ho, fun property hproperty g => ?_⟩
  refine congrArg (fun ps => (⟨t.base, .count, ps, o.constraints, [], none, none⟩ : Sparql.Select)) ?_
  refine patterns_congr ho fun f hf => ?_
  obtain ⟨p, hp, hmem⟩ := lookup_of_mem_keys (hps.1 ▸ List.mem_map_of_mem hf)
  have hknown : property f.key = p := hproperty _ _ (hps.2 _ hmem)
  exact (congrArg (Option.getD · _) hp).trans hknown.symm

theorem text_count (o : Outline) (v : Vocabulary) : (o.count v).text = Sparql.Select.header v.base ++
    "SELECT (COUNT(DISTINCT ?item) AS ?count) WHERE \x7b\n" ++ (o.count v).block ++ "\x7d\n" := by
  have hfront : "SELECT " ++ (Sparql.Select.projectionText .count ++ " WHERE \x7b\n") =
      "SELECT (COUNT(DISTINCT ?item) AS ?count) WHERE \x7b\n" := rfl
  have hmodifiers : (o.count v).modifiers = "" := rfl
  rw [Sparql.Select.text, hmodifiers, String.append_empty, ← hfront]
  simp only [String.append_assoc]
  rfl

/--
The translation of a query that counts is correct: the query service reads what stands between the braces, and in
a graph with one claim of each property its solutions are those of the rows that the query means, each once.
-/
theorem countText_solutions (t : Tables) {models : List Model} (hschema : Schema.ofModels models = .ok t.schema)
    (model : String) (q : Query) (world : World W) (m : Mappings) (s : Session) (w : W) :
    (t.countText model q).Ensures world m s w fun r m' _ _ => ∀ text, r = .ok text →
      ∃ type fields block group, m'.types.lookup model = some type ∧ t.schema.fields model = .ok fields ∧
        text = Sparql.Select.header t.base ++ "SELECT (COUNT(DISTINCT ?item) AS ?count) WHERE \x7b\n" ++ block ++ "\x7d\n" ∧
        Service.group? block = some group ∧
        ∀ (property : FieldKey → PropertyId) (g : Graph),
          (∀ k p, m'.fields.lookup k = some p → property k = p) → g.Single →
          ∃ rows : List Node, rows.Nodup ∧ (∀ n, n ∈ rows ↔ (t.view property g).Selects model type q n) ∧
            List.Forall₂ ((t.view property g).Shows fields) rows (Service.solutions g group) := by
  have hs := Schema.valid_of_ofModels hschema
  rw [countText, Action.ensures_map]
  refine Action.Ensures.mono (t.gains_select model q) fun r m' _ _ hr text htext => ?_
  obtain ⟨select, rfl⟩ : ∃ select, r = .ok select := by
    cases r with
    | error e => exact nomatch htext
    | ok select => exact ⟨select, rfl⟩
  obtain ⟨type, fields, o, htype, hfields, ho, hselect⟩ := hr.2 select rfl
  have hone := hselect (fun k => (m'.fields.lookup k).getD ⟨0⟩) (fun k p h => by rw [h]; rfl) ⟨[], List.nodup_nil⟩
  obtain rfl : select.text = text := Except.ok.inj htext
  refine ⟨type, fields, select.block, select.group, htype, hfields, ?_, ?_, fun property g hproperty hg => ?_⟩
  · rw [hone, text_count]
    rfl
  · rw [hone]
    exact Sparql.Select.group?_block (readable_outline hs hfields ho rfl rfl)
  · rw [hselect property hproperty g]
    exact View.solutions_count hs hg hfields ho

def clubMappings : Mappings :=
  { memberMappings with
    fields := (⟨"Member", "died"⟩, ⟨7⟩) :: memberMappings.fields
    owners := (⟨7⟩, ⟨"Member", "died"⟩) :: memberMappings.owners }

def clubGraph : Graph where
  triples := [⟨.item ⟨10⟩, ⟨1⟩, .item ⟨1⟩⟩, ⟨.item ⟨10⟩, ⟨3⟩, .text "club"⟩, ⟨.item ⟨10⟩, ⟨5⟩, .text "Ada"⟩,
    ⟨.item ⟨11⟩, ⟨1⟩, .item ⟨1⟩⟩, ⟨.item ⟨11⟩, ⟨3⟩, .text "club"⟩, ⟨.item ⟨11⟩, ⟨5⟩, .text "Bob"⟩,
    ⟨.item ⟨11⟩, ⟨6⟩, .item ⟨10⟩⟩]
  nodup := by decide

def mentoredByAda : Query :=
  { Query.all with filters := [⟨"mentor.name", .compare .equal (.text "Ada")⟩] }

theorem countText_solutions_member : ∃ text block group rows,
    (memberTables.countText "Member" mentoredByAda).Ensures memberWorld clubMappings Session.fresh ()
      (fun r _ _ _ => r = .ok text) ∧
    text = Sparql.Select.header "https://wiki.test" ++ "SELECT (COUNT(DISTINCT ?item) AS ?count) WHERE \x7b\n" ++
      block ++ "\x7d\n" ∧
    Service.group? block = some group ∧ Node.item ⟨11⟩ ∈ rows ∧ Node.item ⟨10⟩ ∉ rows ∧
    List.Forall₂ ((memberTables.view memberProperty clubGraph).Shows (Schema.declared memberModel)) rows
      (Service.solutions clubGraph group) := by
  have hschema : Schema.ofModels [memberModel] = .ok memberTables.schema := rfl
  have hrun := countText_solutions memberTables hschema "Member" mentoredByAda memberWorld clubMappings Session.fresh ()
  obtain ⟨type, fields, block, group, htype, hfields, htext, hgroup, hsolutions⟩ := hrun _ rfl
  obtain rfl : ⟨1⟩ = type := Option.some.inj htype
  obtain rfl : Schema.declared memberModel = fields := Except.ok.inj hfields
  have hsingle : clubGraph.Single := by
    unfold Graph.Single
    decide
  have hentries : ∀ e ∈ clubMappings.fields, memberProperty e.1 = e.2 := by decide
  have hknown : ∀ k p, clubMappings.fields.lookup k = some p → memberProperty k = p :=
    fun k p h => hentries (k, p) (Keyed.mem_of_lookup h)
  obtain ⟨rows, _, hrows, hshows⟩ := hsolutions memberProperty clubGraph hknown hsingle
  refine ⟨_, block, group, rows, rfl, htext, hgroup, (hrows _).2 ⟨?_, ?_, ?_⟩, fun h => ?_, hshows⟩
  · exact ⟨.item ⟨1⟩, by unfold Graph.Step; decide, .refl⟩
  · refine ⟨?_, ?_⟩ <;> unfold Graph.Step <;> decide
  · intro f hf
    obtain rfl := List.mem_singleton.1 hf
    refine ⟨.item ⟨10⟩, ?_, ⟨?_, ?_⟩, .text "Ada", .text "Ada", rfl, rfl, rfl⟩ <;> unfold Graph.Step <;> decide
  · have hfilter := ((hrows _).1 h).satisfies _ List.mem_cons_self
    obtain ⟨o, hstep, _⟩ := hfilter
    have hnone : clubGraph.object? (.item ⟨10⟩) ⟨6⟩ = none := by decide
    cases hnone.symm.trans (hsingle.object?_eq_some.2 hstep)

end Tables

end ClaimTables
