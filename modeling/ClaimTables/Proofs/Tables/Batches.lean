import ClaimTables.Proofs.Row.Batch
import ClaimTables.Proofs.Tables.Outcome
import ClaimTables.Proofs.Tables.Steady
import ClaimTables.Proofs.Tables.Twins

/-!
Batches that are refused. Main statement: a batch with a row that fails its checks, or with two rows that share a
unique value, ends in an error and no row of it is made. Until then unique values are looked up, which may make
properties and the items of models, but only where these are not known.
-/

namespace ClaimTables

/-- A batch that must be refused: a row fails its checks, or two rows share a unique value. -/
inductive Flawed (s : Schema) (model : String) (rows : List Values) : Prop
  | invalid {values : Values} {e : Error} (hmem : values ∈ rows) (h : values.validate s model true = .error e)
  | shared {values other : Values} {a b : CheckedValues} (hmem : [values, other].Sublist rows)
    (ha : values.validate s model true = .ok a) (hb : other.validate s model true = .ok b) (h : ¬a.Apart b)

def StopsAtOnce (s : Schema) (model : String) (rows : List Values) : Prop :=
  ∃ before bad after e, rows = before ++ bad :: after ∧ Values.validate s model bad true = .error e ∧
    ∀ values ∈ before, ∀ checked, Values.validate s model values true = .ok checked → checked.unique = []

/-- The properties of all fields of a schema and the items of its models were found before. -/
structure Mappings.Finds (m : Mappings) (s : Schema) : Prop where
  fields : ∀ f, s.Effective f → ∃ p, m.fields.lookup f.key = some p
  types : ∀ model ∈ s.models, ∃ i, m.types.lookup model.name = some i

namespace Tables

open Tables.Action Tables.Action.Maintains

/-- A request that looks something up, or that makes the property of a field or the item of a model. -/
inductive Prepares (t : Tables) : Request → Prop
  | session {r : Request} (h : Client.OpensSession r) : t.Prepares r
  | search (label : String) (kind : EntityKind) : t.Prepares (.get (t.client.searchParameters label kind))
  | property (token : Token) (key : FieldKey) (datatype : String) :
    t.Prepares (.post (Client.signed token (Client.createEntityParameters .property
      (t.client.propertyData (t.space.propertyLabel key.model key.field) datatype))))
  | type (token : Token) (model : String) (parent : Option ItemId) :
    t.Prepares (.post (Client.signed token (Client.createEntityParameters .item
      (t.client.itemData (t.space.typeLabel model) (t.typeStatements parent)))))
  | query (text : String) : t.Prepares (.query text)

variable {α : Type} {t : Tables}

theorem Action.Maintains.trivial {W : Type} {world : World W} (x : Action α) :
    x.Maintains world (fun _ _ => True) fun _ => True := by
  intro m s w _
  have hkept : Dialogue.Ensures world ((x.run.run m).run s) w fun _ _ => True :=
    Dialogue.ensures_of_kept (by trivial) fun _ _ _ _ _ _ => by trivial
  exact Dialogue.Ensures.mono hkept fun _ _ _ => ⟨by trivial, fun _ _ => by trivial⟩

theorem prepareAll_valid {W : Type} {world : World W} (t : Tables) (model : String) (rows : List Values) :
    (t.prepareAll model rows).Maintains world (fun _ _ => True) fun prepared =>
      List.Forall₂ (fun values checked => values.validate t.schema model true = .ok checked) rows prepared := by
  induction rows with
  | nil => exact .of_pure .nil
  | cons values rest ih =>
    have hprepare : (t.prepare model values).Maintains world (fun _ _ => True) fun checked =>
        values.validate t.schema model true = .ok checked :=
      (of_except _).bind fun checked hchecked => (Maintains.trivial _).bind fun _ _ => .of_pure hchecked
    exact hprepare.bind fun checked hchecked => ih.bind fun more hmore => .of_pure (.cons hchecked hmore)

theorem flawed_checkBatch {s : Schema} {model : String} {rows : List Values} {prepared : List CheckedValues}
    (h : Flawed s model rows)
    (hvalid : List.Forall₂ (fun values checked => Values.validate s model values true = .ok checked) rows prepared) :
    ∃ e, CheckedValues.checkBatch model prepared = .error e := by
  -- What a row is checked to be depends on the row alone, so the checked rows are the image of those that were given.
  let checkedOf (values : Values) : CheckedValues := ((values.validate s model true).toOption).getD []
  have hrows : prepared = rows.map checkedOf ∧ ∀ values ∈ rows, values.validate s model true = .ok (checkedOf values) := by
    clear h
    induction hvalid with
    | nil => exact ⟨rfl, by simp⟩
    | @cons values checked rest more hfirst _ ih =>
      have hchecked : checkedOf values = checked := by simp [checkedOf, hfirst, Except.toOption]
      rw [List.map_cons, hchecked, ← ih.1, List.forall_mem_cons, hchecked]
      exact ⟨rfl, hfirst, ih.2⟩
  obtain ⟨rfl, hrows⟩ := hrows
  cases hbatch : CheckedValues.checkBatch model (rows.map checkedOf) with
  | error e => exact ⟨e, rfl⟩
  | ok _ =>
    have hapart := List.pairwise_map.1 (CheckedValues.checkBatch_eq_ok hbatch)
    cases h with
    | invalid hmem h => cases (hrows _ hmem).symm.trans h
    | @shared values other a b hmem ha hb h =>
      have ha' : checkedOf values = a := by simp [checkedOf, ha, Except.toOption]
      have hb' : checkedOf other = b := by simp [checkedOf, hb, Except.toOption]
      have hpair := List.pairwise_iff_forall_sublist.1 hapart hmem
      rw [ha', hb'] at hpair
      exact absurd hpair h

theorem createMany_refused {I : Mappings → List Exchange → Prop} (hsteady : t.Steady World.noting I) {model : String}
    {rows : List Values} (h : Flawed t.schema model rows) {m : Mappings} (s : Session) {trace : List Exchange}
    (hI : I m trace) :
    (t.createMany model rows).Ensures .noting m s trace fun r m' _ later => (∃ e, r = .error e) ∧ I m' later := by
  refine ((hsteady.prepareAll model rows m s trace hI).and (prepareAll_valid t model rows m s trace True.intro)).bind ?_ ?_
  · rintro prepared m' s' later ⟨⟨hkept, -⟩, -, hvalid⟩
    obtain ⟨e, he⟩ := flawed_checkBatch h (hvalid prepared rfl)
    rw [he]
    exact ⟨⟨e, rfl⟩, hkept⟩
  · rintro e m' s' later ⟨⟨hkept, -⟩, -⟩
    exact ⟨⟨e, rfl⟩, hkept⟩

theorem keeps_of_sends {y : Client.Action α} {P : Request → Prop} (hy : y.Sends P) :
    Client.Keeps World.noting (fun trace => ∀ x ∈ trace, P x.request) y := by
  intro s trace htrace
  refine (hy.ensures s trace).mono ?_
  rintro r s' _ ⟨more, rfl, hmore⟩ x hx
  rcases List.mem_append.1 hx with hx | hx
  · exact htrace x hx
  · exact hmore x hx

theorem steady_of_prepares {P : Request → Prop} (hP : ∀ r, t.Prepares r → P r) :
    t.Steady World.noting fun _ trace => ∀ x ∈ trace, P x.request := by
  have hsession : ∀ r, Client.OpensSession r → P r := fun r hr => hP r (.session hr)
  refine steady_of_keeps (fun f => keeps_of_sends ?_) (fun m _ parent => keeps_of_sends ?_) fun text => keeps_of_sends ?_
  · exact Client.sends_property t.client hsession (hP _ (.search _ _)) fun token => hP _ (.property token f.key _)
  · exact t.sends_findOrCreateType hsession (hP _ (.search _ _)) fun token => hP _ (.type token m.name parent)
  · exact Client.sends_query t.client (hP _ (.query text))

theorem steady_prepares (t : Tables) : t.Steady World.noting fun _ trace => ∀ x ∈ trace, t.Prepares x.request :=
  steady_of_prepares fun _ h => h

theorem steady_finds (t : Tables) : t.Steady World.noting fun m trace => m.Finds t.schema ∧
    ∀ x ∈ trace, ∃ text, x.request = .query text where
  property f hf := by
    refine of_mappings fun m s trace htrace => ?_
    obtain ⟨p, hp⟩ := htrace.1.fields f hf
    rw [hp]
    exact of_pure True.intro m s trace htrace
  owner _ _ _ _ _ h := ⟨⟨h.1.fields, h.1.types⟩, h.2⟩
  type m hm parent := by
    refine of_mappings fun known s trace htrace => ?_
    obtain ⟨i, hi⟩ := htrace.1.types m hm
    rw [hi]
    exact of_pure True.intro known s trace htrace
  query text m := by
    intro s trace htrace
    have hsends : (t.client.query text).Sends fun r => ∃ text, r = .query text := Client.sends_query t.client ⟨text, rfl⟩
    exact (keeps_of_sends hsends s trace htrace.2).mono fun _ _ _ h => ⟨htrace.1, h⟩

theorem createMany_stopsAtOnce {model : String} {rows : List Values} (h : StopsAtOnce t.schema model rows)
    (m : Mappings) (s : Session) : ∃ e, (t.createMany model rows).Gives m s (.error e) := by
  obtain ⟨before, bad, after, e, rfl, hbad, hbefore⟩ := h
  have hrejected {values : Values} {e : Error} (hinvalid : values.validate t.schema model true = .error e)
      (rest : List Values) : (t.prepareAll model (values :: rest)).Gives m s (.error e) :=
    ((Gives.of_except hinvalid).bind_error).bind_error
  have hprepare : ∃ e', (t.prepareAll model (before ++ bad :: after)).Gives m s (.error e') := by
    induction before with
    | nil => exact ⟨e, hrejected hbad after⟩
    | cons values rest ih =>
      rw [List.forall_mem_cons] at hbefore
      cases hvalid : values.validate t.schema model true with
      | error e' => exact ⟨e', hrejected hvalid _⟩
      | ok checked =>
        have hunique : (t.checkUnique none checked).Gives m s (.ok ()) := by
          rw [checkUnique, hbefore.1 checked hvalid]
          exact .of_pure ()
        have hpassed : (t.prepare model values).Gives m s (.ok checked) :=
          (Gives.of_except hvalid).bind (hunique.bind (.of_pure checked))
        obtain ⟨e', he'⟩ := ih hbefore.2
        exact ⟨e', hpassed.bind he'.bind_error⟩
  obtain ⟨e', he'⟩ := hprepare
  exact ⟨e', he'.bind_error⟩

/--
A batch that must be refused ends in an error, and no row of it is made: all that is sent opens a session, looks
something up, or makes the property of a field or the item of a model. Nothing is made either if all of these were found
before, and nothing at all is sent if no row before one that fails its checks has a unique value.
-/
theorem createMany_flawed (t : Tables) {model : String} {rows : List Values} (h : Flawed t.schema model rows)
    (m : Mappings) (s : Session) :
    (t.createMany model rows).Ensures .noting m s [] fun r _ _ trace =>
      (∃ e, r = .error e) ∧ (∀ x ∈ trace, t.Prepares x.request) ∧
      (m.Finds t.schema → ∀ x ∈ trace, ∃ text, x.request = .query text) ∧
      (StopsAtOnce t.schema model rows → trace = []) := by
  have hprepares := createMany_refused t.steady_prepares h (m := m) s (List.forall_mem_nil _)
  have hfinds : (t.createMany model rows).Ensures .noting m s [] fun _ _ _ trace =>
      m.Finds t.schema → ∀ x ∈ trace, ∃ text, x.request = .query text :=
    Dialogue.Ensures.imp fun hfinds =>
      (createMany_refused t.steady_finds h s ⟨hfinds, List.forall_mem_nil _⟩).mono fun _ _ _ _ hkept => hkept.2.2
  have hstops : (t.createMany model rows).Ensures .noting m s [] fun _ _ _ trace =>
      StopsAtOnce t.schema model rows → trace = [] := by
    refine Dialogue.Ensures.imp fun hstops => ?_
    obtain ⟨e, he⟩ := createMany_stopsAtOnce hstops m s
    rw [he]
    exact rfl
  exact ((hprepares.and hfinds).and hstops).mono fun r _ _ trace ⟨⟨⟨herror, hprepares⟩, hfinds⟩, hstops⟩ =>
    ⟨herror, hprepares, hfinds, hstops⟩

def namedAndAged : Tables :=
  personTables [⟨"name", .text, false, true⟩, ⟨"age", .number, true, false⟩]

@[irreducible]
def unnamedSecond : List Values :=
  [[("name", .text "Ada")], [("age", .number (.ofDecimal false ⟨36, 0⟩))]]

theorem validate_unnamed : Values.validate namedAndAged.schema "Person" [("age", .number (.ofDecimal false ⟨36, 0⟩))] true =
    .error (.invalidValue "Person" "name" "required field is missing") := by
  decide +kernel

def noPersons : Conversation :=
  .start ([.document (.ofEntries [("search", .array [])])] ++ loginReplies ++
    [.document (.ofEntries [("entity", .ofEntries [("id", .string "Q10")])]),
      foundReply "P5" "Person.name in test", foundReply "P6" "Person.age in test",
      .document (.ofEntries [("results", .ofEntries [("bindings", .array [])])])]) 0 ""

def nobodyFound : Conversation :=
  .start [answerReply []] 0 ""

def namedAndAgedMappings : Mappings where
  fields := [(⟨"Person", "name"⟩, ⟨5⟩), (⟨"Person", "age"⟩, ⟨6⟩)]
  owners := [(⟨5⟩, ⟨"Person", "name"⟩), (⟨6⟩, ⟨"Person", "age"⟩)]
  types := [("Person", ⟨10⟩)]

theorem finds_namedAndAged : namedAndAgedMappings.Finds namedAndAged.schema := by
  refine ⟨fun f hf => ?_, fun model hmodel => ?_⟩
  · obtain ⟨model, hmodel, hfield⟩ := hf.declared
    obtain rfl := List.mem_singleton.1 hmodel
    have hall : ∀ f ∈ Schema.declared ⟨"Person", none, [⟨"name", .text, false, true⟩, ⟨"age", .number, true, false⟩]⟩,
        (namedAndAgedMappings.fields.lookup f.key).isSome = true := by decide
    exact Option.isSome_iff_exists.1 (hall f hfield)
  · obtain rfl := List.mem_singleton.1 hmodel
    exact ⟨⟨10⟩, rfl⟩

theorem createMany_flawed_unnamed : Flawed namedAndAged.schema "Person" unnamedSecond ∧
    ((namedAndAged.createMany "Person" unnamedSecond).follow .empty .fresh noPersons).1 =
      .error (.invalidValue "Person" "name" "required field is missing") ∧
    (∀ x ∈ ((namedAndAged.createMany "Person" unnamedSecond).follow .empty .fresh noPersons).2,
      namedAndAged.Prepares x.request) ∧
    namedAndAgedMappings.Finds namedAndAged.schema ∧
    ((namedAndAged.createMany "Person" unnamedSecond).follow namedAndAgedMappings .fresh nobodyFound).2.length = 1 ∧
    ∀ x ∈ ((namedAndAged.createMany "Person" unnamedSecond).follow namedAndAgedMappings .fresh nobodyFound).2,
      ∃ text, x.request = .query text := by
  have hflawed : Flawed namedAndAged.schema "Person" unnamedSecond := .invalid (by simp [unnamedSecond]) validate_unnamed
  obtain ⟨-, -, -, hprepares, -⟩ := (createMany_flawed namedAndAged hflawed .empty .fresh).followed noPersons
  obtain ⟨-, -, -, -, hqueries, -⟩ :=
    (createMany_flawed namedAndAged hflawed namedAndAgedMappings .fresh).followed nobodyFound
  exact ⟨hflawed, by decide +kernel, hprepares, finds_namedAndAged, by decide +kernel, hqueries finds_namedAndAged⟩

def MakesEntity : Request → Prop
  | .post ps => ps.action = "wbeditentity"
  | _ => False

instance : DecidablePred MakesEntity := fun r =>
  match r with
  | .post ps => inferInstanceAs (Decidable (ps.action = "wbeditentity"))
  | .get _ | .query _ => .isFalse id

theorem createMany_flawed_makes :
    ((namedAndAged.createMany "Person" unnamedSecond).follow .empty .fresh noPersons).1 =
        .error (.invalidValue "Person" "name" "required field is missing") ∧
      (∃ x ∈ ((namedAndAged.createMany "Person" unnamedSecond).follow .empty .fresh noPersons).2, MakesEntity x.request) ∧
      Flawed namedAndAged.schema "Person" unnamedSecond ∧
      ¬(namedAndAged.createMany "Person" unnamedSecond).Ensures .noting .empty .fresh [] fun _ _ _ trace =>
        ∀ x ∈ trace, ¬MakesEntity x.request := by
  have hmakes : ∃ x ∈ ((namedAndAged.createMany "Person" unnamedSecond).follow .empty .fresh noPersons).2,
      MakesEntity x.request := by decide +kernel
  refine ⟨by decide +kernel, hmakes, .invalid (by simp [unnamedSecond]) validate_unnamed, fun h => ?_⟩
  obtain ⟨x, hx, hxm⟩ := hmakes
  exact h.follow noPersons x hx hxm

end Tables

end ClaimTables
