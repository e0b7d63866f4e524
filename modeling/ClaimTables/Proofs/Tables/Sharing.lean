import ClaimTables.Proofs.Row.Created
import ClaimTables.Proofs.Tables.Opening

/-!
Applications that share a store, each with tables that it opens. Used in turn, each with what it remembers itself, they
make at most one entity for a label besides rows, and they agree on what each of them finds: it is the same for one
role, and different for two.
-/

namespace ClaimTables.Tables

open Tables.Action Directory

variable {t : Tables} {d d' : Directory} {m : Mappings}

def Orderly (t : Tables) (start : Directory) (m : Mappings) (d : Directory) : Prop :=
  start.Grows t.client.language d ∧ t.Minds d m

variable {start : Directory}

theorem Orderly.grows (h : t.Orderly start m d) (hgrows : d.Grows t.client.language d') : t.Orderly start m d' :=
  ⟨h.1.trans hgrows, h.2.grows hgrows⟩

theorem findOrCreateType_labelling (t : Tables) (model : String) (parent : Option ItemId) (s : Session) (d : Directory) :
    (t.findOrCreateType model parent).Ensures .labelling s d fun r _ d' =>
      d.Settles t.client.language .item (t.space.typeLabel model) d' ∧
        ∀ i, r = .ok i → d'.Only t.client.language (t.space.typeLabel model) (.item i) := by
  refine (Client.findItem_labelling t.client _ model s d).bind (fun found s' d' h => ?_) fun e s' d' h => ⟨.inl h.1, by simp⟩
  obtain ⟨rfl, hnone, hfound⟩ := h
  split
  · next i =>
    refine ⟨.inl rfl, fun j hj => ?_⟩
    obtain rfl := Except.ok.inj hj
    exact hfound i rfl
  · have hdata : (t.client.itemData (t.space.typeLabel model) (t.typeStatements parent)).get "labels" =
        Claim.labels t.client.language (t.space.typeLabel model) := by
      simp [Client.itemData, Json.get_ofEntries, List.lookup_cons]
    refine (Client.createFirst_ensures t.client hdata s' (hnone rfl)).bind (fun given s'' d'' h => ?_)
      fun e s'' d'' h => ⟨h.1, by simp⟩
    obtain ⟨id, hkind, rfl, honly⟩ := h.2 given rfl
    refine Client.Action.ensures_liftExcept.2 ⟨h.1, fun i hi => ?_⟩
    unfold Client.readItem at hi
    split at hi
    · next j hj =>
      obtain rfl := Except.ok.inj hi
      exact EntityId.eq_item hkind hj ▸ honly
    · cases hi

section Steady

variable (hnamed : ∀ m ∈ t.schema.models, Schema.isIdentifier m.name = true) (hs : t.schema.Valid)

include hnamed

theorem named_field (hs : t.schema.Valid) {f : ResolvedField} (hf : t.schema.Effective f) :
    (Role.field t.space f.key).Named := by
  obtain ⟨m, hm, hfm⟩ := hf.declared
  obtain ⟨field, -, rfl⟩ := List.mem_map.1 hfm
  obtain ⟨model, fields, hfields, hmem⟩ := hf
  exact ⟨hnamed m hm, (hs.fieldValid hfields hmem).identifier⟩

theorem steady_labelling (hs : t.schema.Valid) : t.Steady .labelling (t.Orderly start) where
  property f hf := by
    have hrole := named_field hnamed hs hf
    refine .of_mappings fun m s d hd => ?_
    split
    · exact ⟨hd, fun _ _ => trivial⟩
    · refine ensures_bind.2 (ensures_ofClient.2 ((Client.property_labelling t.client _ _ _ s d).mono fun r s' d' h => ?_))
      have hd' := hd.grows (grows_of_settles hrole h.1)
      cases r with
      | error e => exact ⟨hd', by simp⟩
      | ok p => exact ensures_bind.2 (ensures_update.2 ⟨⟨hd'.1, hd'.2.insert_field ⟨hrole, rfl, h.2 p rfl⟩⟩, fun _ _ => trivial⟩)
  owner _ _ _ _ _ hd := ⟨hd.1, hd.2.fields, hd.2.types, hd.2.shared⟩
  type m hm parent := by
    have hrole : (Role.type t.space m.name).Named := hnamed m hm
    refine .of_mappings fun known s d hd => ?_
    split
    · exact ⟨hd, fun _ _ => trivial⟩
    · refine ensures_bind.2 (ensures_ofClient.2 ((t.findOrCreateType_labelling m.name parent s d).mono fun r s' d' h => ?_))
      have hd' := hd.grows (grows_of_settles hrole h.1)
      cases r with
      | error e => exact ⟨hd', by simp⟩
      | ok i => exact ensures_bind.2 (ensures_update.2 ⟨⟨hd'.1, hd'.2.insert_type ⟨hrole, rfl, h.2 i rfl⟩⟩, fun _ _ => trivial⟩)
  query text _ := Client.keeps_query_labelling t.client text

theorem maintains_insert (hs : t.schema.Valid) {model : String} {values : Values} {checked : CheckedValues}
    (hvalid : values.validate t.schema model true = .ok checked) :
    (t.insert model checked).Maintains .labelling (t.Orderly start) fun _ => True := by
  have hsteady : t.Steady .labelling (t.Orderly start) := steady_labelling hnamed hs
  obtain ⟨fields, hfields, -⟩ := Values.validate_eq_ok hvalid
  obtain ⟨m, hm, rfl⟩ := Schema.exists_of_fields hfields
  have hvalues := Values.effective_of_validate hvalid
  refine (hsteady.closed.typeItem _).bind fun type _ => (hsteady.closed.valueStatements _ hvalues).bind fun statements _ => ?_
  have hname : freshName.Maintains .labelling (t.Orderly start) fun _ => True :=
    fun _ _ _ hd => ensures_freshName.2 fun _ _ h => ⟨h ▸ hd, fun _ _ => trivial⟩
  refine hname.bind fun name _ => .of_keeps fun known s d hd => ?_
  refine (Client.createEntity_labelling t.client .item _ s d).mono fun r s' d' h => ?_
  rcases h with ⟨rfl, -⟩ | ⟨id, hkind, hentities, -⟩
  · exact hd
  · refine hd.grows (grows_of_row ⟨hkind, t.space, m.name, name, hnamed m hm, ?_⟩ hentities)
    exact Entity.label?_of_labels (by simp [Client.itemData, Json.get_ofEntries, List.lookup_cons])

end Steady

inductive Use where
  | property (model field : String)
  | type (model : String)
  | reserved (instanceOf subclassOf : PropertyId)
  | create (model : String) (values : Values)
  | createMany (model : String) (rows : List Values)
  | createWithKey (model : String) (values : Values) (key : String)
  | clear

/-- Uses tables, and gives the roles that were asked for, each with what was found to play it. -/
def Use.perform (t : Tables) : Use → Action (List (Role × EntityId))
  | .property model field => do
    let p ← t.property model field
    let f ← Action.ofExcept (t.schema.field model field)
    pure [(.field t.space f.key, .property p)]
  | .type model => do
    let i ← t.typeItem model
    pure [(.type t.space model, .item i)]
  | .reserved instanceOf subclassOf => do
    let r ← findReserved t.client instanceOf subclassOf
    pure r.entities
  | .create model values => do
    let _ ← t.create model values
    pure []
  | .createMany model rows => do
    let _ ← t.createMany model rows
    pure []
  | .createWithKey model values key => do
    let _ ← t.createWithKey model values key
    pure []
  | .clear => do
    Tables.clear
    pure []

section Found

variable {α : Type} {x : Action α} {s : Session}

theorem finds_one {role : Role} {entity : α → EntityId}
    (hx : x.Ensures .labelling m s d fun r m' _ d' => t.Orderly start m' d' ∧
      ∀ a, r = .ok a → d'.Plays t.client.language role (entity a)) :
    (x >>= fun a => pure [(role, entity a)]).Ensures .labelling m s d fun r m' _ d' => t.Orderly start m' d' ∧
      ∀ found, r = .ok found → ∀ y ∈ found, d'.Plays t.client.language y.1 y.2 := by
  refine hx.bind (fun a m' s' d' h => ⟨h.1, fun found hfound => ?_⟩) fun e m' s' d' h => ⟨h.1, by simp⟩
  obtain rfl := Except.ok.inj hfound
  exact List.forall_mem_singleton.2 (h.2 a rfl)

theorem finds_none (hd : t.Orderly start m d) (hx : x.Maintains .labelling (t.Orderly start) fun _ => True) :
    (x >>= fun _ => pure []).Ensures .labelling m s d fun (r : Except Error (List (Role × EntityId))) m' _ d' =>
      t.Orderly start m' d' ∧ ∀ found, r = .ok found → ∀ y ∈ found, d'.Plays t.client.language y.1 y.2 := by
  refine (hx m s d hd).bind (fun a m' s' d' h => ⟨h.1, fun found hfound => ?_⟩) fun e m' s' d' h => ⟨h.1, by simp⟩
  obtain rfl := Except.ok.inj hfound
  exact fun y hy => absurd hy List.not_mem_nil

end Found

theorem perform_ensures {models : List Model} (hschema : Schema.ofModels models = .ok t.schema) (use : Use) (s : Session)
    (hd : t.Orderly start m d) :
    (use.perform t).Ensures .labelling m s d fun r m' _ d' => t.Orderly start m' d' ∧
      ∀ found, r = .ok found → ∀ x ∈ found, d'.Plays t.client.language x.1 x.2 := by
  have hs := Schema.valid_of_ofModels hschema
  have hnamed : ∀ m ∈ t.schema.models, Schema.isIdentifier m.name = true :=
    fun m hm => Schema.isIdentifier_of_ofModels hschema hm
  have hsteady : t.Steady .labelling (t.Orderly start) := steady_labelling hnamed hs
  have hinsert : ∀ {model : String} {values : Values} {checked : CheckedValues},
      values.validate t.schema model true = .ok checked →
        (t.insert model checked).Maintains .labelling (t.Orderly start) fun _ => True := maintains_insert hnamed hs
  -- A result is remembered from then on, and what is remembered is so.
  cases use with
  | property model field =>
    rw [Use.perform, Tables.property]
    cases hf : t.schema.field model field with
    | error e => exact ⟨hd, by simp⟩
    | ok f =>
      obtain ⟨fields, hfields, hmem, -⟩ := Schema.field_eq_ok hf
      have hproperty := (hsteady.closed.property f ⟨model, fields, hfields, hmem⟩ m s d hd).and (t.gains_propertyOf f)
      exact finds_one (hproperty.mono fun r m' s' d' h =>
        ⟨h.1.1, fun p hp => h.1.1.2.fields _ _ (h.2.2 p hp).1⟩)
  | type model =>
    have htype := (hsteady.closed.typeItem model m s d hd).and (t.gains_typeItem model)
    exact finds_one (htype.mono fun r m' s' d' h => ⟨h.1.1, fun i hi => h.1.1.2.types _ _ (h.2.2 i hi)⟩)
  | reserved instanceOf subclassOf =>
    -- The answer is known since the opening: the store is not asked.
    rw [Use.perform, ensures_bind, ensures_findReserved_of_known fun x hx => (hd.2.shared x hx).1]
    refine ⟨hd, fun found hfound => ?_⟩
    obtain rfl := Except.ok.inj hfound
    exact hd.2.plays_entities
  | create model values => exact finds_none hd (hsteady.create hinsert values)
  | createMany model rows => exact finds_none hd (hsteady.createMany hinsert rows)
  | createWithKey model values key => exact finds_none hd (hsteady.createWithKey hinsert values key)
  | clear => exact ⟨⟨hd.1, hd.2.forget⟩, by rintro found h x hx; cases h; cases hx⟩

/-- What opens tables: a client that is given, settings and a schema. -/
structure Application where
  client : Client
  settings : Settings
  schema : Schema

structure Opened where
  tables : Tables
  known : Mappings
  session : Session

inductive Turn where
  | opens (s : Session)
  | uses (use : Use)

/-- One turn of an application, which may have opened its tables. What fails gives nothing. -/
def Turn.perform (app : Application) : Option Opened → Turn → Dialogue (List (Role × EntityId) × Option Opened)
  | own, .opens s => do
    let ((r, m), s) ← ((openWith app.client app.settings app.schema).run.run .empty).run s
    match r with
    | .ok t => pure (t.reserved.entities, some ⟨t, m, s⟩)
    | .error _ => pure ([], own)
  | none, .uses _ => pure ([], none)
  | some own, .uses use => do
    let ((r, m), s) ← ((use.perform own.tables).run.run own.known).run own.session
    pure (r.toOption.getD [], some { own with known := m, session := s })

/-- Several applications take turns. What all of them found is given. -/
def useAll {ι : Type} [DecidableEq ι] (apps : ι → Application) :
    (own : ι → Option Opened) → List (ι × Turn) → Dialogue (List (Role × EntityId))
  | _, [] => pure []
  | own, (i, turn) :: rest => do
    let (found, opened) ← turn.perform (apps i) (own i)
    let more ← useAll apps (Function.update own i opened) rest
    pure (found ++ more)

structure Opened.Minds (app : Application) (d : Directory) (own : Opened) : Prop where
  client : own.tables.client = app.client
  schema : own.tables.schema = app.schema
  known : own.tables.Minds d own.known

theorem Opened.Minds.grows {app : Application} {own : Opened} (h : own.Minds app d)
    (hgrows : d.Grows app.client.language d') : own.Minds app d' :=
  ⟨h.client, h.schema, h.known.grows (h.client ▸ hgrows)⟩

theorem turn_ensures {app : Application} {models : List Model} (hschema : Schema.ofModels models = .ok app.schema)
    (turn : Turn) {own : Option Opened} (hown : ∀ o ∈ own, o.Minds app d) :
    (turn.perform app own).Ensures .labelling d fun r d' => d.Grows app.client.language d' ∧
      (∀ o ∈ r.2, o.Minds app d') ∧ ∀ x ∈ r.1, d'.Plays app.client.language x.1 x.2 := by
  cases turn with
  | opens s =>
    rw [Turn.perform, Dialogue.ensures_bind]
    refine Dialogue.Ensures.mono (openWith_labelling app.client app.settings app.schema s d) fun result d' h => ?_
    obtain ⟨⟨r, m⟩, s'⟩ := result
    cases r with
    | error e => exact ⟨h.1, fun o ho => (hown o ho).grows h.1, by simp⟩
    | ok t =>
      obtain ⟨hclient, hmodels, hminds⟩ := h.2 t rfl
      refine ⟨h.1, fun o ho => ?_, hclient ▸ hminds.plays_entities⟩
      obtain rfl := Option.some.inj ho
      exact ⟨hclient, hmodels, hminds⟩
  | uses use =>
    cases own with
    | none => exact ⟨.refl _ d, by simp, by simp⟩
    | some own =>
      obtain ⟨hclient, hmodels, hminds⟩ := hown own rfl
      rw [Turn.perform, Dialogue.ensures_bind]
      refine Dialogue.Ensures.mono (perform_ensures (hmodels ▸ hschema) use own.session ⟨.refl _ d, hminds⟩)
        fun result d' h => ?_
      obtain ⟨⟨r, m⟩, s⟩ := result
      obtain ⟨⟨hgrows, hminds'⟩, hfound⟩ := h
      rw [hclient] at hgrows hfound
      refine ⟨hgrows, fun o ho => ?_, fun x hx => ?_⟩
      · obtain rfl := Option.some.inj ho
        exact ⟨hclient, hmodels, hminds'⟩
      · cases r with
        | ok found => exact hfound found rfl x hx
        | error e => exact absurd hx List.not_mem_nil

section Several

variable {ι : Type} [DecidableEq ι] {apps : ι → Application} {language : String}

theorem useAll_ensures (hlanguage : ∀ i, (apps i).client.language = language)
    (hschema : ∀ i, ∃ models, Schema.ofModels models = .ok (apps i).schema) {own : ι → Option Opened}
    (hown : ∀ i, ∀ o ∈ own i, o.Minds (apps i) d) (turns : List (ι × Turn)) :
    (useAll apps own turns).Ensures .labelling d fun found d' =>
      d.Grows language d' ∧ ∀ x ∈ found, d'.Plays language x.1 x.2 := by
  -- What the others know stays true while one of them has its turn: the store only grows.
  induction turns generalizing own d with
  | nil => exact ⟨.refl language d, fun x hx => absurd hx List.not_mem_nil⟩
  | cons e rest ih =>
    obtain ⟨i, turn⟩ := e
    obtain ⟨models, hmodels⟩ := hschema i
    rw [useAll, Dialogue.ensures_bind]
    refine (turn_ensures hmodels turn (hown i)).mono fun result d' h => ?_
    obtain ⟨found, opened⟩ := result
    obtain ⟨hgrows, hopened, hfound⟩ := h
    have hown' : ∀ j, ∀ o ∈ Function.update own i opened j, o.Minds (apps j) d' := by
      intro j
      by_cases hj : j = i
      · subst hj
        rw [Function.update_self]
        exact hopened
      · rw [Function.update_of_ne hj]
        exact fun o ho => (hown j o ho).grows ((hlanguage j).trans (hlanguage i).symm ▸ hgrows)
    rw [hlanguage] at hgrows hfound
    refine Dialogue.ensures_bind.2 ((ih hown').mono fun more d'' h => ⟨hgrows.trans h.1, fun x hx => ?_⟩)
    rcases List.mem_append.1 hx with hx | hx
    · exact (hfound x hx).grows h.1
    · exact h.2 x hx

/--
However applications with one language of labels share a store, opening tables, using them and forgetting in turn: what
they make are rows, and entities for roles, of which no two have one label; and two roles that they found, the
properties that all namespaces share among them, are played by one entity exactly if the roles are the same, so that
they have the same tag, model and field.
-/
theorem useAll_unique (hlanguage : ∀ i, (apps i).client.language = language)
    (hschema : ∀ i, ∃ models, Schema.ofModels models = .ok (apps i).schema) (d : Directory) (turns : List (ι × Turn)) :
    (useAll apps (fun _ => none) turns).Ensures .labelling d fun found d' =>
      (∃ created, d'.entities = d.entities ++ created ∧
        (∀ e ∈ created, (∃ r, e.Serves language r) ∨ e.IsRow language) ∧
        created.Pairwise fun e e' => e.label? language = e'.label? language → e.IsRow language ∧ e'.IsRow language) ∧
      ∀ x ∈ found, ∀ y ∈ found, x.2 = y.2 ↔ x.1 = y.1 := by
  refine (useAll_ensures hlanguage hschema (by simp) turns).mono fun found d' h => ⟨?_, ?_⟩
  · obtain ⟨created, hcreated, hall⟩ := h.1.made
    exact ⟨created, hcreated, hall, h.1.pairwise hcreated⟩
  · exact fun x hx y hy => (h.2 x hx).eq_iff (h.2 y hy)

end Several

def clubAndGuild (club : Bool) : Application where
  client := memberTables.client
  settings :=
    { Settings.default with
      apiUrl := "https://wiki.test/w/api.php"
      sparqlUrl := "https://wiki.test/sparql"
      botUsername := "bot"
      botPassword := "secret"
      instanceOf := 1
      subclassOf := 2
      charset := "utf-8"
      namespaceTag := if club then "club" else "guild" }
  schema := memberTables.schema

def bareDirectory : Directory where
  entities := [⟨.property ⟨1⟩, Claim.labels "en" "instance of"⟩, ⟨.property ⟨2⟩, Claim.labels "en" "subclass of"⟩]
  nodup := by decide

def clubAndGuildTurns : List (Bool × Turn) :=
  [(true, .opens .fresh), (true, .uses (.property "Member" "name")),
    (true, .uses (.create "Member" [("name", .text "Ada")])), (false, .opens .fresh), (true, .uses .clear),
    (true, .uses (.reserved ⟨1⟩ ⟨2⟩)), (true, .uses (.property "Member" "name")), (true, .uses (.type "Member")),
    (false, .uses (.property "Member" "name")), (false, .uses (.reserved ⟨1⟩ ⟨2⟩))]

def clubAndGuildFound : List (Role × EntityId) :=
  [(.tag, .property ⟨3⟩), (.deleted, .property ⟨4⟩), (.field ⟨"club"⟩ ⟨"Member", "name"⟩, .property ⟨5⟩),
    (.tag, .property ⟨3⟩), (.deleted, .property ⟨4⟩), (.tag, .property ⟨3⟩), (.deleted, .property ⟨4⟩),
    (.field ⟨"club"⟩ ⟨"Member", "name"⟩, .property ⟨5⟩), (.type ⟨"club"⟩ "Member", .item ⟨6⟩),
    (.field ⟨"guild"⟩ ⟨"Member", "name"⟩, .property ⟨8⟩), (.tag, .property ⟨3⟩), (.deleted, .property ⟨4⟩)]

theorem useAll_unique_members :
    (∀ i, (clubAndGuild i).client.language = "en") ∧ (∀ i, ∃ models, Schema.ofModels models = .ok (clubAndGuild i).schema) ∧
      ∃ d', (useAll clubAndGuild (fun _ => none) clubAndGuildTurns).run serve bareDirectory = (clubAndGuildFound, d') ∧
        (∃ created, d'.entities = bareDirectory.entities ++ created ∧
          created.map (·.id) = [.property ⟨3⟩, .property ⟨4⟩, .property ⟨5⟩, .item ⟨6⟩, .item ⟨7⟩, .property ⟨8⟩] ∧
          created.Pairwise fun e e' => e.label? "en" = e'.label? "en" → e.IsRow "en" ∧ e'.IsRow "en") ∧
        ∀ x ∈ clubAndGuildFound, ∀ y ∈ clubAndGuildFound, x.2 = y.2 ↔ x.1 = y.1 := by
  have hlanguage : ∀ i, (clubAndGuild i).client.language = "en" := fun _ => rfl
  have hschema : ∀ i, ∃ models, Schema.ofModels models = .ok (clubAndGuild i).schema := fun _ => ⟨[memberModel], rfl⟩
  have hrun := Dialogue.Ensures.run (useAll_unique hlanguage hschema bareDirectory clubAndGuildTurns) labelling_serve
  have hfound : ((useAll clubAndGuild (fun _ => none) clubAndGuildTurns).run serve bareDirectory).1 = clubAndGuildFound := by
    decide +kernel
  have hids : (((useAll clubAndGuild (fun _ => none) clubAndGuildTurns).run serve bareDirectory).2.entities.drop 2).map (·.id) =
      [.property ⟨3⟩, .property ⟨4⟩, .property ⟨5⟩, .item ⟨6⟩, .item ⟨7⟩, .property ⟨8⟩] := by
    decide +kernel
  generalize (useAll clubAndGuild (fun _ => none) clubAndGuildTurns).run serve bareDirectory = run at hrun hfound hids ⊢
  obtain ⟨found, d'⟩ := run
  obtain rfl : found = clubAndGuildFound := hfound
  obtain ⟨⟨created, hcreated, -, hapart⟩, hroles⟩ := hrun
  refine ⟨hlanguage, hschema, d', rfl, ⟨created, hcreated, ?_, hapart⟩, hroles⟩
  rw [hcreated] at hids
  exact hids

end ClaimTables.Tables
