import ClaimTables.Proofs.Tables.Guard
import ClaimTables.Proofs.Tables.Labels
import ClaimTables.Proofs.Tables.Lineage
import ClaimTables.Proofs.Tables.Runs

/-!
What the tables make. Reading makes no more than what is missing: properties of fields and items of models, each after
its label was looked up. Every item that is made carries the tag of the namespace, and it is an instance of something
only if it is a row, and then of the item of the row's model.
-/

namespace ClaimTables.Tables

open Tables.Action

def IsEdit : Request → Prop
  | .post ps => ps.action ≠ "login" ∧ ps.action ≠ "logout"
  | _ => False

/-- That a request makes a property or the item of a model, after no hit for its label was the label itself. -/
inductive MakesMissing (t : Tables) (before : List Exchange) : Request → Prop
  | property {label : String} {data : Json} (token : Token)
    (hlabel : data.get "labels" = Claim.labels t.client.language label)
    (hsearched : t.client.Searched label .property [] before) :
    MakesMissing t before (.post (Client.signed token (Client.createEntityParameters .property data)))
  | type {model : Model} {data : Json} (token : Token) (hmodel : model ∈ t.schema.models)
    (hlabel : data.get "labels" = Claim.labels t.client.language (t.space.typeLabel model.name))
    (hsearched : t.client.Searched (t.space.typeLabel model.name) .item [] before)
    (htag : (t.reserved.tag, Claim.stringDatavalue t.space.tag) ∈ Export.facts data)
    (hinstance : ∀ v, (t.reserved.instanceOf, v) ∉ Export.facts data) :
    MakesMissing t before (.post (Client.signed token (Client.createEntityParameters .item data)))

inductive MakesRow (t : Tables) (creates : String → Prop) (m : Mappings) : Request → Prop
  | row {model : Model} {type : ItemId} (token : Token) (hmodel : model ∈ t.schema.models) (hcreates : creates model.name)
    (htype : m.types.lookup model.name = some type) (name : String) (statements : List Json) :
    MakesRow t creates m (.post (Client.signed token (Client.createEntityParameters .item
      (t.client.itemData (t.space.rowLabel model.name name) (t.rowStatements type ++ statements)))))

/-- What an operation may exchange that makes rows of some models, given what was exchanged before. -/
inductive Accounted (t : Tables) (creates : String → Prop) (m : Mappings) (before : List Exchange) (x : Exchange) : Prop
  | asks (h : ¬IsEdit x.request)
  | missing (h : t.MakesMissing before x.request)
  | row (h : t.MakesRow creates m x.request)
  | claims (h : Alters x.request)

theorem not_isEdit_of_opensSession {r : Request} (h : Client.OpensSession r) : ¬IsEdit r := by
  cases h with
  | token kind => exact id
  | logIn c token => simp [IsEdit, Client.logInRequest, Parameters.action, Parameters.ofTexts]

variable {t : Tables} {m m' : Mappings} {s : Session} {trace : List Exchange} {creates : String → Prop}

theorem makesMissing_type (hreserved : t.reserved.instanceOf ∉ [t.reserved.subclassOf, t.reserved.tag]) {model : Model}
    (hmodel : model ∈ t.schema.models) (parent : Option ItemId) {before : List Exchange}
    (hsearched : t.client.Searched (t.space.typeLabel model.name) .item [] before) (token : Token) :
    t.MakesMissing before (.post (Client.signed token (Client.createEntityParameters .item
      (t.client.itemData (t.space.typeLabel model.name) (t.typeStatements parent))))) := by
  simp only [List.mem_cons, List.not_mem_nil, or_false, not_or] at hreserved
  obtain ⟨hsubclassOf, htag⟩ := hreserved
  refine .type token hmodel ?_ hsearched ?_ fun v hv => ?_
  · simp [Client.itemData, Json.get_ofEntries, List.lookup_cons]
  · rw [facts_typeData]
    exact List.mem_cons_self
  · rw [facts_typeData] at hv
    cases parent <;> simp [htag, hsubclassOf] at hv

section Finding

variable {P : Mappings → List Exchange → Exchange → Prop}

theorem keeps_inOrder {α : Type} {R : Request → Prop} {Q : List Exchange → Exchange → Prop} {x : Client.Action α}
    (hx : x.Sends R) (hR : ∀ before y, R y.request → Q before y) : Client.Keeps .noting (InOrder Q) x := fun s _ h =>
  (hx.inOrder s h fun before _ y hy => hR before y hy).mono fun _ _ _ h => h.2

/--
A relation that says something of edits only, that holds of those which make what is missing, and for which no more
matters of what is known than the items of models: finding things keeps it.
-/
theorem steady_of_inOrder (hreserved : t.reserved.instanceOf ∉ [t.reserved.subclassOf, t.reserved.tag])
    (hask : ∀ m before x, ¬IsEdit x.request → P m before x)
    (hmissing : ∀ m before x, t.MakesMissing before x.request → P m before x)
    (htypes : ∀ {m m' before x}, (∀ n i, m.types.lookup n = some i → m'.types.lookup n = some i) → P m before x →
      P m' before x) : t.Steady .noting fun m trace => InOrder (P m) trace where
  property f hf := by
    refine .of_mappings fun m s trace h => ?_
    split
    · exact ⟨h, fun _ _ => trivial⟩
    · refine (Maintains.of_keeps fun m s trace h => ?_).bind (fun p _ => ?_) m s trace h
      · refine Client.property_inOrder ⟨fun before _ x hx => hask m before x ?_, fun before _ hsearched x hx => ?_⟩ h _ s
        · rw [hx]
          exact id
        · rcases hx with hx | ⟨token, hx⟩
          · exact hask m before x (not_isEdit_of_opensSession hx)
          · refine hmissing m before x (hx ▸ .property token ?_ hsearched)
            simp [Client.propertyData, Json.get_ofEntries, List.lookup_cons]
      · -- What is known of fields plays no part in the relation.
        exact fun m _ _ h => ⟨h.mono fun _ _ => htypes fun _ _ h => h, fun _ _ => trivial⟩
  owner m trace p k _ h := h.mono fun _ _ => htypes fun _ _ h => h
  type model hmodel parent := by
    refine .of_mappings fun m s trace h => ?_
    split
    · exact ⟨h, fun _ _ => trivial⟩
    · next hnone =>
      refine ensures_bind.2 (ensures_ofClient.2 ((findOrCreateType_inOrder h ?_ s).mono ?_))
      · refine ⟨fun before _ x hx => hask m before x ?_, fun before _ hsearched x hx => ?_⟩
        · rw [hx]
          exact id
        · rcases hx with hx | ⟨token, hx⟩
          · exact hask m before x (not_isEdit_of_opensSession hx)
          · exact hmissing m before x (hx ▸ makesMissing_type hreserved hmodel parent hsearched token)
      · rintro r s' later ⟨-, horder, -⟩
        cases r with
        | error e => exact ⟨horder, fun _ _ => trivial⟩
        | ok i => exact ⟨horder.mono fun _ _ => htypes (Mappings.within_type hnone i).types, fun _ _ => trivial⟩
  query text m := keeps_inOrder (Client.sends_query t.client (P := fun r => ¬IsEdit r) id) fun before y hy => hask m before y hy

end Finding

inductive Operation where
  | rowsText (model : String) (q : Query)
  | countText (model : String) (q : Query)
  | rows (model : String) (q : Query)
  | count (model : String) (q : Query)
  | row (model id : String)
  | property (model field : String)
  | type (model : String)
  | rowTypes (model : String)
  | storedModels
  | write (call : RowCall)
  | clear
  | logOut

namespace Operation

def perform (t : Tables) : Operation → Action Unit
  | rowsText model q => (fun _ => ()) <$> t.rowsText model q
  | countText model q => (fun _ => ()) <$> t.countText model q
  | rows model q => (fun _ => ()) <$> t.rows model q
  | count model q => (fun _ => ()) <$> t.count model q
  | row model id => (fun _ => ()) <$> t.row? model id
  | property model field => (fun _ => ()) <$> t.property model field
  | type model => (fun _ => ()) <$> t.typeItem model
  | rowTypes model => (fun _ => ()) <$> t.rowTypes model
  | storedModels => (fun _ => ()) <$> t.storedModels
  | write call => call.perform t
  | clear => Tables.clear
  | logOut => ofClient Client.logOut

def Reads : Operation → Prop
  | rowsText _ _ | countText _ _ | rows _ _ | count _ _ | row _ _ | property _ _ | type _ | rowTypes _ => True
  | _ => False

def Creates : Operation → String → Prop
  | write (.create model _), name | write (.createMany model _), name | write (.createWithKey model _ _), name =>
    name = model
  | _, _ => False

end Operation

section Performing

def MakesNothing (r : Request) : Prop :=
  ¬IsEdit r ∨ Alters r

theorem makesNothing_of_opensSession {r : Request} (h : Client.OpensSession r) : MakesNothing r :=
  .inl (not_isEdit_of_opensSession h)

theorem sends_applyChanges_nothing (c : Client) (model id : String) (claims : ClaimSet) (changes : List Change) :
    (applyChanges c model id claims changes).Sends MakesNothing := by
  refine sends_applyChanges (fun r h => makesNothing_of_opensSession h) (fun ps h => .inr ?_) c model changes
  rcases h with ⟨haction, -⟩ | ⟨haction, -⟩ | ⟨haction, -⟩ <;> simp [Alters, haction]

theorem sends_delete (t : Tables) (id : String) : (t.delete id).Sends MakesNothing := by
  refine (sends_getClaims t.client (.inl fun h => h)).bind fun found => ?_
  split
  · exact Client.Action.sends_pure _
  · refine Client.Action.sends_check (Client.Action.sends_check ?_)
    split
    · exact Client.Action.sends_pure _
    · refine sends_discard (fun r h => makesNothing_of_opensSession h) t id fun ps h => .inr ?_
      rcases h with ⟨haction, -⟩ | ⟨haction, -⟩ <;> simp [Alters, haction]

theorem sends_logOut : Client.logOut.Sends MakesNothing := by
  refine Client.Action.sends_get.bind fun s => ?_
  split
  · exact Client.Action.sends_pure _
  · refine (Client.Action.sends_modify _).bind fun _ => (Client.Action.sends_send (.inl ?_)).bind fun _ =>
      Client.Action.sends_pure _
    simp [IsEdit, Parameters.action, Parameters.ofTexts]

theorem sends_storedModels (t : Tables) : t.storedModels.Sends fun r => ∀ ps, r ≠ .post ps := by
  have hfind : ∀ model, (t.findType model).Sends fun r => ∀ ps, r ≠ .post ps := by
    intro model
    have hmodel : (Action.ofExcept (t.schema.model model)).Sends fun r => ∀ ps, r ≠ .post ps := by
      cases t.schema.model model with
      | ok m => exact sends_pure m
      | error e => exact sends_throw e
    refine hmodel.bind fun _ => sends_mappings.bind fun known => ?_
    split
    · exact sends_pure _
    · exact sends_ofClient (Client.sends_findItem t.client fun _ h => nomatch h)
  have hall : ∀ models, (t.typesAmong models).Sends fun r => ∀ ps, r ≠ .post ps := by
    intro models
    induction models with
    | nil => exact sends_pure _
    | cons model rest ih => exact (hfind model.name).bind fun item => ih.bind fun found => sends_pure _
  exact hall t.schema.models

variable {W : Type} {world : World W} {I : Mappings → W → Prop}

theorem Action.Maintains.map {α β : Type} {x : Action α} (hx : x.Maintains world I fun _ => True) (g : α → β) :
    (g <$> x).Maintains world I fun _ => True := by
  rw [map_eq_pure_bind]
  exact hx.bind fun _ _ => .of_pure True.intro

theorem Steady.rows (h : t.Steady world I) (model : String) (q : Query) :
    (t.rows model q).Maintains world I fun _ => True :=
  ((h.closed.select model q false).map _).bind fun text _ => (Maintains.of_keeps (h.query text)).bind fun _ _ =>
    (Maintains.of_except _).mono fun _ _ => trivial

theorem Steady.reads (h : t.Steady world I) {op : Operation} (hop : op.Reads) :
    (op.perform t).Maintains world I fun _ => True := by
  cases op with
  | rowsText model q => exact ((h.closed.select model q false).map _).map _
  | countText model q => exact ((h.closed.select model q true).map _).map _
  | rows model q => exact (h.rows model q).map _
  | count model q =>
    refine (((h.closed.select model q true).map _).bind fun text _ => ?_).map _
    exact (Maintains.of_keeps (h.query text)).bind fun _ _ => (Maintains.of_except _).mono fun _ _ => trivial
  | row model id =>
    refine ((h.rows model (rowQuery id)).bind fun stream _ => ?_).map _
    split
    · exact .of_pure trivial
    · exact ((Maintains.of_except _).mono fun _ _ => trivial).map _
  | property model field =>
    refine ((Maintains.of_except _).bind fun f hf => ?_).map _
    obtain ⟨fields, hfields, hmem, -⟩ := Schema.field_eq_ok hf
    exact h.closed.property f ⟨model, fields, hfields, hmem⟩
  | type model => exact (h.closed.typeItem model).map _
  | rowTypes model => exact (h.closed.rowTypes model).map _
  | storedModels | write | clear | logOut => exact hop.elim

/-! What keeps a condition when properties, items of models and solutions are found, and when nothing is made, keeps it
through all operations if it does so when the rows are made that the operation makes. -/

variable (h : t.Steady world I)
  (hclient : ∀ {α : Type} {x : Client.Action α}, x.Sends MakesNothing → ∀ m, Client.Keeps world (I m) x)

include h hclient

theorem Steady.update (model id : String) (values : Values) : (t.update model id values).Maintains world I fun _ => True := by
  rw [update_eq]
  refine (h.changesFor model id values (hclient (sends_getClaims t.client (.inl fun h => h)))).bind fun e _ => ?_
  refine (Maintains.of_keeps (hclient (sends_applyChanges_nothing t.client model id e.1 e.2))).bind fun results _ => ?_
  exact (Maintains.of_except _).mono fun _ _ => trivial

omit h in
theorem maintains_typesAmong (models : List Model) : (t.typesAmong models).Maintains world I fun _ => True := by
  induction models with
  | nil => exact .of_pure trivial
  | cons model rest ih =>
    have hfind : (t.findType model.name).Maintains world I fun _ => True := by
      refine (Maintains.of_except _).bind fun _ _ => .of_mappings fun known => ?_
      split
      · exact Maintains.of_pure trivial known
      · exact Maintains.of_keeps (hclient (Client.sends_findItem t.client (.inl fun h => h))) known
    exact hfind.bind fun item _ => ih.bind fun found _ => .of_pure trivial

theorem Steady.perform {op : Operation} (hop : op ≠ .clear) (hinsert : ∀ {model : String} {values : Values}
    {checked : CheckedValues}, op.Creates model → values.validate t.schema model true = .ok checked →
      (t.insert model checked).Maintains world I fun _ => True) : (op.perform t).Maintains world I fun _ => True := by
  cases op with
  | rowsText | countText | rows | count | row | property | type | rowTypes => exact h.reads trivial
  | storedModels => exact (maintains_typesAmong hclient t.schema.models).map _
  | write call =>
    cases call with
    | create model values => exact (h.create (hinsert rfl) values).bind fun _ _ => .of_pure trivial
    | createMany model rows => exact (h.createMany (hinsert rfl) rows).bind fun _ _ => .of_pure trivial
    | createWithKey model values key => exact (h.createWithKey (hinsert rfl) values key).bind fun _ _ => .of_pure trivial
    | update model id values => exact (h.update hclient model id values).bind fun _ _ => .of_pure trivial
    | delete id => exact .of_keeps (hclient (sends_delete t id))
  | clear => exact absurd rfl hop
  | logOut => exact .of_keeps (hclient sends_logOut)

end Performing

section Writing

theorem model_of_validate {model : String} {values : Values} {checked : CheckedValues} {creating : Bool}
    (h : values.validate t.schema model creating = .ok checked) : ∃ m ∈ t.schema.models, m.name = model := by
  obtain ⟨fields, hfields, -⟩ := Values.validate_eq_ok h
  obtain ⟨chain, hchain, -⟩ := Schema.ancestry_of_fields hfields
  have hchain := Schema.ancestry_eq_ok.1 hchain
  obtain ⟨m, hm, hname⟩ := hchain.mem_last
  exact ⟨m, hchain.subset hm, hname⟩

theorem steady_accounted (hreserved : t.reserved.instanceOf ∉ [t.reserved.subclassOf, t.reserved.tag])
    (creates : String → Prop) : t.Steady .noting fun m trace => InOrder (t.Accounted creates m) trace := by
  refine steady_of_inOrder hreserved (fun _ _ _ => .asks) (fun _ _ _ => .missing) ?_
  intro m m' before x htypes h
  cases h with
  | asks h => exact .asks h
  | missing h => exact .missing h
  | row h =>
    refine .row ?_
    generalize x.request = r at h ⊢
    cases h with
    | row token hmodel hcreates htype name statements =>
      exact .row token hmodel hcreates (htypes _ _ htype) name statements
  | claims h => exact .claims h

variable (hsteady : t.Steady .noting fun m trace => InOrder (t.Accounted creates m) trace)

include hsteady

theorem insert_accounted {model : String} (hcreates : creates model) {values : Values} {checked : CheckedValues}
    (hvalid : values.validate t.schema model true = .ok checked) :
    (t.insert model checked).Maintains .noting (fun m trace => InOrder (t.Accounted creates m) trace) fun _ => True := by
  have hname : freshName.Maintains .noting (fun m trace => InOrder (t.Accounted creates m) trace) fun _ => True := by
    intro m s trace h
    refine ensures_freshName.2 fun name later hlater => ?_
    obtain rfl := hlater
    exact ⟨h, fun _ _ => trivial⟩
  have hdata : (t.rowData model checked).Maintains .noting (fun m trace => InOrder (t.Accounted creates m) trace)
      fun _ => True := by
    refine (hsteady.closed.typeItem model).bind fun type _ => ?_
    refine (hsteady.closed.valueStatements model (Values.effective_of_validate hvalid)).bind fun statements _ => ?_
    exact hname.bind fun name _ => .of_pure trivial
  obtain ⟨model, hmodel, rfl⟩ := model_of_validate hvalid
  intro m s trace h
  rw [insert_eq]
  refine ((hdata m s trace h).and (t.gains_rowItem model.name checked)).bind (fun data m' s' later h' => ?_)
    fun e _ _ _ h' => ⟨h'.1.1, by simp⟩
  obtain ⟨⟨horder, -⟩, -, hrow⟩ := h'
  obtain ⟨name, type, statements, htype, rfl, -⟩ := hrow data rfl
  -- The data are those of a row of this model, so the write of them is accounted for.
  have hkeeps : Client.Keeps .noting (InOrder (t.Accounted creates m')) (t.client.createEntity .item (t.client.itemData
      (t.space.rowLabel model.name name) (t.rowStatements type ++ statements))) := by
    refine keeps_inOrder (Client.sends_makes t.client .item _) fun before x hx => ?_
    rcases hx with hx | ⟨token, hx⟩
    · exact .asks (not_isEdit_of_opensSession hx)
    · exact .row (hx ▸ .row token hmodel hcreates htype name statements)
  exact ensures_ofClient.2 ((hkeeps s' later horder).mono fun _ _ _ h => ⟨h, fun _ _ => trivial⟩)

end Writing

theorem perform_accounted (hreserved : t.reserved.instanceOf ∉ [t.reserved.subclassOf, t.reserved.tag]) (op : Operation)
    (m : Mappings) (s : Session) :
    (op.perform t).Ensures .noting m s [] fun _ m' _ trace => InOrder (t.Accounted op.Creates m') trace := by
  by_cases hop : op = .clear
  · subst hop
    exact InOrder.nil
  · have hsteady := steady_accounted hreserved op.Creates
    have hperform := hsteady.perform (fun hx m => keeps_inOrder hx fun _ _ hy => hy.elim .asks .claims) hop fun hcreates hvalid =>
      insert_accounted hsteady hcreates hvalid
    exact (hperform m s [] .nil).mono fun _ _ _ _ h => h.1

def LabelsRow (t : Tables) (model : String) (data : Json) : Prop :=
  ∃ name, data.get "labels" = Claim.labels t.client.language (t.space.rowLabel model name)

/--
That the data of a new item says what it is: it carries the tag of the namespace, and it is an instance of something only
if it is a row of one of some models, and then of the item of this model first.
-/
structure Marked (t : Tables) (creates : String → Prop) (m : Mappings) (data : Json) : Prop where
  tag : (t.reserved.tag, Claim.stringDatavalue t.space.tag) ∈ Export.facts data
  instance_iff : (∃ v, (t.reserved.instanceOf, v) ∈ Export.facts data) ↔
    ∃ model ∈ t.schema.models, creates model.name ∧ t.LabelsRow model.name data
  type : ∀ model ∈ t.schema.models, t.LabelsRow model.name data → ∃ i, m.types.lookup model.name = some i ∧
    (Export.facts data).lookup t.reserved.instanceOf = some (Claim.itemDatavalue i)

theorem marked_row {model : Model} (hnamed : ∀ model ∈ t.schema.models, Schema.isIdentifier model.name = true)
    (hmodel : model ∈ t.schema.models) (hcreates : creates model.name) {type : ItemId}
    (htype : m.types.lookup model.name = some type) (name : String) (statements : List Json) :
    t.Marked creates m (t.client.itemData (t.space.rowLabel model.name name) (t.rowStatements type ++ statements)) := by
  have hlabel : (t.client.itemData (t.space.rowLabel model.name name) (t.rowStatements type ++ statements)).get "labels" =
      Claim.labels t.client.language (t.space.rowLabel model.name name) := by
    simp [Client.itemData, Json.get_ofEntries, List.lookup_cons]
  refine ⟨?_, iff_of_true ⟨Claim.itemDatavalue type, ?_⟩ ⟨model, hmodel, hcreates, name, hlabel⟩, ?_⟩
  · simp [facts_rowStatements]
  · simp [facts_rowStatements]
  · rintro model' hmodel' ⟨name', hname'⟩
    have hsame : model.name = model'.name := Namespace.rowLabel_inj (hnamed model hmodel) (hnamed model' hmodel')
      (Claim.labels_inj (hlabel.symm.trans hname'))
    refine ⟨type, hsame ▸ htype, ?_⟩
    rw [facts_rowStatements]
    exact List.lookup_cons_self

theorem marked_type {model : Model} {data : Json}
    (hnamed : ∀ model ∈ t.schema.models, Schema.isIdentifier model.name = true) (hmodel : model ∈ t.schema.models)
    (hlabel : data.get "labels" = Claim.labels t.client.language (t.space.typeLabel model.name))
    (htag : (t.reserved.tag, Claim.stringDatavalue t.space.tag) ∈ Export.facts data)
    (hinstance : ∀ v, (t.reserved.instanceOf, v) ∉ Export.facts data) : t.Marked creates m data := by
  have hnot : ∀ model' ∈ t.schema.models, ¬t.LabelsRow model'.name data := by
    rintro model' hmodel' ⟨name, hname⟩
    have hrole : (Role.type t.space model.name).Named := hnamed model hmodel
    exact hrole.label_ne_rowLabel (hnamed model' hmodel') (Claim.labels_inj (hlabel.symm.trans hname))
  refine ⟨htag, iff_of_false (fun ⟨v, hv⟩ => hinstance v hv) ?_, fun model' hmodel' h => absurd h (hnot model' hmodel')⟩
  rintro ⟨model', hmodel', -, h⟩
  exact hnot model' hmodel' h

theorem Accounted.marked (hnamed : ∀ model ∈ t.schema.models, Schema.isIdentifier model.name = true)
    {before : List Exchange} {x : Exchange} (h : t.Accounted creates m before x) {ps : Parameters}
    (hx : x.request = .post ps) (haction : ps.action = "wbeditentity") (hnew : ps.text? "new" = some "item") :
    ∃ data, ps.json? "data" = some data ∧ t.Marked creates m data := by
  cases h with
  | asks h => simp [IsEdit, hx, haction] at h
  | claims h => simp [Alters, hx, haction] at h
  | missing h =>
    rw [hx] at h
    cases h with
    | property token hlabel hsearched => exact absurd (Option.some.inj hnew) (by decide)
    | type token hmodel hlabel hsearched htag hinstance =>
      exact ⟨_, rfl, marked_type hnamed hmodel hlabel htag hinstance⟩
  | row h =>
    rw [hx] at h
    cases h with
    | row token hmodel hcreates htype name statements =>
      exact ⟨_, rfl, marked_row hnamed hmodel hcreates htype name statements⟩

/--
However the store answers: an operation that reads sends no edit but to make a property, or the item of a model, whose
label it looked up before in vain; asking for the models that have items posts nothing. And every item that an operation
makes carries the tag of the namespace, and it is an instance of something if and only if it is a row of a model that the
operation makes rows of, and then first of the item that is known for this model.
-/
theorem creations_accounted {models : List Model} (hschema : Schema.ofModels models = .ok t.schema)
    (hreserved : [t.reserved.instanceOf, t.reserved.subclassOf, t.reserved.tag, t.reserved.deleted].Nodup)
    (op : Operation) (m : Mappings) (s : Session) :
    (op.perform t).Ensures .noting m s [] fun _ m' _ trace =>
      (op.Reads → InOrder (fun before x => IsEdit x.request → t.MakesMissing before x.request) trace) ∧
      (op = .storedModels → ∀ x ∈ trace, ∀ ps, x.request ≠ .post ps) ∧
      ∀ x ∈ trace, ∀ ps, x.request = .post ps → ps.action = "wbeditentity" → ps.text? "new" = some "item" →
        ∃ data, ps.json? "data" = some data ∧ t.Marked op.Creates m' data := by
  have hinstance : t.reserved.instanceOf ∉ [t.reserved.subclassOf, t.reserved.tag] := fun h =>
    (List.nodup_cons.1 hreserved).1 (List.mem_of_mem_take (i := 2) h)
  by_cases hop : op = .storedModels
  · subst hop
    have hposts : (Operation.storedModels.perform t).Sends fun r => ∀ ps, r ≠ .post ps := by
      have h := (sends_storedModels t).bind (f := fun _ => pure ()) fun _ => sends_pure ()
      rwa [← map_eq_pure_bind] at h
    refine (hposts.ensures m s []).mono ?_
    rintro r m' s' _ ⟨more, rfl, hmore⟩
    exact ⟨fun h => h.elim, fun _ x hx => hmore x hx, fun x hx ps hps => absurd hps (hmore x hx ps)⟩
  · have hnamed : ∀ model ∈ t.schema.models, Schema.isIdentifier model.name = true := fun model hmodel =>
      Schema.isIdentifier_of_ofModels hschema hmodel
    have hreads : (op.perform t).Ensures .noting m s [] fun _ _ _ trace =>
        op.Reads → InOrder (fun before x => IsEdit x.request → t.MakesMissing before x.request) trace := by
      refine Action.Ensures.imp fun hreads => ?_
      have hsteady : t.Steady .noting fun _ trace =>
          InOrder (fun before x => IsEdit x.request → t.MakesMissing before x.request) trace :=
        steady_of_inOrder hinstance (fun _ _ _ hask hedit => absurd hedit hask) (fun _ _ _ h _ => h) fun _ h => h
      exact (hsteady.reads hreads m s [] .nil).mono fun _ _ _ _ h => h.1
    refine (hreads.and (perform_accounted hinstance op m s)).mono fun r m' s' trace h => ⟨h.1, fun h => absurd h hop, ?_⟩
    intro x hx ps hps haction hnew
    obtain ⟨before, after, rfl⟩ := List.append_of_mem hx
    exact (h.2 before x after rfl).marked hnamed hps haction hnew

section Scripted

def makeAuthor : Operation :=
  .write (.create "Author" [("name", .text "Ada")])

def authorMade : Conversation :=
  .start ([foundReply "Q10" "Person in test", noneFound] ++ loginReplies ++ [madeReply "Q11",
    foundReply "P5" "Person.name in test", madeReply "Q12"]) 0 "0"

def makesItem (x : Exchange) : Bool :=
  match x.request with
  | .post ps => ps.action = "wbeditentity" && ps.text? "new" = some "item"
  | _ => false

theorem creations_accounted_author : Schema.ofModels authorTables.schema.models = .ok authorTables.schema ∧
    [authorTables.reserved.instanceOf, authorTables.reserved.subclassOf, authorTables.reserved.tag,
      authorTables.reserved.deleted].Nodup ∧
    ((makeAuthor.perform authorTables).follow .empty .fresh authorMade).1 = .ok () ∧
    (((makeAuthor.perform authorTables).follow .empty .fresh authorMade).2.filter makesItem).length = 2 ∧
    ∃ m, ∀ x ∈ ((makeAuthor.perform authorTables).follow .empty .fresh authorMade).2, ∀ ps, x.request = .post ps →
      ps.action = "wbeditentity" → ps.text? "new" = some "item" →
        ∃ data, ps.json? "data" = some data ∧ authorTables.Marked (· = "Author") m data := by
  have hschema : Schema.ofModels authorTables.schema.models = .ok authorTables.schema := rfl
  have hreserved : [authorTables.reserved.instanceOf, authorTables.reserved.subclassOf, authorTables.reserved.tag,
      authorTables.reserved.deleted].Nodup := by decide
  have hmarked := (creations_accounted hschema hreserved makeAuthor .empty .fresh).mono
    (Q := fun _ _ _ trace => ∃ m, ∀ x ∈ trace, ∀ ps, x.request = .post ps → ps.action = "wbeditentity" →
      ps.text? "new" = some "item" → ∃ data, ps.json? "data" = some data ∧ authorTables.Marked (· = "Author") m data)
    fun _ m _ _ h => ⟨m, h.2.2⟩
  exact ⟨hschema, hreserved, by decide +kernel, by decide +kernel, hmarked.follow authorMade⟩

end Scripted

end ClaimTables.Tables
