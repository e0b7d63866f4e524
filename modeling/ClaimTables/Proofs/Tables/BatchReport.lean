import ClaimTables.Proofs.Client.Accepted
import ClaimTables.Proofs.Tables.Batches
import ClaimTables.Proofs.Tables.Lineage
import ClaimTables.Tables.Connection

/-!
What a batch reports of its rows. Main statement: no row is made before all have passed their checks; then the rows are
made in turn, with one write each, up to the first that fails, and the result gives the identifiers that the store has
told of the rows that were made.
-/

namespace ClaimTables.Tables

open Tables.Action Client

variable {t : Tables} {model : String} {m m' : Mappings} {s s' : Session} {exchanged : List Exchange}

def CreatesRow (t : Tables) (r : Request) : Prop :=
  ∃ ps kind data type, r = .post ps ∧ StoreEdit.ofParameters? ps = some (.make kind data) ∧
    (t.reserved.instanceOf, Claim.itemDatavalue type) ∈ Export.facts data

/-- A request that looks something up or makes a property or the item of a model, and that makes no row. -/
def Readies (t : Tables) (r : Request) : Prop :=
  t.Prepares r ∧ ¬t.CreatesRow r

def checkRows (t : Tables) (model : String) (rows : List Values) : Action (List CheckedValues) := do
  let checked ← t.prepareAll model rows
  Action.ofExcept (CheckedValues.checkBatch model checked)
  pure checked

theorem createMany_eq (t : Tables) (model : String) (rows : List Values) :
    t.createMany model rows = t.checkRows model rows >>= t.insertAll model [] := by
  simp only [createMany, checkRows, bind_assoc, pure_bind]

theorem findReserved_goes {c : Client} {p q : PropertyId} {r : Reserved}
    (h : (findReserved c p q).Goes m s exchanged (.ok r) m' s') : r.instanceOf = p ∧ r.subclassOf = q := by
  rcases goes_bind.1 h with ⟨tag, _, _, _, _, -, h, -⟩ | ⟨e, -, he⟩
  · rcases goes_bind.1 h with ⟨deleted, _, _, _, _, -, h, -⟩ | ⟨e, -, he⟩
    · obtain ⟨-, hr, -⟩ := goes_pure.1 h
      obtain rfl := Except.ok.inj hr
      exact ⟨rfl, rfl⟩
    · cases he
  · cases he

theorem distinct_of_openWith {c : Client} {settings : Settings} {schema : Schema}
    (h : (openWith c settings schema).Goes m s exchanged (.ok t) m' s') :
    t.reserved.instanceOf ≠ t.reserved.subclassOf := by
  rcases goes_bind.1 h with ⟨_, _, _, _, _, hvalid, h, -⟩ | ⟨e, -, he⟩
  · have hvalid := (goes_ofExcept.1 hvalid).2.1
    rcases goes_bind.1 h with ⟨base, _, _, _, _, -, h, -⟩ | ⟨e, -, he⟩
    · rcases goes_bind.1 h with ⟨reserved, _, _, _, _, hreserved, h, -⟩ | ⟨e, -, he⟩
      · obtain rfl := Except.ok.inj (goes_pure.1 h).2.1
        obtain ⟨hinstanceOf, hsubclassOf⟩ := findReserved_goes hreserved
        rw [hinstanceOf, hsubclassOf]
        exact fun heq => (Settings.validate_eq_ok_iff.1 hvalid.symm).2.2.1 (PropertyId.mk.inj heq)
      · cases he
    · cases he
  · cases he

theorem itemDatavalue_ne_string (i : ItemId) (text : String) : Claim.itemDatavalue i ≠ Claim.stringDatavalue text := by
  intro h
  have htype := congrArg (fun datavalue : Json => datavalue.get "type") h
  simp [Claim.itemDatavalue, Claim.stringDatavalue, Claim.get_typed_type] at htype

theorem Prepares.not_createsRow (hreserved : t.reserved.instanceOf ≠ t.reserved.subclassOf) {r : Request}
    (h : t.Prepares r) : ¬t.CreatesRow r := by
  rintro ⟨ps, kind, data, type, rfl, hread, hfact⟩
  generalize hr : Request.post ps = r at h
  -- The data of a row name its type. Those of a property have no facts, those of a type its tag and its parent.
  cases h with
  | session h =>
    cases h with
    | token kind => cases hr
    | logIn c token =>
      obtain rfl := Request.post.inj hr
      cases hread
  | search label kind | query text => cases hr
  | property token key datatype =>
    obtain rfl := Request.post.inj hr
    rw [StoreEdit.ofParameters?_createEntity] at hread
    cases hread
    have hfacts : Export.facts (t.client.propertyData (t.space.propertyLabel key.model key.field) datatype) = [] := by
      simp [Export.facts, propertyData, Json.get_ofEntries, List.lookup_cons, Json.items]
    rw [hfacts] at hfact
    cases hfact
  | type token model parent =>
    obtain rfl := Request.post.inj hr
    rw [StoreEdit.ofParameters?_createEntity] at hread
    cases hread
    rw [facts_typeData] at hfact
    rcases List.mem_cons.1 hfact with hfact | hfact
    · exact itemDatavalue_ne_string _ _ (Prod.mk.inj hfact).2
    · cases parent with
      | none => cases hfact
      | some i => exact hreserved (Prod.mk.inj (List.mem_singleton.1 hfact)).1

def Describes (t : Tables) (model : String) (values : CheckedValues) (m : Mappings) (data : Json) : Prop :=
  ∃ name type, m.types.lookup model = some type ∧
    ∀ property : FieldKey → PropertyId, (∀ k p, m.fields.lookup k = some p → property k = p) →
      data = t.client.itemData (t.space.rowLabel model name) (t.rowStatements type ++ statementsOf property values)

/--
What is exchanged for a row that is made. First its data are put together, for which no row is made; unless that fails,
there is one write of them. The store accepts it once at most, and the result is the identifier that its answer tells.
-/
inductive RowWrite (t : Tables) (model : String) (values : CheckedValues) (m : Mappings) (s : Session) :
    List Exchange → Except Error String → Mappings → Session → Prop
  | unprepared {lookups : List Exchange} {e : Error} {m' : Mappings} {s' : Session}
    (h : (t.rowData model values).Goes m s lookups (.error e) m' s') (hlookups : ∀ x ∈ lookups, t.Readies x.request) :
    RowWrite t model values m s lookups (.error e) m' s'
  | written {lookups sent : List Exchange} {data : Json} {answer : Option Json} {r : Except Error String} {m' : Mappings}
    {s₁ s' : Session} (h : (t.rowData model values).Goes m s lookups (.ok data) m' s₁)
    (hlookups : ∀ x ∈ lookups, t.Readies x.request) (hdata : t.Describes model values m' data)
    (hcreates : ∀ token, t.CreatesRow (.post (signed token (createEntityParameters .item data))))
    (hwrite : (t.client.createEntity .item data).Goes s₁ sent r s')
    (hwrote : Wrote (createEntityParameters .item data) (.make EntityKind.item.name data) sent answer)
    (hid : r.toOption = answer.bind (textAt ["entity", "id"])) :
    RowWrite t model values m s (lookups ++ sent) r m' s'

/-- Rows that are made in turn up to the first that fails, with what is exchanged, their identifiers and the failure. -/
inductive Inserted (t : Tables) (model : String) : List CheckedValues → Mappings → Session → List Exchange →
    List String → Option Error → Mappings → Session → Prop
  | done (m : Mappings) (s : Session) : Inserted t model [] m s [] [] none m s
  | failed {values : CheckedValues} {rest : List CheckedValues} {m m' : Mappings} {s s' : Session}
    {exchanged : List Exchange} {e : Error} (h : t.RowWrite model values m s exchanged (.error e) m' s') :
    Inserted t model (values :: rest) m s exchanged [] (some e) m' s'
  | made {values : CheckedValues} {rest : List CheckedValues} {m m₁ m' : Mappings} {s s₁ s' : Session}
    {first more : List Exchange} {id : String} {ids : List String} {ending : Option Error}
    (h : t.RowWrite model values m s first (.ok id) m₁ s₁) (hrest : Inserted t model rest m₁ s₁ more ids ending m' s') :
    Inserted t model (values :: rest) m s (first ++ more) (id :: ids) ending m' s'

theorem Inserted.length {rows : List CheckedValues} {ids : List String} {ending : Option Error}
    (h : t.Inserted model rows m s exchanged ids ending m' s') :
    (ending = none → ids.length = rows.length) ∧ (ending ≠ none → ids.length < rows.length) := by
  induction h with
  | done => simp
  | failed => simp
  | made _ _ ih => exact ⟨fun h => by simpa using ih.1 h, fun h => by simpa using ih.2 h⟩

/-- The checks of a batch fail as one of their requests did, or by themselves; the error then tells of no row that was made. -/
theorem fails_checkRows {E : Error → Prop} (hE : ∀ e, e.IsSingle → E e) (t : Tables) (model : String)
    (rows : List Values) : (t.checkRows model rows).Fails E := by
  have hclosed := closed_fails (t := t) hE
  have hprepare : (t.prepareAll model rows).Fails E := by
    induction rows with
    | nil => exact fails_pure _
    | cons values rest ih =>
      have hchecked : (t.prepare model values).Fails E :=
        hclosed.except_bind (ofSchema_validate t.schema model values true) fun checked _ =>
          (hclosed.checkUnique none checked).bind fun _ => fails_pure _
      exact hchecked.bind fun checked => ih.bind fun _ => fails_pure _
  exact hprepare.bind fun checked =>
    hclosed.except_bind (CheckedValues.ofSchema_checkBatch model checked) fun _ _ => fails_pure _

section Batch

variable (hreserved : t.reserved.instanceOf ≠ t.reserved.subclassOf)

theorem createsRow_itemData (t : Tables) (token : Token) (label : String) (type : ItemId) (statements : List Json) :
    t.CreatesRow (.post (signed token (createEntityParameters .item (t.client.itemData label
      (t.rowStatements type ++ statements))))) := by
  refine ⟨_, _, _, type, rfl, StoreEdit.ofParameters?_createEntity token .item _, ?_⟩
  rw [facts_rowStatements]
  exact List.mem_cons_self

include hreserved

theorem steady_readies : t.Steady World.noting fun _ trace => ∀ x ∈ trace, t.Readies x.request :=
  steady_of_prepares fun _ h => ⟨h, h.not_createsRow hreserved⟩

theorem rowData_readies {values : CheckedValues} (hvalues : ∀ e ∈ values, t.schema.Effective e.1) {r : Except Error Json}
    (h : (t.rowData model values).Goes m s exchanged r m' s') : ∀ x ∈ exchanged, t.Readies x.request := by
  have hclosed := (steady_readies hreserved).closed
  have hname : freshName.Maintains World.noting (fun _ trace => ∀ x ∈ trace, t.Readies x.request) fun _ => True :=
    fun m s trace htrace => ensures_freshName.2 fun name later hlater =>
      ⟨(show later = trace from hlater) ▸ htrace, fun _ _ => True.intro⟩
  have hdata : (t.rowData model values).Maintains World.noting (fun _ trace => ∀ x ∈ trace, t.Readies x.request)
      fun _ => True :=
    (hclosed.typeItem model).bind fun type _ => (hclosed.valueStatements model hvalues).bind fun statements _ =>
      hname.bind fun name _ => .of_pure True.intro
  exact (Ensures.goes (hdata m s [] (List.forall_mem_nil _)) h).1

theorem insert_rowWrite {values : CheckedValues} (hvalues : ∀ e ∈ values, t.schema.Effective e.1) {r : Except Error String}
    (h : (t.insert model values).Goes m s exchanged r m' s') : t.RowWrite model values m s exchanged r m' s' := by
  rw [insert_eq] at h
  rcases goes_bind.1 h with ⟨data, m₁, s₁, lookups, sent, hdata, hsent, rfl⟩ | ⟨e, hfailed, rfl⟩
  · obtain ⟨hwrite, rfl⟩ := goes_ofClient.1 hsent
    obtain ⟨answer, hwrote, hid⟩ := createEntity_wrote hwrite
    obtain ⟨name, type, statements, htype, hitem, -, hstatements⟩ :=
      (Ensures.goes (t.gains_rowItem model values) hdata).2 data rfl
    refine .written hdata (rowData_readies hreserved hvalues hdata) ⟨name, type, htype, fun property hproperty => ?_⟩
      (fun token => hitem ▸ t.createsRow_itemData token _ type statements) hwrite hwrote hid
    rw [hitem, hstatements property hproperty]
  · exact .unprepared hfailed (rowData_readies hreserved hvalues hfailed)

theorem insertAll_inserted {rows : List CheckedValues} (hrows : ∀ values ∈ rows, ∀ e ∈ values, t.schema.Effective e.1)
    {created : List String} {r : Except Error (List String)}
    (h : (t.insertAll model created rows).Goes m s exchanged r m' s') :
    ∃ ids ending, t.Inserted model rows m s exchanged ids ending m' s' ∧
      r = match ending with
        | none => .ok (created ++ ids)
        | some e => .error (batchError model (created ++ ids) e) := by
  induction rows generalizing created m s exchanged with
  | nil =>
    obtain ⟨rfl, rfl, rfl, rfl⟩ := goes_pure.1 h
    exact ⟨[], none, .done _ _, by simp⟩
  | cons values rest ih =>
    rw [List.forall_mem_cons] at hrows
    rcases goes_bind.1 h with ⟨result, m₁, s₁, first, more, hfirst, hmore, rfl⟩ | ⟨e, hfailed, -⟩
    · obtain ⟨result, hinsert, ⟨⟩⟩ := goes_outcome.1 hfirst
      have hwrite := insert_rowWrite hreserved hrows.1 hinsert
      cases result with
      | ok id =>
        obtain ⟨ids, ending, hinserted, rfl⟩ := ih hrows.2 hmore
        refine ⟨id :: ids, ending, .made hwrite hinserted, ?_⟩
        simp only [List.append_assoc, List.singleton_append]
      | error e =>
        obtain ⟨rfl, rfl, rfl, rfl⟩ := goes_throw.1 hmore
        rw [List.append_nil]
        exact ⟨[], some e, .failed hwrite, by simp⟩
    · obtain ⟨result, -, hok⟩ := goes_outcome.1 hfailed
      cases hok

theorem checkRows_readies (model : String) (rows : List Values) :
    (t.checkRows model rows).Maintains World.noting (fun _ trace => ∀ x ∈ trace, t.Readies x.request) fun checked =>
      List.Forall₂ (fun values checked => values.validate t.schema model true = .ok checked) rows checked ∧
        CheckedValues.checkBatch model checked = .ok () ∧ ∀ values ∈ checked, ∀ e ∈ values, t.schema.Effective e.1 := by
  have hprepared : (t.prepareAll model rows).Maintains World.noting (fun _ trace => ∀ x ∈ trace, t.Readies x.request)
      fun checked => List.Forall₂ (fun values checked => values.validate t.schema model true = .ok checked) rows checked ∧
        ∀ values ∈ checked, ∀ e ∈ values, t.schema.Effective e.1 := by
    intro m s trace htrace
    refine (((steady_readies hreserved).prepareAll model rows m s trace htrace).and
      (prepareAll_valid t model rows m s trace True.intro)).mono ?_
    rintro r m' s' later ⟨⟨hreadies, hsome⟩, -, hvalid⟩
    refine ⟨hreadies, fun checked hchecked => ⟨hvalid checked hchecked, fun values hvalues => ?_⟩⟩
    obtain ⟨given, hgiven⟩ := hsome checked hchecked values hvalues
    exact Values.effective_of_validate hgiven
  refine hprepared.bind fun checked hchecked => (Maintains.of_except _).bind fun _ hbatch => ?_
  exact .of_pure ⟨hchecked.1, hbatch, hchecked.2⟩

end Batch

/--
However the store answers, a batch first has all its rows checked, by themselves, against the store and against each
other; until then no row is made, and if a check fails, so does the batch. Then the rows are made in their order, each by
one write, up to the first that fails. The result is one identifier for each row; or, if a row fails, its error, together
with the identifiers of the rows before it if there are any.
-/
theorem createMany_reports (t : Tables) (hreserved : t.reserved.instanceOf ≠ t.reserved.subclassOf) (model : String)
    (rows : List Values) (m : Mappings) (s : Session) :
    (t.createMany model rows).Ensures .noting m s [] fun r m' s' trace =>
      ∃ before after found m₁ s₁, trace = before ++ after ∧ (t.checkRows model rows).Goes m s before found m₁ s₁ ∧
        (∀ x ∈ before, t.Readies x.request) ∧
        match found with
        | .error e => after = [] ∧ r = .error e
        | .ok checked =>
          List.Forall₂ (fun values checked => values.validate t.schema model true = .ok checked) rows checked ∧
          CheckedValues.checkBatch model checked = .ok () ∧
          ∃ ids ending, t.Inserted model checked m₁ s₁ after ids ending m' s' ∧
            match ending with
            | none => ids.length = rows.length ∧ r = .ok ids
            | some e => ids.length < rows.length ∧ r = .error (if ids = [] then e else .partialBatch model ids e) := by
  refine ensures_of_goes fun trace r m' s' hgoes => ?_
  rw [createMany_eq] at hgoes
  have hchecks := checkRows_readies hreserved model rows m s [] (List.forall_mem_nil _)
  rcases goes_bind.1 hgoes with ⟨checked, m₁, s₁, before, after, hfound, hinserts, rfl⟩ | ⟨e, hfailed, rfl⟩
  · obtain ⟨hreadies, hchecked⟩ := Ensures.goes hchecks hfound
    obtain ⟨hvalid, hbatch, hrows⟩ := hchecked checked rfl
    obtain ⟨ids, ending, hinserted, rfl⟩ := insertAll_inserted hreserved hrows hinserts
    refine ⟨before, after, _, m₁, s₁, rfl, hfound, hreadies, hvalid, hbatch, ids, ending, hinserted, ?_⟩
    have hlength := hinserted.length
    rw [← hvalid.length_eq] at hlength
    cases ending with
    | none => exact ⟨hlength.1 rfl, rfl⟩
    | some e => exact ⟨hlength.2 (Option.some_ne_none e), by simp [batchError]⟩
  · obtain ⟨hreadies, -⟩ := Ensures.goes hchecks hfailed
    exact ⟨trace, [], _, _, _, by simp, hfailed, hreadies, rfl, rfl⟩

@[irreducible]
def twoPersons : List Values :=
  [[("age", .number (.ofDecimal false ⟨36, 0⟩)), ("name", .text "Ada")], [("name", .text "Grace")]]

/-- Nobody has either name; then the first row is made and the second is turned down. -/
def graceTurnedDown : Conversation :=
  .start ([foundReply "Q10" "Person in test", foundReply "P5" "Person.name in test", foundReply "P6" "Person.age in test",
    answerReply [], answerReply []] ++ loginReplies ++
    [madeReply "Q12", errorReply "modification-failed" "Malformed"]) 0 "0"

def onlyAda : Except Error (List String) :=
  .error (.partialBatch "Person" ["Q12"] (.remoteWrite none "modification-failed" "Malformed"))

theorem createMany_reports_persons : namedAndAged.reserved.instanceOf ≠ namedAndAged.reserved.subclassOf ∧
    ∃ before after checked m₁ s₁ m' s',
      (namedAndAged.createMany "Person" twoPersons).follow .empty .fresh graceTurnedDown = (onlyAda, before ++ after) ∧
      (namedAndAged.checkRows "Person" twoPersons).Goes .empty .fresh before (.ok checked) m₁ s₁ ∧
      (∀ x ∈ before, namedAndAged.Readies x.request) ∧
      List.Forall₂ (fun values checked => Values.validate namedAndAged.schema "Person" values true = .ok checked)
        twoPersons checked ∧
      CheckedValues.checkBatch "Person" checked = .ok () ∧
      ∃ ids e, namedAndAged.Inserted "Person" checked m₁ s₁ after ids (some e) m' s' ∧
        onlyAda = .error (if ids = [] then e else .partialBatch "Person" ids e) := by
  have hreserved : namedAndAged.reserved.instanceOf ≠ namedAndAged.reserved.subclassOf := by decide
  have hrun := (createMany_reports namedAndAged hreserved "Person" twoPersons .empty .fresh).followed graceTurnedDown
  have hresult : ((namedAndAged.createMany "Person" twoPersons).follow .empty .fresh graceTurnedDown).1 = onlyAda := by
    decide +kernel
  have hok : ∀ x ∈ ((namedAndAged.createMany "Person" twoPersons).follow .empty .fresh graceTurnedDown).2,
      x.reply.isOk = true := by decide +kernel
  generalize (namedAndAged.createMany "Person" twoPersons).follow .empty .fresh graceTurnedDown = run at hrun hresult hok ⊢
  obtain ⟨r, trace⟩ := run
  obtain rfl : r = onlyAda := hresult
  obtain ⟨m', s', before, after, found, m₁, s₁, htrace, hfound, hreadies, hends⟩ := hrun
  obtain rfl : trace = before ++ after := htrace
  cases found with
  | error e =>
    obtain ⟨-, he⟩ := hends
    have hsingle : e.IsSingle := by
      refine (fails_checkRows (fun _ h => h) namedAndAged "Person" twoPersons).goes hfound (fun x hx _ hfailed => ?_) _ rfl
      have hreply := hok x (List.mem_append_left _ hx)
      rw [hfailed] at hreply
      cases hreply
    cases Except.error.inj he
    exact hsingle.elim
  | ok checked =>
    obtain ⟨hvalid, hbatch, ids, ending, hinserted, hreport⟩ := hends
    cases ending with
    | none => exact nomatch hreport.2
    | some e =>
      exact ⟨hreserved, before, after, checked, m₁, s₁, m', s', rfl, hfound, hreadies, hvalid, hbatch, ids, e, hinserted,
        hreport.2⟩

end ClaimTables.Tables
