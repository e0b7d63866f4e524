import ClaimTables.Proofs.Client.Noting
import ClaimTables.Proofs.Tables.Lookups

/-!
The items of models follow the schema. The item of a model is looked for, and made if it is missing, after the items of
all models above it; a new item is a subclass of that of its parent. As long as nothing is forgotten each model has one
item, and the rows of a model are instances of its own item and of those of its descendants.
-/

namespace ClaimTables.Tables

open Tables.Action

variable {t : Tables} {m m₀ m' : Mappings} {s : Session} {trace later : List Exchange} {model : String} {i : ItemId}
  {parent : Option ItemId}

/-- That the item of a model was told: it was found by its label, or it was made. -/
inductive TellsItem (t : Tables) (model : String) (i : ItemId) (trace : List Exchange) : Prop
  | found {id : String} (h : t.client.Searched (t.space.typeLabel model) .item [id] trace)
    (hid : ItemId.ofText? id = some i)
  | made {parent : Option ItemId} {id : String} (h : Client.WasMade .item
    (t.client.itemData (t.space.typeLabel model) (t.typeStatements parent)) id trace) (hid : ItemId.ofText? id = some i)

theorem TellsItem.mono (h : t.TellsItem model i trace) (hstart : trace <+: later) : t.TellsItem model i later := by
  cases h with
  | found h hid => exact .found (h.mono hstart) hid
  | made h hid => exact .made (h.mono hstart) hid

theorem findOrCreateType_inOrder {P : List Exchange → Exchange → Prop} (h : InOrder P trace)
    (hP : t.client.Follows P trace (t.space.typeLabel model) .item
      (t.client.itemData (t.space.typeLabel model) (t.typeStatements parent))) (s : Session) :
    (t.findOrCreateType model parent).Ensures .noting s trace fun r _ later =>
      trace <+: later ∧ InOrder P later ∧ ∀ i, r = .ok i → t.TellsItem model i later := by
  have hfind : (t.client.findItem (t.space.typeLabel model) model).Sends
      (· = .get (t.client.searchParameters (t.space.typeLabel model) .item)) := Client.sends_findItem t.client rfl
  refine ((hfind.inOrder s h hP.search).and (Client.findItem_noted t.client _ model s trace)).bind
    (fun found s' later h' => ?_) fun e _ _ h' => ⟨h'.1.1, h'.1.2, by simp⟩
  obtain ⟨⟨hstart, horder⟩, hnone, hsome⟩ := h'
  split
  · next i =>
    refine ⟨hstart, horder, fun j hj => ?_⟩
    obtain rfl := Except.ok.inj hj
    obtain ⟨id, hsearched, hid⟩ := hsome i rfl
    exact .found hsearched hid
  · have hmake := (Client.sends_makes t.client .item (t.client.itemData (t.space.typeLabel model)
      (t.typeStatements parent))).inOrder s' horder fun before hbefore x hx =>
        hP.make before (hstart.trans hbefore) ((hnone rfl).mono hbefore) x hx
    refine (hmake.and (Client.createEntity_noted t.client .item _ s' later)).bind (fun id s'' last h'' => ?_)
      fun e _ _ h'' => ⟨hstart.trans h''.1.1, h''.1.2, by simp⟩
    refine Client.Action.ensures_liftExcept.2 ⟨hstart.trans h''.1.1, h''.1.2, fun i hi => ?_⟩
    unfold Client.readItem at hi
    split at hi
    · next j hj =>
      obtain rfl := Except.ok.inj hi
      exact .made (h''.2 id rfl) hj
    · cases hi

theorem facts_typeData (t : Tables) (label : String) (parent : Option ItemId) :
    Export.facts (t.client.itemData label (t.typeStatements parent)) =
      (t.reserved.tag, Claim.stringDatavalue t.space.tag) ::
        (parent.map fun i => (t.reserved.subclassOf, Claim.itemDatavalue i)).toList := by
  rw [facts_of_statements]
  cases parent <;> simp [typeStatements, Export.fact?_statement]

section Call

/-- That a call has the item of a model: it was known before, or it was told in the call. -/
def Resolved (t : Tables) (m₀ : Mappings) (trace : List Exchange) (model : String) (i : ItemId) : Prop :=
  m₀.types.lookup model = some i ∨ t.TellsItem model i trace

theorem Resolved.mono (h : t.Resolved m₀ trace model i) (hstart : trace <+: later) :
    t.Resolved m₀ later model i :=
  h.imp_right fun h => h.mono hstart

def Settled (t : Tables) (m₀ m : Mappings) (trace : List Exchange) (above : List Model) : Prop :=
  ∀ b ∈ above, ∃ i, t.Resolved m₀ trace b.name i ∧ m.types.lookup b.name = some i

/-- What a new item says that it is a subclass of: of nothing without a parent, else of the parent's item. -/
inductive Links (t : Tables) (m₀ m : Mappings) (before : List Exchange) : Option String → List (PropertyId × Json) → Prop
  | root : Links t m₀ m before none []
  | child {parent : String} {i : ItemId} (h : t.Resolved m₀ before parent i) (hknown : m.types.lookup parent = some i) :
    Links t m₀ m before (some parent) [(t.reserved.subclassOf, Claim.itemDatavalue i)]

/--
That an exchange has its place on the way down a chain of models: a model is looked for, or its item is made, when all
models above it have theirs.
-/
inductive Descends (t : Tables) (chain : List Model) (m₀ m : Mappings) (before : List Exchange) (x : Exchange) : Prop
  | session (h : Client.OpensSession x.request)
  | search {above rest : List Model} {a : Model} (hchain : chain = above ++ a :: rest)
    (habove : t.Settled m₀ m before above)
    (h : x.request = .get (t.client.searchParameters (t.space.typeLabel a.name) .item))
  | make {above rest : List Model} {a : Model} {token : Token} {data : Json} (hchain : chain = above ++ a :: rest)
    (habove : t.Settled m₀ m before above)
    (h : x.request = .post (Client.signed token (Client.createEntityParameters .item data)))
    (hlabel : data.get "labels" = Claim.labels t.client.language (t.space.typeLabel a.name))
    (hlinks : t.Links m₀ m before a.parent ((Export.facts data).filter (·.1 = t.reserved.subclassOf)))

theorem Settled.mono {above : List Model} (h : t.Settled m₀ m trace above) (hstart : trace <+: later)
    (hwithin : m.Within m') : t.Settled m₀ m' later above := by
  intro b hb
  obtain ⟨i, hi, hknown⟩ := h b hb
  exact ⟨i, hi.mono hstart, hwithin.types _ _ hknown⟩

theorem Links.within {before : List Exchange} {name : Option String} {facts : List (PropertyId × Json)}
    (h : t.Links m₀ m before name facts) (hwithin : m.Within m') : t.Links m₀ m' before name facts := by
  cases h with
  | root => exact .root
  | child h hknown => exact .child h (hwithin.types _ _ hknown)

theorem Descends.within {chain : List Model} {before : List Exchange} {x : Exchange}
    (h : t.Descends chain m₀ m before x) (hwithin : m.Within m') : t.Descends chain m₀ m' before x := by
  cases h with
  | session h => exact .session h
  | search hchain habove h => exact .search hchain (habove.mono List.prefix_rfl hwithin) h
  | make hchain habove h hlabel hlinks =>
    exact .make hchain (habove.mono List.prefix_rfl hwithin) h hlabel (hlinks.within hwithin)

/-- The state of a call on its way down: what is known is accounted for, and all that was exchanged had its place. -/
structure Descending (t : Tables) (chain : List Model) (m₀ m : Mappings) (trace : List Exchange) : Prop where
  known : ∀ n i, m.types.lookup n = some i → t.Resolved m₀ trace n i
  exchanged : InOrder (t.Descends chain m₀ m) trace

theorem Descending.settled {chain above : List Model} (h : t.Descending chain m₀ m trace)
    (habove : ∀ b ∈ above, ∃ i, m.types.lookup b.name = some i) : t.Settled m₀ m trace above := by
  intro b hb
  obtain ⟨i, hi⟩ := habove b hb
  exact ⟨i, h.known _ _ hi, hi⟩

theorem links_typeData (htag : t.reserved.tag ≠ t.reserved.subclassOf) {name : String} {chain above rest : List Model}
    {a : Model} (hchain : t.schema.Chain name chain) (heq : chain = above ++ a :: rest)
    (habove : t.Settled m₀ m trace above) (hparent : parent = above.getLast?.bind fun b => m.types.lookup b.name)
    (label : String) : t.Links m₀ m trace a.parent
      ((Export.facts (t.client.itemData label (t.typeStatements parent))).filter (·.1 = t.reserved.subclassOf)) := by
  subst heq
  rw [facts_typeData, List.filter_cons_of_neg (by simpa using htag), hchain.parent_of_append]
  cases hlast : above.getLast? with
  | none =>
    obtain rfl : parent = none := by rw [hparent, hlast]; rfl
    exact .root
  | some last =>
    obtain ⟨i, hi, hknown⟩ := habove last (List.mem_of_getLast? hlast)
    obtain rfl : parent = some i := by rw [hparent, hlast]; exact hknown
    simp only [Option.map_some, Option.toList_some, decide_true, List.filter_cons_of_pos, List.filter_nil]
    exact .child hi hknown

theorem typeBelow_descends (htag : t.reserved.tag ≠ t.reserved.subclassOf) {name : String} {chain above rest : List Model}
    {a : Model} (hchain : t.schema.Chain name chain) (heq : chain = above ++ a :: rest)
    (h : t.Descending chain m₀ m trace) (habove : ∀ b ∈ above, ∃ i, m.types.lookup b.name = some i)
    (hparent : parent = above.getLast?.bind fun b => m.types.lookup b.name) (s : Session) :
    (t.typeBelow a.name parent).Ensures .noting m s trace fun r m' _ later =>
      t.Descending chain m₀ m' later ∧ m.Within m' ∧ ∀ i, r = .ok i → m'.types.lookup a.name = some i := by
  refine ensures_bind.2 (ensures_mappings.2 ?_)
  dsimp only
  split
  · next i hi => exact ⟨h, .refl m, fun j hj => Except.ok.inj hj ▸ hi⟩
  · next hnone =>
    have hsettled := h.settled habove
    -- Looking for the label, and making the item after no hit, have their place once all models above are settled.
    have hP : t.client.Follows (t.Descends chain m₀ m) trace (t.space.typeLabel a.name) .item
        (t.client.itemData (t.space.typeLabel a.name) (t.typeStatements parent)) := by
      refine ⟨fun before hbefore x hx => ?_, fun before hbefore _ x hx => ?_⟩
      · exact .search heq (hsettled.mono hbefore (.refl m)) hx
      · rcases hx with hx | ⟨token, hx⟩
        · exact .session hx
        · have hsettled := hsettled.mono hbefore (.refl m)
          refine .make heq hsettled hx ?_ (links_typeData htag hchain heq hsettled hparent _)
          simp [Client.itemData, Json.get_ofEntries, List.lookup_cons]
    refine ensures_bind.2 (ensures_ofClient.2 ?_)
    refine (findOrCreateType_inOrder h.exchanged hP s).mono ?_
    rintro r s' later ⟨hstart, horder, htold⟩
    have hknown : ∀ n i, m.types.lookup n = some i → t.Resolved m₀ later n i := fun n i hn =>
      (h.known n i hn).mono hstart
    cases r with
    | error e => exact ⟨⟨hknown, horder⟩, .refl m, by simp⟩
    | ok i =>
      have hwithin := Mappings.within_type hnone i
      refine ⟨⟨fun n j hn => ?_, horder.mono fun _ _ hx => hx.within hwithin⟩, hwithin, fun j hj => ?_⟩
      · rw [List.lookup_cons] at hn
        split at hn
        · next hsame =>
          obtain rfl := beq_iff_eq.1 hsame
          obtain rfl := Option.some.inj hn
          exact .inr (htold i rfl)
        · exact hknown n j hn
      · obtain rfl := Except.ok.inj hj
        exact List.lookup_cons_self

theorem typeAlong_descends (htag : t.reserved.tag ≠ t.reserved.subclassOf) {name : String} {chain above rest : List Model}
    (hchain : t.schema.Chain name chain) (heq : chain = above ++ rest)
    (h : t.Descending chain m₀ m trace) (habove : ∀ b ∈ above, ∃ i, m.types.lookup b.name = some i)
    (hparent : parent = above.getLast?.bind fun b => m.types.lookup b.name) (s : Session) :
    (t.typeAlong parent rest).Ensures .noting m s trace fun r m' _ later =>
      t.Descending chain m₀ m' later ∧ ∀ i, r = .ok i → ∀ b ∈ chain, ∃ i, m'.types.lookup b.name = some i := by
  induction rest generalizing above m s trace parent with
  | nil =>
    rw [List.append_nil] at heq
    exact ⟨h, fun _ _ => heq ▸ habove⟩
  | cons a rest ih =>
    refine (typeBelow_descends htag hchain heq h habove hparent s).bind (fun i m' s' later h' => ?_)
      fun e _ _ _ h' => ⟨h'.1, by simp⟩
    obtain ⟨h', hwithin, hitem⟩ := h'
    have heq : chain = (above ++ [a]) ++ rest := by simpa using heq
    refine ih heq h' (fun b hb => ?_) ?_ s'
    · rcases List.mem_append.1 hb with hb | hb
      · obtain ⟨j, hj⟩ := habove b hb
        exact ⟨j, hwithin.types _ _ hj⟩
      · obtain rfl := List.mem_singleton.1 hb
        exact ⟨i, hitem i rfl⟩
    · rw [List.getLast?_concat, Option.bind_some, hitem i rfl]

theorem typeItem_descends (htag : t.reserved.tag ≠ t.reserved.subclassOf) (model : String) (m : Mappings) (s : Session) :
    (t.typeItem model).Ensures .noting m s [] fun r m' _ trace =>
      InOrder (fun before x => ∃ chain, t.schema.Chain model chain ∧ t.Descends chain m m' before x) trace ∧
        ∀ i, r = .ok i → ∃ chain, t.schema.Chain model chain ∧ t.Settled m m' trace chain := by
  refine ensures_bind.2 (ensures_ofExcept.2 ?_)
  cases hancestry : t.schema.ancestry model with
  | error e => exact ⟨.nil, by simp⟩
  | ok chain =>
    have hchain := Schema.ancestry_eq_ok.1 hancestry
    have hstart : t.Descending chain m m [] := ⟨fun _ _ h => .inl h, .nil⟩
    have hall : chain = [] ++ chain := rfl
    refine (typeAlong_descends htag hchain hall hstart (by simp) rfl s).bind (fun found m' s' trace h => ?_)
      fun e _ _ _ h => ⟨h.1.exchanged.mono fun _ _ hx => ⟨chain, hchain, hx⟩, by simp⟩
    obtain ⟨h, hknown⟩ := h
    have horder := h.exchanged.mono (Q := fun before x => ∃ chain, t.schema.Chain model chain ∧ t.Descends chain m m' before x)
      fun _ _ hx => ⟨chain, hchain, hx⟩
    split
    · exact ⟨horder, fun _ _ => ⟨chain, hchain, h.settled (hknown _ rfl)⟩⟩
    · exact ⟨horder, by simp⟩

end Call

section Run

variable {W : Type} {world : World W} {w : W} {records epoch : List LookupRecord}

def Reaches (t : Tables) (m : Mappings) (model : String) : Prop :=
  ∃ chain, t.schema.ancestry model = .ok chain ∧ ∀ a ∈ chain, ∃ i, m.types.lookup a.name = some i

theorem Reaches.within (h : t.Reaches m model) (hwithin : m.Within m') : t.Reaches m' model := by
  obtain ⟨chain, hchain, hknown⟩ := h
  refine ⟨chain, hchain, fun a ha => ?_⟩
  obtain ⟨i, hi⟩ := hknown a ha
  exact ⟨i, hwithin.types _ _ hi⟩

theorem gains_chain (t : Tables) (chain : List Model) (parent : Option ItemId) :
    (t.typeAlong parent chain).Gains world m s w fun _ m' => ∀ a ∈ chain, ∃ i, m'.types.lookup a.name = some i := by
  induction chain generalizing m s w parent with
  | nil => exact .of_pure (by simp)
  | cons first rest ih =>
    refine (t.gains_typeBelow first.name parent).bind fun i m' s' w' _ hi => (ih (some i)).mono fun _ m'' hwithin hrest => ?_
    exact List.forall_mem_cons.2 ⟨⟨i, hwithin.types _ _ hi⟩, hrest⟩

theorem gains_reaches (t : Tables) (model : String) :
    (t.typeItem model).Gains world m s w fun _ m' => t.Reaches m' model := by
  refine (Gains.of_except _).bind fun chain m' s' w' _ hchain => ?_
  refine (t.gains_chain chain none).bind fun found m'' s'' w'' _ hknown => ?_
  split
  · exact .of_pure ⟨chain, hchain.1, hknown⟩
  · exact .of_throw _ _

theorem gains_rowTypes_reaches (t : Tables) (model : String) : (t.rowTypes model).Gains world m s w fun _ m' =>
    ∀ name ∈ model :: (t.schema.descendants model).map (·.name), t.Reaches m' name := by
  have hitems : ∀ models {m s w}, (t.typeItems models).Gains world m s w fun _ m' => ∀ name ∈ models, t.Reaches m' name := by
    intro models
    induction models with
    | nil => exact .of_pure (by simp)
    | cons name rest ih =>
      refine (t.gains_reaches name).bind fun i m' s' w' _ hname => ih.bind fun items m'' s'' w'' hwithin hrest => ?_
      exact .of_pure (List.forall_mem_cons.2 ⟨hname.within hwithin, hrest⟩)
  exact (hitems _).bind fun items m' s' w' _ hreaches => .of_pure hreaches

theorem Action.Gives.gains {α : Type} {x : Action α} {a : α} {post : α → Mappings → Prop} (h : x.Gives m s (.ok a))
    (hx : x.Gains World.noting m s [] post) : post a m := by
  rw [Gains, Action.Ensures, h] at hx
  exact hx.2 a rfl

theorem Reaches.gives (h : t.Reaches m model) (s : Session) : ∃ i, (t.typeItem model).Gives m s (.ok i) := by
  obtain ⟨chain, hchain, hknown⟩ := h
  obtain ⟨last, hlast, rfl⟩ := Schema.getLast?_ancestry hchain
  obtain ⟨found, hfound⟩ := gives_typeAlong (s := s) hknown none
  obtain ⟨i, rfl, -⟩ := (hfound t).gains (t.gains_typeAlong chain none) last hlast
  exact ⟨i, (Gives.of_except hchain).bind ((hfound t).bind (.of_pure i))⟩

theorem Reaches.recalls (h : t.Reaches m model) :
    ∃ i, ∀ m', m.Within m' → ∀ s, ((Lookup.type model).perform t).Gives m' s (.ok (.type i)) := by
  obtain ⟨i, hi⟩ := h.gives .fresh
  have hknown := hi.gains (t.gains_typeItem model)
  refine ⟨i, fun m' hwithin s => ?_⟩
  obtain ⟨j, hj⟩ := (h.within hwithin).gives s
  have hknown' := hj.gains (t.gains_typeItem model)
  obtain rfl := Option.some.inj ((hwithin.types _ _ hknown).symm.trans hknown')
  exact hj.map Found.type

theorem Runs.typed (h : t.Runs m s epoch) (hclear : ∀ x ∈ epoch, x.lookup ≠ .clear) :
    epoch.Pairwise fun x y => ∀ model items, x.Finds (.rowTypes model) (.rowTypes items) →
      ∀ name ∈ model :: (t.schema.descendants model).map (·.name), ∃ i, y.Recalls (.type name) (.type i) := by
  induction h with
  | nil => exact .nil
  | cons h hrest ih =>
    rw [List.forall_mem_cons] at hclear
    refine List.pairwise_cons.2 ⟨fun y hy model items hfinds name hname => ?_, ih hclear.2⟩
    obtain ⟨rfl, rfl⟩ := hfinds
    obtain ⟨-, hfound⟩ := ((t.gains_rowTypes_reaches model).map Found.rowTypes).goes h
    obtain ⟨_, _, hreaches⟩ := hfound _ rfl
    obtain ⟨i, hgives⟩ := (hreaches name hname).recalls
    exact ⟨i, hrest.recalls hclear.2 hgives y hy⟩

theorem Runs.items (h : t.Runs m s epoch) (hnames : (t.schema.models.map (·.name)).Nodup)
    (hclear : ∀ x ∈ epoch, x.lookup ≠ .clear) : ∃ item : String → ItemId,
      (∀ x ∈ epoch, ∀ model i, x.Finds (.type model) (.type i) → i = item model) ∧
      (∀ x ∈ epoch, ∀ model items, x.Finds (.rowTypes model) (.rowTypes items) → ∀ i, i ∈ items ↔
        ∃ name ∈ model :: (t.schema.descendants model).map (·.name), i = item name) ∧
      (epoch.Pairwise fun x y => ∀ model items, x.Finds (.rowTypes model) (.rowTypes items) →
        ∀ name ∈ model :: (t.schema.descendants model).map (·.name), y.Recalls (.type name) (.type (item name))) ∧
      ∀ x ∈ epoch, ∀ y ∈ epoch, ∀ model items ancestor items', x.Finds (.rowTypes model) (.rowTypes items) →
        y.Finds (.rowTypes ancestor) (.rowTypes items') → model ∈ (t.schema.descendants ancestor).map (·.name) →
          items ⊆ items' := by
  obtain ⟨last, -, hremembers⟩ := h.remembers hclear
  -- What the mappings know in the end tells the item of every name. The answers of the epoch agree with them.
  obtain ⟨item, hitem⟩ : ∃ item : String → ItemId, ∀ name i, last.types.lookup name = some i → i = item name :=
    ⟨fun name => (last.types.lookup name).getD ⟨0⟩, fun name i h => by simp [h]⟩
  have htype : ∀ x ∈ epoch, ∀ model i, x.Finds (.type model) (.type i) → i = item model :=
    fun x hx model i hfinds => hitem model i ((hremembers x hx).type model i hfinds)
  refine ⟨item, htype, fun x hx model items hfinds i => ?_, ?_,
    fun x hx y hy model items ancestor items' hx' hy' hbelow i hi => ?_⟩
  · have hlists := (hremembers x hx).rowTypes model items hfinds
    rw [hlists.mem_iff]
    refine exists_congr fun name => and_congr_right fun hname => ⟨hitem name i, ?_⟩
    rintro rfl
    obtain ⟨j, -, hknown⟩ := hlists.listed name hname
    rwa [← hitem name j hknown]
  · refine (h.typed hclear).imp_of_mem fun {x y} _ hy hxy model items hfinds name hname hlookup => ?_
    obtain ⟨i, hrecalls⟩ := hxy model items hfinds name hname
    obtain ⟨houtcome, hnone⟩ := hrecalls hlookup
    exact ⟨htype y hy name i ⟨hlookup, houtcome⟩ ▸ houtcome, hnone⟩
  · obtain ⟨name, hname, hknown⟩ := ((hremembers x hx).rowTypes model items hx').known i hi
    refine ((hremembers y hy).rowTypes ancestor items' hy').mem_iff.2 ⟨name, List.mem_cons_of_mem _ ?_, hknown⟩
    rcases List.mem_cons.1 hname with rfl | hname
    · exact hbelow
    · rw [Schema.mem_descendants_names hnames] at hname hbelow ⊢
      exact hname.trans hbelow

end Run

/--
However the store answers, the item of a model is asked for on the way down from its root: a model is looked for, or its
item is made, when all models above it have their items, and a new item is a subclass of that of its parent and of no
other. In a run of lookups, as long as nothing is forgotten, each model has one item; the rows of a model are instances
of its own item and of those of its descendants, which are found without asking from then on; so the items of a
descendant's rows are among those of the rows of a model above it.
-/
theorem types_follow_schema {models : List Model} (hschema : Schema.ofModels models = .ok t.schema)
    (htag : t.reserved.tag ≠ t.reserved.subclassOf) :
    (∀ model m s, (t.typeItem model).Ensures .noting m s [] fun r m' _ trace =>
      InOrder (fun before x => ∃ chain, t.schema.Chain model chain ∧ t.Descends chain m m' before x) trace ∧
        ∀ i, r = .ok i → ∃ chain, t.schema.Chain model chain ∧ t.Settled m m' trace chain) ∧
    ∀ m s records epoch, t.Runs m s records → epoch <:+: records → (∀ x ∈ epoch, x.lookup ≠ .clear) →
      ∃ item : String → ItemId,
        (∀ x ∈ epoch, ∀ model i, x.Finds (.type model) (.type i) → i = item model) ∧
        (∀ x ∈ epoch, ∀ model items, x.Finds (.rowTypes model) (.rowTypes items) → ∀ i, i ∈ items ↔
          ∃ name ∈ model :: (t.schema.descendants model).map (·.name), i = item name) ∧
        (epoch.Pairwise fun x y => ∀ model items, x.Finds (.rowTypes model) (.rowTypes items) →
          ∀ name ∈ model :: (t.schema.descendants model).map (·.name), y.Recalls (.type name) (.type (item name))) ∧
        ∀ x ∈ epoch, ∀ y ∈ epoch, ∀ model items ancestor items', x.Finds (.rowTypes model) (.rowTypes items) →
          y.Finds (.rowTypes ancestor) (.rowTypes items') → model ∈ (t.schema.descendants ancestor).map (·.name) →
            items ⊆ items' := by
  refine ⟨typeItem_descends htag, fun m s records epoch hrun hepoch hclear => ?_⟩
  obtain ⟨m, s, hepoch⟩ := hrun.of_infix hepoch
  exact hepoch.items (Schema.nodup_of_ofModels hschema) hclear

section Scripted

def noneFound : ScriptedReply :=
  .document (.ofEntries [("search", .array [])])

def madeReply (id : String) : ScriptedReply :=
  .document (madeBody id)

def bothMissing : Conversation :=
  .start ([noneFound] ++ loginReplies ++ [madeReply "Q10", noneFound, madeReply "Q11"]) 0 ""

def typesFound : List LookupRecord :=
  authorTables.scripted .empty .fresh [(.rowTypes "Person", [noneFound] ++ loginReplies ++ [madeReply "Q10",
    foundReply "Q11" "Author in test"]), (.type "Author", []), (.rowTypes "Author", [])]

theorem types_follow_schema_author : Schema.ofModels authorTables.schema.models = .ok authorTables.schema ∧
    authorTables.reserved.tag ≠ authorTables.reserved.subclassOf ∧
    ((authorTables.typeItem "Author").follow .empty .fresh bothMissing).1 = .ok ⟨11⟩ ∧
    (∃ m, InOrder (fun before x => ∃ chain, authorTables.schema.Chain "Author" chain ∧
      authorTables.Descends chain .empty m before x) ((authorTables.typeItem "Author").follow .empty .fresh bothMissing).2) ∧
    authorTables.Runs .empty .fresh typesFound ∧ (∀ x ∈ typesFound, x.lookup ≠ .clear) ∧
    ∃ x y z, typesFound = [x, y, z] ∧ x.Finds (.rowTypes "Person") (.rowTypes [⟨10⟩, ⟨11⟩]) ∧
      y.Finds (.type "Author") (.type ⟨11⟩) ∧ y.exchanged = [] ∧ z.Finds (.rowTypes "Author") (.rowTypes [⟨11⟩]) := by
  have hschema : Schema.ofModels authorTables.schema.models = .ok authorTables.schema := rfl
  have htag : authorTables.reserved.tag ≠ authorTables.reserved.subclassOf := by decide
  obtain ⟨hcall, hruns⟩ := types_follow_schema hschema htag
  have hrun : authorTables.Runs .empty .fresh typesFound := authorTables.runs_scripted _ _ _
  have hclear : ∀ x ∈ typesFound, x.lookup ≠ .clear := by decide +kernel
  obtain ⟨item, -, hitems, hrecalls, -⟩ := hruns _ _ _ _ hrun (List.infix_refl typesFound) hclear
  have hlist : ∃ x y z, typesFound = [x, y, z] ∧ x.Finds (.rowTypes "Person") (.rowTypes [⟨10⟩, ⟨11⟩]) ∧
      y.lookup = .type "Author" ∧ z.Finds (.rowTypes "Author") (.rowTypes [⟨11⟩]) :=
    ⟨_, _, _, rfl, ⟨rfl, by decide +kernel⟩, rfl, ⟨rfl, by decide +kernel⟩⟩
  obtain ⟨x, y, z, hlist, hx, hy, hz⟩ := hlist
  rw [hlist] at hitems hrecalls
  have hauthor : item "Author" = ⟨11⟩ :=
    List.mem_singleton.1 ((hitems z (by simp) _ _ hz _).2 ⟨"Author", List.mem_cons_self, rfl⟩)
  obtain ⟨houtcome, hnone⟩ := (List.pairwise_cons.1 hrecalls).1 y (by simp) _ _ hx "Author" (by decide) hy
  have hordered := ((hcall "Author" .empty .fresh).mono (Q := fun _ _ _ trace => ∃ m, InOrder (fun before x => ∃ chain,
    authorTables.schema.Chain "Author" chain ∧ authorTables.Descends chain .empty m before x) trace)
      fun _ m _ _ h => ⟨m, h.1⟩).follow bothMissing
  exact ⟨hschema, htag, by decide +kernel, hordered, hrun, hclear, x, y, z, hlist, hx, ⟨hy, hauthor ▸ houtcome⟩, hnone, hz⟩

end Scripted

end ClaimTables.Tables
