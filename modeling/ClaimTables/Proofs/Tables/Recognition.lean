import ClaimTables.Proofs.Exchange.Asking
import ClaimTables.Proofs.Tables.Creations
import ClaimTables.Proofs.Tables.Discarding

/-!
Rows that were made are known again. Main statement: if the store shows a new row with the statements that it was made
of, then an update of the row through its model or an ancestor, and a deletion, pass all the checks that come before
their edits; and in every other namespace that shares the reserved properties both are refused.
-/

namespace ClaimTables.Tables

open Tables.Action

def ShowsClaim (datavalue shown : Json) : Prop :=
  (∃ guid, (shown.get "id").text? = some guid) ∧ (shown.get "mainsnak").get? "datavalue" = some datavalue

/--
That a document shows an entity with the statements of its data and no others: each under the identifier of its
property, in whatever order.
-/
structure HandsBack (id : String) (data body : Json) : Prop where
  accepted : ApiError.ofJson? body = none
  there : ((body.get "entities").get id).isNull = false ∧ ((body.get "entities").get id).get? "missing" = none
  claims : ∃ (ps : List PropertyId) (shown : PropertyId → List Json),
    ((body.get "entities").get id).get "claims" = .ofEntries (ps.map fun p => (p.text, .array (shown p))) ∧
    ∀ p, (shown p ≠ [] → p ∈ ps) ∧ (∀ j ∈ shown p, ∃ d, (p, d) ∈ Export.facts data ∧ ShowsClaim d j) ∧
      ∀ d, (p, d) ∈ Export.facts data → ∃ j ∈ shown p, ShowsClaim d j

/-- A world in which whoever reads the claims of an entity is shown the statements of its data. -/
def HandingBack {W : Type} (world : World W) (id : String) (data : Json) : Prop :=
  ∀ w answer w', world w (.send (.get (claimsParameters id))) answer w' → ∃ body, answer = .ok body ∧ HandsBack id data body

structure ClaimSetOf (facts : List (PropertyId × Json)) (claims : ClaimSet) : Prop where
  sound : ∀ p, ∀ c ∈ claims.get p, ∃ d, (p, d) ∈ facts ∧ c.datavalue = some d
  complete : ∀ p d, (p, d) ∈ facts → ∃ c ∈ claims.get p, c.datavalue = some d

theorem ofJson?_of_showsClaim {d j : Json} (h : ShowsClaim d j) :
    ∃ c, StoredClaim.ofJson? j = some c ∧ c.datavalue = some d := by
  obtain ⟨⟨guid, hguid⟩, hvalue⟩ := h
  exact ⟨⟨guid, some d⟩, by simp [StoredClaim.ofJson?, hguid, hvalue], rfl⟩

theorem HandsBack.claimsIn {id : String} {data body : Json} (h : HandsBack id data body) :
    ∃ claims, Client.claimsIn id body = some claims ∧ ClaimSetOf (Export.facts data) claims := by
  obtain ⟨ps, shown, hclaims, hshown⟩ := h.claims
  have hget : ∀ p, (ClaimSet.ofJson (((body.get "entities").get id).get "claims")).get p =
      (shown p).filterMap StoredClaim.ofJson? := by
    intro p
    rw [hclaims]
    exact Store.get_ofJson (hshown p).1
  have hfound : Client.claimsIn id body = some (ClaimSet.ofJson (((body.get "entities").get id).get "claims")) := by
    simp [Client.claimsIn, h.there.1, h.there.2]
  refine ⟨_, hfound, fun p c hc => ?_, fun p d hd => ?_⟩
  · rw [hget] at hc
    obtain ⟨j, hj, hc⟩ := List.mem_filterMap.1 hc
    obtain ⟨d, hd, hshows⟩ := (hshown p).2.1 j hj
    obtain ⟨c', hc', hvalue⟩ := ofJson?_of_showsClaim hshows
    obtain rfl := Option.some.inj (hc.symm.trans hc')
    exact ⟨d, hd, hvalue⟩
  · obtain ⟨j, hj, hshows⟩ := (hshown p).2.2 d hd
    obtain ⟨c, hc, hvalue⟩ := ofJson?_of_showsClaim hshows
    exact ⟨c, hget p ▸ List.mem_filterMap.2 ⟨j, hj, hc⟩, hvalue⟩

structure ClaimsOfRow (t : Tables) (type : ItemId) (claims : ClaimSet) : Prop where
  tagged : ∀ tag, claims.hasString t.reserved.tag tag = true ↔ tag = t.space.tag
  not_deleted : ∀ tag, claims.hasString t.reserved.deleted tag = false
  typed : type ∈ claims.items t.reserved.instanceOf

variable {t : Tables} {m m' known : Mappings} {s s' : Session} {claims : ClaimSet} {type : ItemId} {id : String}
  {data : Json} {W : Type} {world : World W} {w : W}

theorem holds_stringDatavalue {c : StoredClaim} {tag : String} (h : c.datavalue = some (Claim.stringDatavalue tag))
    (expected : String) : c.holds expected = true ↔ expected = tag := by
  have hvalue : (Claim.stringDatavalue tag).get "value" = .string tag := Claim.get_typed_value _ _
  rw [StoredClaim.holds, h]
  dsimp only
  rw [hvalue]
  simp [Json.text?, eq_comm]

theorem item?_itemDatavalue {c : StoredClaim} {i : ItemId} (h : c.datavalue = some (Claim.itemDatavalue i)) :
    c.item? = some i := by
  rw [StoredClaim.item?, h, Option.bind_some, Claim.itemDatavalue, Claim.get_typed_value]
  exact Claim.item?_itemValue i

theorem claimsOfRow_of_facts {facts : List (PropertyId × Json)}
    (hreserved : [t.reserved.instanceOf, t.reserved.subclassOf, t.reserved.tag, t.reserved.deleted].Nodup)
    (hfacts : ∀ e ∈ facts, e.1 ∉ [t.reserved.instanceOf, t.reserved.subclassOf, t.reserved.tag, t.reserved.deleted])
    (h : ClaimSetOf ((t.reserved.instanceOf, Claim.itemDatavalue type) ::
      (t.reserved.tag, Claim.stringDatavalue t.space.tag) :: facts) claims) : t.ClaimsOfRow type claims := by
  simp only [List.nodup_cons, List.mem_cons, List.not_mem_nil, or_false, not_or] at hreserved
  obtain ⟨⟨-, hinstanceTag, hinstanceDeleted⟩, -, hdeleted, -⟩ := hreserved
  -- No field has one of the reserved properties, so the only tag is the one that the row was given.
  have htag : ∀ d, (t.reserved.tag, d) ∈ (t.reserved.instanceOf, Claim.itemDatavalue type) ::
      (t.reserved.tag, Claim.stringDatavalue t.space.tag) :: facts → d = Claim.stringDatavalue t.space.tag := by
    intro d hd
    rcases List.mem_cons.1 hd with hd | hd
    · exact absurd (congrArg Prod.fst hd).symm hinstanceTag
    · rcases List.mem_cons.1 hd with hd | hd
      · exact congrArg Prod.snd hd
      · exact absurd (by simp) (hfacts _ hd)
  refine ⟨fun tag => ?_, fun tag => ?_, ?_⟩
  · rw [ClaimSet.hasString, List.any_eq_true]
    constructor
    · rintro ⟨c, hc, hholds⟩
      obtain ⟨d, hd, hvalue⟩ := h.sound _ c hc
      exact (holds_stringDatavalue (htag d hd ▸ hvalue) tag).1 hholds
    · rintro rfl
      obtain ⟨c, hc, hvalue⟩ := h.complete t.reserved.tag (Claim.stringDatavalue t.space.tag) (by simp)
      exact ⟨c, hc, (holds_stringDatavalue hvalue _).2 rfl⟩
  · rw [ClaimSet.hasString, List.any_eq_false]
    intro c hc
    obtain ⟨d, hd, -⟩ := h.sound _ c hc
    simp only [List.mem_cons, Prod.mk.injEq] at hd
    rcases hd with ⟨hd, -⟩ | ⟨hd, -⟩ | hd
    · exact absurd hd.symm hinstanceDeleted
    · exact absurd hd.symm hdeleted
    · exact absurd (by simp) (hfacts _ hd)
  · obtain ⟨c, hc, hvalue⟩ := h.complete t.reserved.instanceOf (Claim.itemDatavalue type) (by simp)
    exact List.mem_filterMap.2 ⟨c, hc, item?_itemDatavalue hvalue⟩

theorem claimsOfRow_of_rowData {model : String} {values : CheckedValues} {exchanged : List Exchange}
    (hmade : (t.rowData model values).Goes m s exchanged (.ok data) m' s')
    (hreserved : [t.reserved.instanceOf, t.reserved.subclassOf, t.reserved.tag, t.reserved.deleted].Nodup)
    (hfields : ∀ key p, m'.fields.lookup key = some p →
      p ∉ [t.reserved.instanceOf, t.reserved.subclassOf, t.reserved.tag, t.reserved.deleted]) :
    ∃ type, m'.types.lookup model = some type ∧
      ∀ claims, ClaimSetOf (Export.facts data) claims → t.ClaimsOfRow type claims := by
  obtain ⟨name, type, statements, htype, rfl, hstatements, -⟩ := (Ensures.goes (t.gains_rowItem model values) hmade).2 data rfl
  refine ⟨type, htype, fun claims h => ?_⟩
  rw [facts_rowStatements] at h
  refine claimsOfRow_of_facts hreserved (fun e he => ?_) h
  obtain ⟨j, hj, hfact⟩ := List.mem_filterMap.1 he
  obtain ⟨key, p, d, hp, rfl⟩ := hstatements j hj
  rw [Export.fact?_statement] at hfact
  obtain rfl := Option.some.inj hfact
  exact hfields key p hp

section Reading

open Client Client.Action

theorem getClaims_handingBack (hworld : HandingBack world id data) (c : Client) (s : Session) (w : W) :
    (c.getClaims id).Ensures world s w fun r s' w' => s' = s ∧
      (∃ answer, world w (.send (.get (claimsParameters id))) answer w') ∧
      ∃ claims, r = .ok (some claims) ∧ ClaimSetOf (Export.facts data) claims := by
  have hread : (c.read (claimsParameters id)).Ensures world s w fun r s' w' => s' = s ∧
      (∃ answer, world w (.send (.get (claimsParameters id))) answer w') ∧ ∃ body, r = .ok body ∧ HandsBack id data body := by
    refine ensures_bind.2 (ensures_ofDialogue.2 ((sendAgain_settled (fun answer w' h => ?_) _ 0).mono fun answer w' h => ?_))
    · obtain ⟨body, rfl, hbody⟩ := hworld w answer w' h
      simp [putsOff, ApiError.isTransient, hbody.accepted]
    · obtain ⟨body, rfl, hbody⟩ := hworld w answer w' h
      dsimp only
      rw [hbody.accepted]
      exact ⟨rfl, ⟨_, h⟩, body, rfl, hbody⟩
  rw [getClaims, Client.Action.ensures_bind, Client.Action.ensures_outcome]
  refine hread.mono fun r s' w' h => ?_
  obtain ⟨rfl, hanswer, body, rfl, hbody⟩ := h
  obtain ⟨claims, hclaims, hof⟩ := hbody.claimsIn
  exact ⟨rfl, hanswer, claims, congrArg Except.ok hclaims, hof⟩

theorem HandingBack.noted (hworld : HandingBack world id data) : HandingBack world.noted id data :=
  fun _ answer _ h => hworld _ answer _ h.1

end Reading

def foundClaims (t : Tables) (model id : String) : Action ClaimSet := do
  let found ← t.client.getClaims id
  let _ ← t.rowTypes model
  pure (found.getD ⟨[]⟩)

/-- An update of a row, by values that are checked, which takes whatever it finds for a row that may be changed. -/
def updateUnchecked (t : Tables) (model id : String) (values : CheckedValues) : Action (List String) := do
  let claims ← t.foundClaims model id
  t.checkUnique (some id) values
  let changes ← t.changesOf values
  let results ← (applyChanges t.client model id claims changes : Client.Action _)
  Action.ofExcept (updateResult id results)

def deleteUnchecked (t : Tables) (id : String) : Client.Action Unit := do
  let _ ← t.client.getClaims id
  t.discard id

theorem checkOwned_iff (hclaims : t.ClaimsOfRow type claims) {model ancestor : String}
    (htype : known.types.lookup model = some type)
    (hmodel : model ∈ ancestor :: (t.schema.descendants ancestor).map (·.name))
    {post : Except Error ClaimSet → Mappings → Session → W → Prop} :
    (t.checkOwned ancestor id (some claims)).Ensures world known s w post ↔
      (t.rowTypes ancestor >>= fun _ => pure claims).Ensures world known s w post := by
  unfold checkOwned
  simp only [(hclaims.tagged t.space.tag).2 rfl, hclaims.not_deleted, Bool.not_true, Bool.false_eq_true, if_false]
  rw [Action.ensures_bind, Action.ensures_bind]
  refine Action.Ensures.congr (t.gains_rowTypes ancestor) fun r m' s' w' h => ?_
  cases r with
  | error e => exact Iff.rfl
  | ok allowed =>
    obtain ⟨hwithin, hlists⟩ := h
    have hallowed : type ∈ allowed := (hlists allowed rfl).mem_iff.2 ⟨model, hmodel, hwithin.types _ _ htype⟩
    have hany : (claims.items t.reserved.instanceOf).any allowed.contains = true :=
      List.any_eq_true.2 ⟨type, hclaims.typed, List.contains_iff_mem.2 hallowed⟩
    simp only [hany, Bool.not_true, Bool.false_eq_true, if_false]

structure Refused {α : Type} (id : String) (e : Error) (trace : List Exchange) (r : Except Error α)
    (later : W × List Exchange) : Prop where
  refused : r = .error e
  read : ∃ answer, later.2 = trace ++ [⟨.get (claimsParameters id), answer⟩]

theorem hasString_foreign {other : Tables} (hclaims : t.ClaimsOfRow type claims) (hreserved : other.reserved = t.reserved)
    (hspace : other.space.tag ≠ t.space.tag) : (!claims.hasString other.reserved.tag other.space.tag) = true := by
  have hnot : claims.hasString t.reserved.tag other.space.tag ≠ true := fun h => hspace ((hclaims.tagged _).1 h)
  rw [hreserved, Bool.eq_false_of_not_eq_true hnot]
  rfl

section Checks

variable {other : Tables} {trace : List Exchange} (hworld : HandingBack world id data)
  (hrow : ∀ claims, ClaimSetOf (Export.facts data) claims → t.ClaimsOfRow type claims)

include hworld hrow

theorem ownedClaims_iff {model ancestor : String} (htype : known.types.lookup model = some type)
    (hmodel : model ∈ ancestor :: (t.schema.descendants ancestor).map (·.name))
    {post : Except Error ClaimSet → Mappings → Session → W → Prop} :
    (t.ownedClaims ancestor id).Ensures world known s w post ↔ (t.foundClaims ancestor id).Ensures world known s w post := by
  rw [ownedClaims_eq, foundClaims, Action.ensures_bind, Action.ensures_bind, Action.ensures_ofClient]
  refine Iff.trans ?_ Action.ensures_ofClient.symm
  refine (getClaims_handingBack hworld t.client s w).congr fun r s' w' h => ?_
  obtain ⟨rfl, -, claims, rfl, hclaims⟩ := h
  exact checkOwned_iff (hrow claims hclaims) htype hmodel

theorem update_iff {model ancestor : String} (htype : known.types.lookup model = some type)
    (hmodel : model ∈ ancestor :: (t.schema.descendants ancestor).map (·.name)) {values : Values} {checked : CheckedValues}
    (hvalid : values.validate t.schema ancestor false = .ok checked)
    {post : Except Error (List String) → Mappings → Session → W → Prop} :
    (t.update ancestor id values).Ensures world known s w post ↔
      (t.updateUnchecked ancestor id checked).Ensures world known s w post := by
  rw [update, hvalid, updateUnchecked, Action.ensures_bind, Action.ensures_ofExcept]
  dsimp only
  rw [Action.ensures_bind, Action.ensures_bind]
  exact ownedClaims_iff hworld hrow htype hmodel

theorem delete_iff {post : Except Error Unit → Session → W → Prop} :
    (t.delete id).Ensures world s w post ↔ (t.deleteUnchecked id).Ensures world s w post := by
  rw [delete, deleteUnchecked, Client.Action.ensures_bind, Client.Action.ensures_bind]
  refine (getClaims_handingBack hworld t.client s w).congr fun r s' w' h => ?_
  obtain ⟨rfl, -, claims, rfl, hclaims⟩ := h
  have hclaims := hrow claims hclaims
  have htyped : (claims.items t.reserved.instanceOf).isEmpty = false :=
    List.isEmpty_eq_false_iff.2 (List.ne_nil_of_mem hclaims.typed)
  simp only [(hclaims.tagged t.space.tag).2 rfl, htyped, hclaims.not_deleted, Bool.not_true, Bool.false_eq_true, if_false]

/-- A deletion reads the claims once, and goes on to its edit. -/
theorem delete_proceeds : (t.delete id).Ensures world.noted s (w, trace) fun r _ later =>
    ∃ answer sent, later.2 = trace ++ ⟨.get (claimsParameters id), answer⟩ :: sent ∧ t.SendsDeletion id s sent r := by
  refine (delete_iff hworld.noted hrow).2 (Client.Action.ensures_bind.2 ?_)
  refine (getClaims_handingBack hworld.noted t.client s (w, trace)).mono fun r s' later h => ?_
  obtain ⟨rfl, ⟨answer, -, hlater⟩, claims, rfl, -⟩ := h
  obtain ⟨w', later⟩ := later
  obtain rfl := hlater
  refine Dialogue.ensures_noted_of_goes fun sent r _ hsent => ⟨answer, sent, ?_, sendsDeletion hsent⟩
  exact List.append_assoc _ _ _

theorem update_foreign (hreserved : other.reserved = t.reserved) (hspace : other.space.tag ≠ t.space.tag) {model : String}
    {values : Values} {checked : CheckedValues} (hvalid : values.validate other.schema model false = .ok checked) :
    (other.update model id values).Ensures world.noted known s (w, trace) fun r _ _ later =>
      Refused id (.inconsistentData model (some id) "entity does not belong to this namespace") trace r later := by
  rw [update, hvalid, Action.ensures_bind, Action.ensures_ofExcept]
  dsimp only
  rw [ownedClaims_eq, Action.ensures_bind, Action.ensures_bind, Action.ensures_ofClient]
  refine (getClaims_handingBack hworld.noted other.client s (w, trace)).mono fun r s' later h => ?_
  obtain ⟨rfl, ⟨answer, -, hlater⟩, claims, rfl, hclaims⟩ := h
  refine Action.ensures_check (fun _ => ⟨rfl, answer, hlater⟩) fun hpasses => ?_
  exact absurd (hasString_foreign (hrow claims hclaims) hreserved hspace) hpasses

theorem delete_foreign (hreserved : other.reserved = t.reserved) (hspace : other.space.tag ≠ t.space.tag) :
    (other.delete id).Ensures world.noted s (w, trace) fun r _ later =>
      Refused id (.inconsistentData other.space.tag (some id) "entity does not belong to this namespace") trace r later := by
  rw [delete, Client.Action.ensures_bind]
  refine (getClaims_handingBack hworld.noted other.client s (w, trace)).mono fun r s' later h => ?_
  obtain ⟨rfl, ⟨answer, -, hlater⟩, claims, rfl, hclaims⟩ := h
  refine Client.Action.ensures_check (fun _ => ⟨rfl, answer, hlater⟩) fun hpasses => ?_
  exact absurd (hasString_foreign (hrow claims hclaims) hreserved hspace) hpasses

end Checks

/--
A new row is a row of its own namespace, and of no other. Wherever the store shows it with the statements that it was
made of: as long as nothing was forgotten since, an update through its model or an ancestor does what it would do
without the checks of what was found; and a deletion reads the claims and sends its edit, or fails to open a session for
it. In every other namespace that shares the reserved properties both are refused, and nothing is sent but to read the
claims.
-/
theorem created_row_recognised {models : List Model} (hschema : Schema.ofModels models = .ok t.schema) {model : String}
    {values : Values} {checked : CheckedValues} (hvalid : values.validate t.schema model true = .ok checked)
    {exchanged : List Exchange} (hmade : (t.rowData model checked).Goes m s exchanged (.ok data) m' s')
    (hreserved : [t.reserved.instanceOf, t.reserved.subclassOf, t.reserved.tag, t.reserved.deleted].Nodup)
    (hfields : ∀ key p, m'.fields.lookup key = some p →
      p ∉ [t.reserved.instanceOf, t.reserved.subclassOf, t.reserved.tag, t.reserved.deleted])
    (hworld : HandingBack world id data) :
    t.insert model checked = (t.rowData model checked >>= fun data => ofClient (t.client.createEntity .item data)) ∧
    (∃ chain, t.schema.ancestry model = .ok chain ∧ (∃ last ∈ chain, last.name = model) ∧
      ∀ ancestor ∈ chain, ∀ known, m'.Within known → ∀ changed accepted,
        changed.validate t.schema ancestor.name false = .ok accepted → ∀ s w post,
          (t.update ancestor.name id changed).Ensures world known s w post ↔
            (t.updateUnchecked ancestor.name id accepted).Ensures world known s w post) ∧
    (∀ s w post, (t.delete id).Ensures world s w post ↔ (t.deleteUnchecked id).Ensures world s w post) ∧
    (∀ s w trace, (t.delete id).Ensures world.noted s (w, trace) fun r _ later =>
      ∃ answer sent, later.2 = trace ++ ⟨.get (claimsParameters id), answer⟩ :: sent ∧ t.SendsDeletion id s sent r) ∧
    ∀ other : Tables, other.reserved = t.reserved → other.space.tag ≠ t.space.tag →
      (∀ model changed accepted, changed.validate other.schema model false = .ok accepted → ∀ known s w trace,
        (other.update model id changed).Ensures world.noted known s (w, trace) fun r _ _ later =>
          Refused id (.inconsistentData model (some id) "entity does not belong to this namespace") trace r later) ∧
      ∀ s w trace, (other.delete id).Ensures world.noted s (w, trace) fun r _ later =>
        Refused id (.inconsistentData other.space.tag (some id) "entity does not belong to this namespace") trace r later := by
  obtain ⟨type, htype, hrow⟩ := claimsOfRow_of_rowData hmade hreserved hfields
  obtain ⟨fields, hmodelFields, -⟩ := Values.validate_eq_ok hvalid
  obtain ⟨chain, hchain, -⟩ := Schema.ancestry_of_fields hmodelFields
  have habove := Schema.ancestry_eq_ok.1 hchain
  refine ⟨t.insert_eq model checked, ⟨chain, hchain, habove.mem_last, ?_⟩, fun s w post => delete_iff hworld hrow,
    fun s w trace => delete_proceeds hworld hrow, ?_⟩
  · intro ancestor hancestor known hwithin changed accepted hchanged s w post
    have hmodel := habove.mem_descendants (Schema.nodup_of_ofModels hschema) hancestor
    exact update_iff hworld hrow (hwithin.types _ _ htype) hmodel hchanged
  · intro other hsame hspace
    refine ⟨fun model changed accepted hchanged known s w trace => ?_, fun s w trace => ?_⟩
    · exact update_foreign hworld hrow hsame hspace hchanged
    · exact delete_foreign hworld hrow hsame hspace

section Shown

def shownClaims (id : String) (data : Json) (p : PropertyId) : List Json :=
  ((Export.facts data).filter (·.1 = p)).map fun f => StoredClaim.toJson p ⟨id ++ "$" ++ p.text, some f.2⟩

def shownDocument (id : String) (data : Json) : Json :=
  .ofEntries [("entities", .ofEntries [(id, .ofEntries [("claims",
    .ofEntries (((Export.facts data).map (·.1)).map fun p => (p.text, .array (shownClaims id data p))))])])]

theorem handsBack_shownDocument (id : String) (data : Json) : HandsBack id data (shownDocument id data) := by
  have hentity : ((shownDocument id data).get "entities").get id = .ofEntries [("claims",
      .ofEntries (((Export.facts data).map (·.1)).map fun p => (p.text, .array (shownClaims id data p))))] := by
    simp [shownDocument, Json.get_ofEntries]
  have hshows : ∀ (p : PropertyId) guid d, ShowsClaim d (StoredClaim.toJson p ⟨guid, some d⟩) := by
    intro p guid d
    simp [ShowsClaim, StoredClaim.toJson, Json.get_ofEntries, Json.get?_ofEntries, List.lookup_cons, Json.text?]
  refine ⟨?_, ?_, (Export.facts data).map (·.1), shownClaims id data, ?_, fun p => ⟨fun hne => ?_, fun j hj => ?_, fun d hd => ?_⟩⟩
  · simp [shownDocument, ApiError.ofJson?, Json.get?_ofEntries, List.lookup_cons]
  · rw [hentity]
    exact ⟨rfl, by simp [Json.get?_ofEntries, List.lookup_cons]⟩
  · rw [hentity]
    simp [Json.get_ofEntries]
  · obtain ⟨j, hj⟩ := List.exists_mem_of_ne_nil _ hne
    obtain ⟨f, hf, -⟩ := List.mem_map.1 hj
    obtain ⟨hf, hp⟩ := List.mem_filter.1 hf
    exact List.mem_map.2 ⟨f, hf, of_decide_eq_true hp⟩
  · obtain ⟨⟨q, d⟩, hf, rfl⟩ := List.mem_map.1 hj
    obtain ⟨hfact, hq⟩ := List.mem_filter.1 hf
    obtain rfl : q = p := of_decide_eq_true hq
    exact ⟨d, hfact, hshows q _ d⟩
  · exact ⟨_, List.mem_map.2 ⟨(p, d), List.mem_filter.2 ⟨hd, decide_eq_true rfl⟩, rfl⟩, hshows p _ d⟩

def showingWorld (id : String) (data : Json) : World Unit
  | _, .send (.get ps), answer, _ => ps = claimsParameters id → answer = .ok (shownDocument id data)
  | _, _, _, _ => True

theorem handingBack_showingWorld (id : String) (data : Json) : HandingBack (showingWorld id data) id data :=
  fun _ _ _ h => ⟨_, h rfl, handsBack_shownDocument id data⟩

def authorMappings : Mappings where
  fields := [(⟨"Person", "name"⟩, ⟨5⟩)]
  owners := [(⟨5⟩, ⟨"Person", "name"⟩)]
  types := [("Author", ⟨11⟩), ("Person", ⟨10⟩)]

def adaChecked : CheckedValues :=
  [(⟨"Person", ⟨"name", .text, false, false⟩⟩, .text "Ada")]

def adaData (name : String) : Json :=
  authorTables.client.itemData (authorTables.space.rowLabel "Author" name) (authorTables.rowStatements ⟨11⟩ ++
    [Claim.statement ⟨5⟩ (Claim.stringDatavalue "Ada")])

theorem adaData_goes :
    (authorTables.rowData "Author" adaChecked).Goes authorMappings .fresh [] (.ok (adaData "0")) authorMappings .fresh := by
  have hrun : ((authorTables.rowData "Author" adaChecked).run.run authorMappings).run .fresh =
      .perform .freshName fun name => .done ((.ok (adaData name), authorMappings), .fresh) := rfl
  have hgoes := @Dialogue.Goes.perform ((Except Error Json × Mappings) × Session) .freshName
    (fun name => .done ((.ok (adaData name), authorMappings), .fresh)) "0" _ _ (.done _)
  rw [Action.Goes, hrun]
  exact hgoes

def adaSession : Session :=
  .loggedIn "Admin@wikigraph"

def adaDeletion : Exchange :=
  ⟨.post (Client.signed (.issued "Admin@wikigraph") (Client.createClaimParameters "Q12" "P4" (.string "test"))),
    .ok doneBody⟩

theorem created_row_recognised_ada :
    Values.validate authorTables.schema "Author" [("name", .text "Ada")] true = .ok adaChecked ∧
      (authorTables.rowData "Author" adaChecked).Goes authorMappings .fresh [] (.ok (adaData "0")) authorMappings .fresh ∧
      HandingBack (showingWorld "Q12" (adaData "0")) "Q12" (adaData "0") ∧
      ((authorTables.update "Person" "Q12" [("name", .text "Ada")]).Ensures (showingWorld "Q12" (adaData "0"))
        authorMappings .fresh () fun r _ _ _ => r = .ok []) ∧
      ((authorTables.delete "Q12").Goes adaSession
        [⟨.get (claimsParameters "Q12"), .ok (shownDocument "Q12" (adaData "0"))⟩, adaDeletion] (.ok ()) adaSession ∧
        authorTables.SendsDeletion "Q12" adaSession [adaDeletion] (.ok ())) ∧
      (Tables.delete { authorTables with space := ⟨"other"⟩ } "Q12").Ensures (showingWorld "Q12" (adaData "0")).noted .fresh
        ((), []) fun r _ _ => r = .error (.inconsistentData "other" (some "Q12") "entity does not belong to this namespace") := by
  have hschema : Schema.ofModels authorTables.schema.models = .ok authorTables.schema := rfl
  have hvalid : Values.validate authorTables.schema "Author" [("name", .text "Ada")] true = .ok adaChecked := rfl
  have hreserved : [authorTables.reserved.instanceOf, authorTables.reserved.subclassOf, authorTables.reserved.tag,
      authorTables.reserved.deleted].Nodup := by decide
  have hfields : ∀ key p, authorMappings.fields.lookup key = some p → p ∉ [authorTables.reserved.instanceOf,
      authorTables.reserved.subclassOf, authorTables.reserved.tag, authorTables.reserved.deleted] := by
    intro key p h
    obtain ⟨rfl, rfl⟩ := Prod.mk.inj (List.mem_singleton.1 (Keyed.mem_of_lookup h))
    decide
  have hworld := handingBack_showingWorld "Q12" (adaData "0")
  obtain ⟨-, ⟨chain, hchain, -, hupdate⟩, -, hdelete, hforeign⟩ :=
    created_row_recognised hschema hvalid adaData_goes hreserved hfields hworld
  have hperson : ⟨"Person", none, [⟨"name", .text, false, false⟩]⟩ ∈ chain := by
    obtain rfl := Except.ok.inj ((rfl : authorTables.schema.ancestry "Author" = .ok authorTables.schema.models.reverse).symm.trans hchain)
    decide
  have hchanged : Values.validate authorTables.schema "Person" [("name", .text "Ada")] false = .ok adaChecked := rfl
  obtain ⟨answer, sent, hsent, hproceeds⟩ := hdelete adaSession () [] (.ok (shownDocument "Q12" (adaData "0"))) ((), _)
    ⟨fun _ => rfl, rfl⟩ (0 : Int) ((), _) ⟨trivial, rfl⟩ (.ok doneBody) ((), _) ⟨trivial, rfl⟩
  obtain rfl : sent = [adaDeletion] := (List.cons.inj hsent).2.symm
  have hgoes : (authorTables.delete "Q12").Goes adaSession
      [⟨.get (claimsParameters "Q12"), .ok (shownDocument "Q12" (adaData "0"))⟩, adaDeletion] (.ok ()) adaSession :=
    Dialogue.goes_followed ((authorTables.delete "Q12").run.run adaSession)
      (.start [.document (shownDocument "Q12" (adaData "0")), successReply] 0 "")
  refine ⟨hvalid, adaData_goes, hworld, ?_, ⟨hgoes, hproceeds⟩, ?_⟩
  · refine (hupdate _ hperson authorMappings (.refl _) _ _ hchanged .fresh () _).2 fun answer w' hanswer => ?_
    obtain rfl := hanswer rfl
    rfl
  · exact ((hforeign { authorTables with space := ⟨"other"⟩ } rfl (by decide)).2 .fresh () []).mono fun _ _ _ h => h.refused

end Shown

end ClaimTables.Tables
