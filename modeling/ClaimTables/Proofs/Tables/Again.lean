import ClaimTables.Proofs.Tables.Outcome
import ClaimTables.Proofs.Tables.Repeating
import ClaimTables.Proofs.Tables.Settling

/-!
An update that is made again. Main statement: once an update has succeeded, the same update with the same lookups sends
no edit and changes no field, if the references among its values are written as the store writes them.
-/

namespace ClaimTables

def Mappings.Spares (m : Mappings) (r : Reserved) : Prop :=
  ∀ k p, m.fields.lookup k = some p → p ∉ [r.instanceOf, r.tag, r.deleted]

namespace Tables

open Store Tables.Action

variable {t : Tables} {registered : String → PropertyId} {answers : String → Sparql.Solutions} {I : Store → Prop}
  {W : Type} {world : World W} {id : String} {claims claims' : ClaimSet} {w w' : Store} {m : Mappings} {s : Session}

theorem checkOwned_congr (model id : String)
    (h : ∀ p ∈ [t.reserved.instanceOf, t.reserved.tag, t.reserved.deleted], claims'.get p = claims.get p) :
    t.checkOwned model id (some claims') = (fun _ => claims') <$> t.checkOwned model id (some claims) := by
  have hmap : ∀ {c : Prop} [Decidable c] {e : Error} {x y : Action ClaimSet}, y = (fun _ => claims') <$> x →
      (if c then (throw e : Action PUnit) >>= fun _ => y else y) =
        (fun _ => claims') <$> (if c then (throw e : Action PUnit) >>= fun _ => x else x) := by
    rintro c _ e x _ rfl
    split
    · exact (map_bind _ _ _).symm
    · rfl
  simp only [List.forall_mem_cons] at h
  obtain ⟨hinstanceOf, htag, hdeleted, -⟩ := h
  simp only [checkOwned, ClaimSet.hasString, ClaimSet.items, hinstanceOf, htag, hdeleted]
  refine hmap (hmap ?_)
  rw [map_bind]
  exact congrArg (t.rowTypes model >>= ·) (funext fun allowed => hmap rfl)

theorem gains_changes (values : CheckedValues) {w : W} :
    (t.changesOf values).Gains world m s w fun changes m' =>
      changes.map (fun change => (change.field, change.value)) = values ∧
        ∀ change ∈ changes, m'.fields.lookup change.field.key = some change.property ∧
          m'.owners.lookup change.property = some change.field.key := by
  induction values generalizing m s w with
  | nil => exact .of_pure ⟨rfl, by simp⟩
  | cons e rest ih =>
    obtain ⟨f, v⟩ := e
    refine (t.gains_propertyOf f).bind fun p m₁ s₁ w₁ _ hp => ih.bind fun changes m₂ s₂ w₂ hwithin hchanges => ?_
    refine .of_pure ⟨congrArg ((f, v) :: ·) hchanges.1, List.forall_mem_cons.2 ⟨?_, hchanges.2⟩⟩
    exact ⟨hwithin.fields _ _ hp.1, hwithin.owners _ _ hp.2⟩

theorem nodup_properties {changes : List Change} {m : Mappings}
    (hfields : (changes.map (·.field.key)).Nodup)
    (howners : ∀ change ∈ changes, m.owners.lookup change.property = some change.field.key) :
    (changes.map (·.property)).Nodup := by
  refine (List.Nodup.of_map _ hfields).map_on fun change hchange other hother h => ?_
  refine List.inj_on_of_nodup_map hfields hchange hother (Option.some.inj ?_)
  rw [← howners change hchange, ← howners other hother, h]

theorem nodup_checked (hschema : t.schema.Valid) {model : String} {values : Values} {creating : Bool}
    {checked : CheckedValues} (hvalid : values.validate t.schema model creating = .ok checked) :
    (checked.map (·.1.key)).Nodup := by
  obtain ⟨fields, hfields, rfl, -⟩ := Values.validate_eq_ok hvalid
  have hnames := ((sublist_checked values fields).map (·.field.name)).nodup (hschema.nodup hfields)
  rw [List.map_map] at hnames
  refine (List.Nodup.of_map _ hnames).map_on fun e he other hother h => ?_
  exact List.inj_on_of_nodup_map hnames he hother (name_eq_of_key_eq h)

theorem Action.Repeats.ensures {α : Type} {P : Request → Prop} {x : Action α} {post : α → Prop}
    (hx : x.Repeats (.answering registered answers) P) (hkeeps : x.Maintains (.storing registered) (fun _ => I) post)
    (m : Mappings) (s : Session) (hw : I w) :
    x.Ensures (.answering registered answers) m s w fun r m' _ w' => I w' ∧ m.Within m' ∧ ∀ a, r = .ok a →
      post a ∧ ∀ m'', m'.Within m'' → ∀ v, x.OnlyAsks (.answering registered answers) P m'' v (· = a) := by
  have hkept : x.Ensures (.answering registered answers) m s w fun r _ _ w' => I w' ∧ ∀ a, r = .ok a → post a :=
    Dialogue.Ensures.restrict (hkeeps m s w hw) Client.storing_of_answering
  refine (hkept.and (hx m s w)).mono ?_
  rintro r m' s' w' ⟨⟨hw', hpost⟩, hwithin, hrepeats⟩
  exact ⟨hw', hwithin, fun a ha => ⟨hpost a ha, hrepeats a ha⟩⟩

inductive Looks (id : String) : Request → Prop
  | claims : Looks id (.get (claimsParameters id))
  | rows (text : String) : Looks id (.query text)

section SecondTime

variable {model : String} {values : Values} {checked : CheckedValues} {changes : List Change}

theorem ownedClaims_asks (hid : id ∈ w.ids)
    (howned : (t.checkOwned model id (some claims)).OnlyAsks (.answering registered answers) (Looks id) m w (· = claims))
    (hreserved : ∀ p ∈ [t.reserved.instanceOf, t.reserved.tag, t.reserved.deleted], claims.get p = w.claimsOf id p) :
    (t.ownedClaims model id).OnlyAsks (.answering registered answers) (Looks id) m w fun found =>
      ∀ p, found.get p = w.claimsOf id p := by
  intro s trace
  rw [ownedClaims_eq, ensures_bind, ensures_ofClient]
  refine (Client.getClaims_asked t.client hid Looks.claims).mono ?_
  rintro r s' ⟨v, later⟩ hasked
  obtain rfl : v = w := hasked.same
  match r, hasked with
  | .error e, hasked => exact ⟨rfl, hasked⟩
  | .ok none, hasked => exact ⟨rfl, hasked⟩
  | .ok (some found), hasked =>
    have hfound := hasked.expected_of_ok
    have hcheck : (t.checkOwned model id (some found)).OnlyAsks (.answering registered answers) (Looks id) m v
        fun found => ∀ p, found.get p = v.claimsOf id p := by
      rw [checkOwned_congr model id fun p hp => (hfound p).trans (hreserved p hp).symm]
      exact howned.map fun _ _ => hfound
    refine (hcheck s' later).mono ?_
    rintro r m' s'' last ⟨rfl, hlast⟩
    exact ⟨rfl, hasked.trans hlast⟩

/-- That what an update does before its edits only asks, whatever has become of the store. -/
structure Recalls (t : Tables) (registered : String → PropertyId) (answers : String → Sparql.Solutions)
    (model id : String) (claims : ClaimSet) (checked : CheckedValues) (changes : List Change) (m : Mappings) : Prop where
  owned : ∀ w, (t.checkOwned model id (some claims)).OnlyAsks (.answering registered answers) (Looks id) m w (· = claims)
  unique : ∀ w, (t.checkUnique (some id) checked).OnlyAsks (.answering registered answers) (Looks id) m w (· = ())
  changes : ∀ w, (t.changesOf checked).OnlyAsks (.answering registered answers) (Looks id) m w (· = changes)

theorem update_asks (h : t.Recalls registered answers model id claims checked changes m)
    (hvalid : values.validate t.schema model false = .ok checked) (hid : id ∈ w.ids)
    (hreserved : ∀ p ∈ [t.reserved.instanceOf, t.reserved.tag, t.reserved.deleted], claims.get p = w.claimsOf id p)
    (hsettled : ∀ change ∈ changes, change.Settled id w) :
    (t.update model id values).OnlyAsks (.answering registered answers) (Looks id) m w (· = []) := by
  refine (OnlyAsks.of_gives fun s => Gives.of_except hvalid).bind ?_
  rintro _ rfl
  refine (ownedClaims_asks hid (h.owned w) hreserved).bind fun found hfound => (h.unique w).bind fun _ _ => ?_
  refine (h.changes w).bind ?_
  rintro changes rfl
  have hplans : ∀ change ∈ changes,
      ClaimEdit.plan change.field.field.type change.value (found.get change.property) = .ok [] := by
    intro change hchange
    rw [hfound]
    exact hsettled change hchange
  rw [applyChanges_settled t.client model id hplans]
  exact .of_gives fun s => Gives.bind (a := _) rfl (Gives.of_except (updateResult_settled id changes))

theorem changes_of_checked (hschema : t.schema.Valid)
    (hvalid : values.validate t.schema model false = .ok checked) (hcanonical : ∀ e ∈ values, e.2.canonical = e.2)
    (hsame : changes.map (fun change => (change.field, change.value)) = checked)
    (howners : ∀ change ∈ changes, m.owners.lookup change.property = some change.field.key) :
    (changes.map (·.property)).Nodup ∧
      ∀ change ∈ changes, Values.Allowed change.field change.value ∧ change.value.canonical = change.value := by
  have hkeys := nodup_checked hschema hvalid
  rw [← hsame, List.map_map] at hkeys
  refine ⟨nodup_properties hkeys howners, fun change hchange => ?_⟩
  have hmem : (change.field, change.value) ∈ checked := hsame ▸ List.mem_map_of_mem hchange
  obtain ⟨-, hgiven, hallowed⟩ := Values.given_of_validate hvalid hmem
  exact ⟨hallowed, hcanonical _ (Keyed.mem_of_lookup hgiven)⟩

theorem edits_settle (h : t.Recalls registered answers model id claims checked changes m)
    (hvalid : values.validate t.schema model false = .ok checked) (hw : Holding id claims WellKept w)
    (hspares : ∀ change ∈ changes, change.property ∉ [t.reserved.instanceOf, t.reserved.tag, t.reserved.deleted])
    (hnodup : (changes.map (·.property)).Nodup)
    (hallowed : ∀ change ∈ changes, Values.Allowed change.field change.value ∧ change.value.canonical = change.value)
    (s : Session) :
    (applyChanges t.client model id claims changes).Ensures (.answering registered answers) s w fun r _ w' =>
      ∀ results, r = .ok results → failures results = [] →
        (t.update model id values).OnlyAsks (.answering registered answers) (Looks id) m w' (· = []) := by
  refine (applyChanges_done t.client model hnodup (fun change _ => hw.claims change.property) hallowed s
    hw.kept).answering.mono ?_
  rintro r s' w' ⟨⟨htouched, -⟩, hsettled⟩ results hresults hnone
  refine update_asks h hvalid ?_ ?_ (hsettled results hresults hnone)
  · rw [ids, htouched.entities]
    exact hw.known
  · -- The edits touch the properties of the changes, and none of these says whether the entity is a row.
    intro p hp
    refine (hw.claims p).trans (htouched.claimsOf id p ?_).symm
    rintro ⟨-, hmem⟩
    obtain ⟨change, hchange, rfl⟩ := List.mem_map.1 hmem
    exact hspares change hchange hp

theorem update_settles (hschema : t.schema.Valid) (hnamed : ∀ m ∈ t.schema.models, Schema.isIdentifier m.name = true)
    (model id : String) (hcanonical : ∀ e ∈ values, e.2.canonical = e.2) (m : Mappings) (s : Session) (hw : w.WellKept) :
    (t.update model id values).Ensures (.answering registered answers) m s w fun r m' _ w' =>
      ∀ changed, r = .ok changed → m'.Spares t.reserved →
        (t.update model id values).OnlyAsks (.answering registered answers) (Looks id) m' w' (· = []) := by
  refine ensures_bind.2 (ensures_ofExcept.2 ?_)
  cases hvalid : values.validate t.schema model false with
  | error e => simp
  | ok checked =>
    dsimp only
    rw [ownedClaims_eq, bind_assoc, ensures_bind, ensures_ofClient]
    refine (Client.getClaims_ensures t.client id s w).answering.mono ?_
    rintro r s₁ w₁ ⟨rfl, hread⟩
    match r, hread with
    | .error e, _ | .ok none, _ => exact fun _ h => by cases h
    | .ok (some claims), hread =>
      obtain ⟨hid, hclaims⟩ := hread claims rfl
      -- Until the first edit the claims that were fetched are those of the row: the lookups make other entities only.
      have hsteady := ((quiet_wellKept t registered).holding id claims).steady hnamed
      have hstart : Holding id claims WellKept w₁ := ⟨hw, hid, hclaims⟩
      have hrepeats : t.Closed (Repeats (.answering registered answers) (Looks id)) := t.closed_repeats Looks.rows
      refine ((hrepeats.checkOwned model id (some claims)).ensures (hsteady.checkOwned model id claims) m s₁ hstart).bind ?_
        fun _ _ _ _ _ => by simp
      rintro found m₁ s₁ w₁ ⟨hw₁, -, howned⟩
      obtain ⟨rfl, howned⟩ := howned found rfl
      refine ((hrepeats.checkUnique (some id) checked).ensures (hsteady.closed.checkUnique (some id) checked)
        m₁ s₁ hw₁).bind ?_ fun _ _ _ _ _ => by simp
      rintro _ m₂ s₂ w₂ ⟨hw₂, hwithin₁, hunique⟩
      have hvalues := Values.effective_of_validate hvalid
      refine (((hrepeats.changesOf hvalues).ensures (hsteady.closed.changesOf hvalues) m₂ s₂ hw₂).and
        (gains_changes checked)).bind ?_ fun _ _ _ _ _ => by simp
      rintro changes m₃ s₃ w₃ ⟨⟨hw₃, hwithin₂, hchanges⟩, -, hshape⟩
      obtain ⟨hsame, hknown⟩ := hshape changes rfl
      obtain ⟨hnodup, hallowed⟩ := changes_of_checked hschema hvalid hcanonical hsame fun c hc => (hknown c hc).2
      have hrecalls : t.Recalls registered answers model id found checked changes m₃ :=
        ⟨howned m₃ (hwithin₁.trans hwithin₂), (hunique () rfl).2 m₃ hwithin₂, (hchanges changes rfl).2 m₃ (.refl m₃)⟩
      rw [ensures_bind]
      refine ensures_ofClient.2 (Client.Action.Ensures.mono (Client.Action.Ensures.imp fun hspares =>
        edits_settle hrecalls hvalid hw₃ hspares hnodup hallowed s₃) ?_)
      intro r s₄ w₄ hasks
      cases r with
      | error e => simp
      | ok results =>
        refine ensures_ofExcept.2 fun changed hchanged hspares => ?_
        exact hasks (fun change hchange => hspares _ _ (hknown change hchange).1) results rfl
          (failures_of_updateResult hchanged)

end SecondTime

/--
Once an update has succeeded, the same update with lookups answered as before asks for the claims of the row and for
rows with the same values, at most. It sends nothing else, and unless one of these exchanges fails, it changes no field.
-/
theorem update_again (t : Tables) {models : List Model} (hschema : Schema.ofModels models = .ok t.schema)
    (registered : String → PropertyId) (answers : String → Sparql.Solutions) (model id : String) {values : Values}
    (hcanonical : ∀ e ∈ values, e.2.canonical = e.2) (m : Mappings) (s : Session) {w : Store} (hw : w.WellKept) :
    (t.update model id values).Ensures (.answering registered answers) m s w fun r m' _ w' =>
      ∀ changed, r = .ok changed → m'.Spares t.reserved → ∀ s',
        (t.update model id values).Ensures (World.answering registered answers).noted m' s' (w', []) fun again _ _ later =>
          later.1 = w' ∧ (∀ x ∈ later.2, Looks id x.request) ∧
            (again = .ok [] ∨ (∃ e, again = .error e) ∧ ∃ x ∈ later.2, x.Fails) := by
  refine (update_settles (Schema.valid_of_ofModels hschema) (fun m hm => Schema.isIdentifier_of_ofModels hschema hm) model
    id hcanonical m s hw).mono ?_
  intro r m' s₁ w' hasks changed hchanged hspares s'
  refine (hasks changed hchanged hspares s' []).mono ?_
  rintro again _ s₂ ⟨_, _⟩ ⟨rfl, rfl, more, rfl, hmore, ⟨a, rfl, rfl⟩ | ⟨e, rfl, hfails⟩⟩
  · exact ⟨rfl, hmore, .inl rfl⟩
  · exact ⟨rfl, hmore, .inr ⟨⟨e, rfl⟩, hfails⟩⟩

section Scripted

def bossTables : Tables :=
  personTables [⟨"boss", .reference "Person", true, false⟩]

def unassigned : Store :=
  ⟨[("Q7", .null)], [⟨⟨"Q7$a", some (Claim.itemDatavalue ⟨10⟩)⟩, "Q7", ⟨1⟩⟩,
    ⟨⟨"Q7$b", some (Claim.stringDatavalue "test")⟩, "Q7", ⟨3⟩⟩]⟩

@[irreducible]
def bossNine : Values := [("boss", .reference "Q9")]

def assigned : Store :=
  { unassigned with claims := unassigned.claims ++ [⟨⟨"Q7$c", some (Store.stored (Claim.itemValue ⟨9⟩))⟩, "Q7", ⟨5⟩⟩] }

theorem unassigned_step : unassigned.Step (fun _ => ⟨5⟩) (.addClaim "Q7" ⟨5⟩ (Claim.itemValue ⟨9⟩)) assigned doneBody :=
  .addClaim (by decide) ⟨by decide, by decide, by decide⟩

def bossMappings : Mappings where
  fields := [(⟨"Person", "boss"⟩, ⟨5⟩)]
  owners := [(⟨5⟩, ⟨"Person", "boss"⟩)]
  types := [("Person", ⟨10⟩)]

def bossSession : Session :=
  .loggedIn "Admin@wikigraph"

def readBoss (w : Store) : Exchange :=
  ⟨.get (claimsParameters "Q7"), .ok (w.shown "Q7")⟩

def writeBoss : Exchange :=
  ⟨.post (Client.signed (.issued "Admin@wikigraph") (Client.createClaimParameters "Q7" "P5" (Claim.itemValue ⟨9⟩))),
    .ok doneBody⟩

theorem bossNine_goes : (bossTables.update "Person" "Q7" bossNine).Goes bossMappings bossSession
    [readBoss unassigned, writeBoss] (.ok ["boss"]) bossMappings bossSession := by
  rw [bossNine]
  exact Dialogue.goes_followed (((bossTables.update "Person" "Q7" [("boss", .reference "Q9")]).run.run bossMappings).run
    bossSession) (.start [.document (unassigned.shown "Q7"), .document doneBody] 0 "")

theorem bossNine_goes_again : (bossTables.update "Person" "Q7" bossNine).Goes bossMappings bossSession [readBoss assigned]
    (.ok []) bossMappings bossSession := by
  rw [bossNine]
  exact Dialogue.goes_followed (((bossTables.update "Person" "Q7" [("boss", .reference "Q9")]).run.run bossMappings).run
    bossSession) (.start [.document (assigned.shown "Q7")] 0 "")

def bossWorld : World Store :=
  .answering (fun _ => ⟨5⟩) fun _ => ⟨[], []⟩

/-- The boss is recorded by the first update, and the second finds the row as it should be. -/
theorem update_again_boss : Schema.ofModels bossTables.schema.models = .ok bossTables.schema ∧
    (∀ e ∈ bossNine, e.2.canonical = e.2) ∧ unassigned.WellKept ∧
    (bossTables.update "Person" "Q7" bossNine).Goes bossMappings bossSession [readBoss unassigned, writeBoss]
      (.ok ["boss"]) bossMappings bossSession ∧
    bossWorld.Passes unassigned [readBoss unassigned, writeBoss] assigned ∧ bossMappings.Spares bossTables.reserved ∧
    (bossTables.update "Person" "Q7" bossNine).Goes bossMappings bossSession [readBoss assigned] (.ok []) bossMappings
      bossSession ∧
    bossWorld.Passes assigned [readBoss assigned] assigned ∧ ∀ x ∈ [readBoss assigned], Looks "Q7" x.request := by
  have hschema : Schema.ofModels bossTables.schema.models = .ok bossTables.schema := rfl
  have hcanonical : ∀ e ∈ bossNine, e.2.canonical = e.2 := by
    rw [bossNine]
    decide
  have hkept : unassigned.WellKept := ⟨by decide, by decide, by decide⟩
  have hread (w : Store) : bossWorld w (.send (readBoss w).request) (readBoss w).reply w :=
    storing_shows (fun _ => ⟨5⟩) w "Q7"
  have hfirst : bossWorld.Passes unassigned [readBoss unassigned, writeBoss] assigned :=
    .cons (hread unassigned) (.cons
      (storing_applied (StoreEdit.ofParameters?_createClaim _ _ ⟨5⟩ _) unassigned_step rfl) (.nil _))
  have hsecond : bossWorld.Passes assigned [readBoss assigned] assigned := .cons (hread assigned) (.nil _)
  have hspares : bossMappings.Spares bossTables.reserved := by
    intro k p h
    obtain ⟨rfl, rfl⟩ := Prod.mk.inj (List.mem_singleton.1 (Keyed.mem_of_lookup h))
    decide
  have hagain := Action.Ensures.passes (update_again bossTables hschema (fun _ => ⟨5⟩) (fun _ => ⟨[], []⟩) "Person" "Q7"
    hcanonical bossMappings bossSession hkept) (Client.still_answering _ _) bossNine_goes hfirst ["boss"] rfl hspares bossSession
  exact ⟨hschema, hcanonical, hkept, bossNine_goes, hfirst, hspares, bossNine_goes_again, hsecond,
    (Action.Ensures.passes hagain (Client.still_answering _ _).noted bossNine_goes_again (hsecond.noted [])).2.1⟩

def assignTwice : Action (List String × List String) := do
  let first ← bossTables.update "Person" "Q7" [("boss", .reference "Q09")]
  let again ← bossTables.update "Person" "Q7" [("boss", .reference "Q09")]
  pure (first, again)

def bothAccepted : Conversation :=
  .start ([.document (unassigned.shown "Q7"), foundReply "Q10" "Person in test", foundReply "P5" "Person.boss in test"] ++
    loginReplies ++ [successReply, .document (assigned.shown "Q7"), successReply]) 0 ""

def acceptedActions (trace : List Exchange) : List String :=
  (trace.filter Accepted).map fun x =>
    match x.request with
    | .post ps => ps.action
    | _ => ""

/-- Though the store keeps the claim that is added, the second update replaces its value and reports a change. -/
theorem update_sends_again :
    unassigned.Step (fun _ => ⟨5⟩) (.addClaim "Q7" ⟨5⟩ (Claim.itemValue ⟨9⟩)) assigned .null ∧
      (assignTwice.follow .empty .fresh bothAccepted).1 = .ok (["boss"], ["boss"]) ∧
      acceptedActions (assignTwice.follow .empty .fresh bothAccepted).2 = ["wbcreateclaim", "wbsetclaimvalue"] := by
  exact ⟨.addClaim (by decide) ⟨by decide, by decide, by decide⟩, by decide +kernel, by decide +kernel⟩

end Scripted

end Tables

end ClaimTables
