import ClaimTables.Proofs.Client.Sending
import ClaimTables.Proofs.Service.Store

/-!
What a client brings about in a store that edits may fail on. Reading leaves the store as it is; an edit is
applied once or not at all, whatever the client is told.
-/

namespace ClaimTables

open Store

variable {registered : String → PropertyId} {s : Session} {w : Store}

namespace StoreEdit

theorem ofParameters?_createEntity (token : Token) (kind : EntityKind) (data : Json) :
    ofParameters? (Client.signed token (Client.createEntityParameters kind data)) = some (.make kind.name data) := rfl

theorem ofParameters?_createClaim (token : Token) (id : String) (p : PropertyId) (value : Json) :
    ofParameters? (Client.signed token (Client.createClaimParameters id p.text value)) =
      some (.addClaim id p value) := by
  have hread : ofParameters? (Client.signed token (Client.createClaimParameters id p.text value)) =
      (PropertyId.ofText? p.text).bind fun q => some (.addClaim id q value) := rfl
  rw [hread, PropertyId.ofText?_text, Option.bind_some]

theorem ofParameters?_setClaimValue (token : Token) (guid : String) (value : Json) :
    ofParameters? (Client.signed token (Client.setClaimValueParameters guid value)) =
      some (.setValue guid value) := rfl

theorem splitOn_intercalate {guids : List String} (hne : guids ≠ []) (h : ∀ g ∈ guids, '|' ∉ g.toList) :
    (("|".intercalate guids).toList.splitOn '|').map String.ofList = guids := by
  have hbar : "|".toList = ['|'] := rfl
  rw [String.toList_intercalate, hbar, List.splitOn_intercalate, List.map_map]
  · simp
  · simpa using h
  · simpa using hne

theorem ofParameters?_removeClaims (token : Token) {guids : List String} (hne : guids ≠ [])
    (h : ∀ g ∈ guids, '|' ∉ g.toList) :
    ofParameters? (Client.signed token (Client.removeClaimsParameters guids)) = some (.removeClaims guids) := by
  have hread : ofParameters? (Client.signed token (Client.removeClaimsParameters guids)) =
      some (.removeClaims ((("|".intercalate guids).toList.splitOn '|').map String.ofList)) := rfl
  rw [hread, splitOn_intercalate hne h]

end StoreEdit

namespace Client

theorem sendAgain_ensures {W : Type} {world : World W} {r : Request}
    (hoff : ∀ v answer v', world v (.send r) answer v' → putsOff r answer = true → v' = v)
    (hwait : ∀ v milliseconds answer v', world v (.wait milliseconds) answer v' → v' = v) (left attempt : Nat)
    (v : W) : (sendAgain r left attempt).Ensures world v fun answer v' => world v (.send r) answer v' := by
  refine sendAgain_rule (I := fun u => u = v) (fun u answer u' hu h hputsOff => ?_) (fun u _ _ u' hu h => ?_)
    (fun u answer u' hu h => hu ▸ h) left attempt rfl
  · exact (hoff u answer u' h hputsOff).trans hu
  · exact (hwait u _ _ u' h).trans hu

theorem taken_putsOff {W : Type} {step : W → Json → Prop} {v v' : W} {ps : Parameters} {answer : Except Error Json}
    (h : Taken step v answer v') (hoff : putsOff (.post ps) answer = true) : v' = v := by
  cases h with
  | applied step unreported => simp [putsOff, ApiError.isTransient, unreported] at hoff
  | refused reported => rfl
  | lost step onTheWay => exact Bool.noConfusion hoff
  | unsent onTheWay => rfl

theorem request_ensures {W : Type} {world : World W} (c : Client) {r : Request}
    (hoff : ∀ v answer v', world v (.send r) answer v' → putsOff r answer = true → v' = v)
    (hwait : ∀ v milliseconds answer v', world v (.wait milliseconds) answer v' → v' = v) (s : Session) (v : W) :
    (c.request r).Ensures world s v fun answer _ v' => world v (.send r) answer v' :=
  Action.ensures_ofDialogue.2 (sendAgain_ensures hoff hwait _ 0 v)

theorem read_ensures (c : Client) (ps : Parameters) (s : Session) (w : Store) :
    (c.read ps).Ensures (.storing registered) s w fun r _ w' =>
      w' = w ∧ ∀ body, r = .ok body → w.Tells registered ps body := by
  have hrequest : (c.request (.get ps)).Ensures (.storing registered) s w fun answer _ w' =>
      World.storing registered w (.send (.get ps)) answer w' :=
    request_ensures c (fun _ _ _ h _ => h.1) (fun _ _ _ _ h => h) s w
  refine hrequest.bind (fun body s' w' h => ?_) fun e s' w' h => ⟨h.1, by simp⟩
  cases he : ApiError.ofJson? body with
  | some e => exact ⟨h.1, by simp⟩
  | none => exact ⟨h.1, fun body' hbody => Except.ok.inj hbody ▸ h.2 body rfl he⟩

theorem query_ensures (c : Client) (text : String) (s : Session) (w : Store) :
    (c.query text).Ensures (.storing registered) s w fun _ _ w' => w' = w := by
  have hrequest : (c.request (.query text)).Ensures (.storing registered) s w fun answer _ w' =>
      World.storing registered w (.send (.query text)) answer w' :=
    request_ensures c (fun _ _ _ h _ => h) (fun _ _ _ _ h => h) s w
  exact hrequest

theorem keeps_read {I : Store → Prop} (c : Client) (ps : Parameters) : Keeps (.storing registered) I (c.read ps) :=
  fun s w hw => (read_ensures c ps s w).mono fun _ _ _ h => h.1 ▸ hw

theorem keeps_query {I : Store → Prop} (c : Client) (text : String) : Keeps (.storing registered) I (c.query text) :=
  fun s w hw => (query_ensures c text s w).mono fun _ _ _ h => h ▸ hw

theorem keeps_findItem {I : Store → Prop} (c : Client) (label model : String) :
    Keeps (.storing registered) I (c.findItem label model) := by
  refine Keeps.bind ((keeps_read c _).bind fun body => keeps_pure _) fun hits => ?_
  split
  · exact keeps_pure _
  · exact (keeps_liftExcept _).bind fun i => keeps_pure _
  · exact keeps_throw _

section Edits

/--
How an edit ends, given what it does if it is applied: it was not applied, and that is an error, or it was applied once.
-/
inductive Written {W : Type} (step : W → Json → Prop) (v : W) : Except Error Json → W → Prop
  | not (e : Error) : Written step v (.error e) v
  | unknown (e : Error) {v' : W} {body : Json} (h : step v' body) : Written step v (.error e) v'
  | done {v' : W} {body : Json} (h : step v' body) : Written step v (.ok body) v'

/-- A world that an edit is sent to, in which neither time nor logging in changes anything. -/
structure Edits {W : Type} (world : World W) (step : W → W → Json → Prop) (ps : Parameters) : Prop where
  taken : ∀ token v answer v', world v (.send (.post (signed token ps))) answer v' → Taken (step v) v answer v'
  waits : ∀ v milliseconds answer v', world v (.wait milliseconds) answer v' → v' = v
  undisturbed : ∀ v, Undisturbed world fun v' => v' = v

variable {W : Type} {world : World W} {step : W → W → Json → Prop} {ps : Parameters} (hedits : Edits world step ps)

include hedits

theorem writeWith_ensures (c : Client) (token : Token) (s : Session) (v : W) :
    (c.writeWith token ps).Ensures world s v fun r _ v' =>
      Written (step v) v r v' ∧ ∀ e, r = .error e → e.isExpiry = true → v' = v := by
  have hrequest : (c.request (.post (signed token ps))).Ensures world s v fun answer _ v' =>
      world v (.send (.post (signed token ps))) answer v' :=
    request_ensures c (fun v answer v' h hoff => taken_putsOff (hedits.taken token v answer v' h) hoff) hedits.waits s v
  refine hrequest.bind (fun body s' v' h => ?_) fun e s' v' h => ?_
  · cases hedits.taken token v _ v' h with
    | applied step unreported =>
      rw [unreported]
      exact ⟨.done step, by simp⟩
    | refused reported =>
      rw [reported]
      exact ⟨.not _, fun _ _ _ => rfl⟩
  · have hexpiry : (∀ entity code info, e ≠ .remoteWrite entity code info) → e.isExpiry = false := by
      intro hway
      cases e with
      | remoteWrite entity code info => exact absurd rfl (hway entity code info)
      | _ => rfl
    cases hedits.taken token v _ v' h with
    | lost step onTheWay =>
      refine ⟨.unknown e step, fun e' he' hexp => ?_⟩
      obtain rfl := Except.error.inj he'
      exact Bool.noConfusion (hexp.symm.trans (hexpiry onTheWay))
    | unsent onTheWay => exact ⟨.not e, fun _ _ _ => rfl⟩

theorem outcome_ensures {f : Except Error Json → Action Json} (hok : ∀ body, f (.ok body) = pure body) {v : W}
    (hexpired : ∀ e s', e.isExpiry = true → (f (.error e)).Ensures world s' v fun r _ v' => Written (step v) v r v')
    (herror : ∀ e, e.isExpiry = false → f (.error e) = throw e) (c : Client) (token : Token) (s : Session) :
    ((c.writeWith token ps).outcome >>= f).Ensures world s v fun r _ v' => Written (step v) v r v' := by
  rw [Action.ensures_bind, Action.ensures_outcome]
  refine (writeWith_ensures hedits c token s v).mono fun r s' v' h => ?_
  cases r with
  | ok body =>
    dsimp only
    rw [hok]
    exact h.1
  | error e =>
    dsimp only
    cases he : e.isExpiry with
    | true =>
      obtain rfl := h.2 e rfl he
      exact hexpired e s' he
    | false =>
      rw [herror e he]
      exact h.1

theorem writeAnew_ensures (c : Client) (stale : Token) (s : Session) (v : W) :
    (c.writeAnew stale ps).Ensures world s v fun r _ v' => Written (step v) v r v' := by
  refine (keeps_refresh (hedits.undisturbed v) c stale s v rfl).bind (fun token s' v' h => ?_) fun e s' v' h => ?_
  · obtain rfl := h
    refine outcome_ensures hedits (fun _ => rfl) (fun e s' he => ?_) (fun e he => if_neg (by simp [he])) c token s'
    simp only [he, if_true]
    exact .not _
  · obtain rfl := h
    exact .not e

theorem write_ensures (c : Client) (s : Session) (v : W) :
    (c.write ps).Ensures world s v fun r _ v' => Written (step v) v r v' := by
  refine (keeps_ensureAuthenticated (hedits.undisturbed v) c s v rfl).bind (fun token s' v' h => ?_) fun e s' v' h => ?_
  · obtain rfl := h
    refine outcome_ensures hedits (fun _ => rfl) (fun e s' he => ?_) (fun e he => if_neg (by simp [he])) c token s'
    simp only [he, if_true]
    exact writeAnew_ensures hedits c token s' v'
  · obtain rfl := h
    exact .not e

end Edits

variable {edit : StoreEdit} {ps : Parameters}

theorem storing_edits (hps : ∀ token, StoreEdit.ofParameters? (signed token ps) = some edit) :
    Edits (World.storing registered) (fun w => w.Step registered edit) ps where
  taken token w answer w' h := by
    simp only [World.storing, hps token] at h
    exact h
  waits _ _ _ _ h := h
  undisturbed w := by
    refine ⟨?_, ?_⟩
    · rintro w now w' rfl rfl
      rfl
    · rintro r (kind | ⟨c, token⟩) w answer w' rfl h
      · exact h.1
      · exact h

theorem createEntity_ensures (c : Client) (kind : EntityKind) (data : Json) (s : Session) (hw : w.WellKept) :
    (c.createEntity kind data).Ensures (.storing registered) s w fun r _ w' =>
      (w' = w ∧ ∃ e, r = .error e) ∨
        ∃ id, Made registered kind.name data id w w' ∧ w'.WellKept ∧ ∀ given, r = .ok given → given = id := by
  refine (write_ensures (storing_edits (StoreEdit.ofParameters?_createEntity · kind data)) c s w).bind (fun body s' w' h => ?_)
    fun e s' w' h => ?_
  · cases h with
    | done step =>
      obtain ⟨id, htold, hmade⟩ := step.made hw
      rw [htold]
      exact .inr ⟨id, hmade, hw.step step, fun given h => (Except.ok.inj h).symm⟩
  · cases h with
    | not => exact .inl ⟨rfl, e, rfl⟩
    | unknown e step =>
      obtain ⟨id, -, hmade⟩ := step.made hw
      exact .inr ⟨id, hmade, hw.step step, by simp⟩

def Changes (registered : String → PropertyId) (w : Store) (edit : StoreEdit) (w' : Store) : Prop :=
  w' = w ∨ ∃ body, w.Step registered edit w' body

theorem onEntity_ensures {α W : Type} {world : World W} {P : W → Prop} {id : String} {x : Action α} {s : Session} {v : W}
    (h : x.Ensures world s v fun _ _ v' => P v') : (onEntity id x).Ensures world s v fun _ _ v' => P v' := by
  rw [onEntity, Action.ensures_bind, Action.ensures_outcome]
  refine h.mono fun r s' v' hv => ?_
  cases r <;> exact hv

theorem write_changes (c : Client) (s : Session) (w : Store)
    (hps : ∀ token, StoreEdit.ofParameters? (signed token ps) = some edit) :
    (c.write ps).Ensures (.storing registered) s w fun _ _ w' => Changes registered w edit w' := by
  refine (write_ensures (storing_edits hps) c s w).mono fun r s' w' h => ?_
  cases h with
  | not => exact .inl rfl
  | unknown _ step | done step => exact .inr ⟨_, step⟩

theorem createClaim_changes (c : Client) (id : String) (p : PropertyId) (value : Json) (s : Session) (w : Store) :
    (c.createClaim id p.text value).Ensures (.storing registered) s w fun _ _ w' =>
      Changes registered w (.addClaim id p value) w' :=
  (onEntity_ensures (write_changes c s w (StoreEdit.ofParameters?_createClaim · id p value))).bind
    (fun _ _ _ h => h) fun _ _ _ h => h

theorem setClaimValue_changes (c : Client) (id guid : String) (value : Json) (s : Session) (w : Store) :
    (c.setClaimValue id guid value).Ensures (.storing registered) s w fun _ _ w' =>
      Changes registered w (.setValue guid value) w' :=
  (onEntity_ensures (write_changes c s w (StoreEdit.ofParameters?_setClaimValue · guid value))).bind
    (fun _ _ _ h => h) fun _ _ _ h => h

theorem removeClaims_changes (c : Client) (id : String) {guids : List String} (h : ∀ g ∈ guids, '|' ∉ g.toList)
    (s : Session) (w : Store) :
    (c.removeClaims id guids).Ensures (.storing registered) s w fun _ _ w' =>
      Changes registered w (.removeClaims guids) w' := by
  rw [removeClaims]
  split
  · exact .inl rfl
  · next hne =>
    have hne : guids ≠ [] := by simpa using hne
    exact (onEntity_ensures (write_changes c s w fun token => StoreEdit.ofParameters?_removeClaims token hne h)).bind
      (fun _ _ _ h => h) fun _ _ _ h => h

theorem getClaims_ensures (c : Client) (id : String) (s : Session) (w : Store) :
    (c.getClaims id).Ensures (.storing registered) s w fun r _ w' =>
      w' = w ∧ ∀ claims, r = .ok (some claims) → id ∈ w.ids ∧ ∀ p, claims.get p = w.claimsOf id p := by
  rw [getClaims, Action.ensures_bind, Action.ensures_outcome]
  refine (read_ensures c _ s w).mono fun r s' w' h => ?_
  obtain ⟨rfl, htold⟩ := h
  dsimp only
  split
  · next body =>
    have hdocument := claimsIn_document ((htold body rfl).entity rfl id rfl)
    refine ⟨rfl, fun claims hclaims => ?_⟩
    rw [Except.ok.inj hclaims] at hdocument
    exact hdocument
  · split
    · exact ⟨rfl, by simp⟩
    · exact ⟨rfl, by simp⟩
  · exact ⟨rfl, by simp⟩

theorem property_ensures (c : Client) (label datatype model : String) (s : Session) (hw : w.WellKept) :
    (c.property label datatype model).Ensures (.storing registered) s w fun r _ w' =>
      (w' = w ∨ ∃ data id, Made registered "property" data id w w' ∧ w'.WellKept) ∧
        ∀ p, r = .ok p → p = registered label := by
  have hread : ∀ {id : String} {p : PropertyId}, id = (registered label).text → readProperty model id = .ok p →
      p = registered label := by
    rintro id p rfl hp
    rw [readProperty, PropertyId.ofText?_text] at hp
    exact (Except.ok.inj hp).symm
  have hsearch : (c.searchExact label .property).Ensures (.storing registered) s w fun r _ w' =>
      w' = w ∧ ∀ hits, r = .ok hits → ∀ id ∈ hits, id = (registered label).text := by
    refine (read_ensures c _ s w).bind (fun body s' w' h => ⟨h.1, fun hits hhits id hid => ?_⟩) fun e s' w' h => ⟨h.1, by simp⟩
    obtain rfl := Except.ok.inj hhits
    obtain ⟨hit, hhit, hid⟩ := List.mem_filterMap.1 hid
    split at hid
    · next hlabel =>
      have htold := (h.2 body rfl).label rfl rfl label rfl hit hhit hlabel
      exact Option.some.inj (hid.symm.trans htold)
    · simp at hid
  -- Nothing has the label yet, or one property has it, or the hits leave it open.
  refine hsearch.bind (fun hits s' w' h => ?_) fun e s' w' h => ⟨.inl h.1, by simp⟩
  obtain ⟨rfl, hhits⟩ := h
  split
  · refine (createEntity_ensures c .property (c.propertyData label datatype) s' hw).bind (fun id s'' w'' h => ?_)
      fun e s'' w'' h => ⟨?_, by simp⟩
    · rcases h with ⟨-, e, he⟩ | ⟨made, hmade, hwell, hgiven⟩
      · cases he
      · obtain rfl := hgiven id rfl
        obtain ⟨p, hp, hlabels⟩ := hmade.property rfl
        have hregistered : p = registered label := by
          refine hlabels c.language label ?_
          simp [propertyData, Json.get_ofEntries, List.lookup_cons]
        exact Action.ensures_liftExcept.2 ⟨.inr ⟨_, _, hmade, hwell⟩, fun q hq => hread (hregistered ▸ hp) hq⟩
    · rcases h with ⟨rfl, -⟩ | ⟨id, hmade, hwell, -⟩
      · exact .inl rfl
      · exact .inr ⟨_, id, hmade, hwell⟩
  · next id => exact Action.ensures_liftExcept.2 ⟨.inl rfl, fun p hp => hread (hhits _ rfl id (by simp)) hp⟩
  · exact ⟨.inl rfl, by simp⟩

end Client

end ClaimTables
