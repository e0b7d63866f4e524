import ClaimTables.Proofs.Row.Kept
import ClaimTables.Proofs.Tables.Sending

/-!
What comes before an edit of a row. The claims of the entity are fetched, once, and they show that it is a row of the
namespace that may be edited; the edit then names that entity, or claims that were fetched.
-/

namespace ClaimTables

namespace ClaimSet

def guids (s : ClaimSet) : List String :=
  s.entries.flatMap fun e => e.2.map (·.guid)

theorem guids_get_subset (s : ClaimSet) (p : PropertyId) : (s.get p).map (·.guid) ⊆ s.guids := by
  intro g hg
  rw [get] at hg
  cases hp : s.entries.lookup p with
  | none =>
    rw [hp] at hg
    exact absurd hg List.not_mem_nil
  | some stored =>
    rw [hp] at hg
    exact List.mem_flatMap.2 ⟨(p, stored), Keyed.mem_of_lookup hp, hg⟩

end ClaimSet

namespace Tables

def fetched? (id : String) : Exchange → Option ClaimSet
  | ⟨.get ps, .ok body⟩ =>
    if ps.action = "wbgetentities" ∧ ps.text? "ids" = some id ∧ ApiError.ofJson? body = none then
      Client.claimsIn id body
    else none
  | _ => none

def Alters : Request → Prop
  | .post ps => ps.action ∈ ["wbcreateclaim", "wbsetclaimvalue", "wbremoveclaims", "delete"]
  | _ => False

def EditsClaims (id : String) (claims : ClaimSet) (ps : Parameters) : Prop :=
  (ps.action = "wbcreateclaim" ∧ ps.text? "entity" = some id) ∨
  (ps.action = "wbsetclaimvalue" ∧ ∃ guid ∈ claims.guids, ps.text? "claim" = some guid) ∨
  (ps.action = "wbremoveclaims" ∧
    ∃ guids, guids ≠ [] ∧ guids ⊆ claims.guids ∧ ps.text? "claim" = some ("|".intercalate guids))

def Discards (id title : String) (ps : Parameters) : Prop :=
  (ps.action = "wbcreateclaim" ∧ ps.text? "entity" = some id) ∨
  (ps.action = "delete" ∧ ps.text? "title" = some title)

def Permits (allowed : Parameters → Prop) (r : Request) : Prop :=
  Resolves r ∨ ∃ ps, r = .post ps ∧ allowed ps

/-- That each request which alters something is an allowed one, after claims that admit it were fetched once. -/
def Guarded (id : String) (admits : ClaimSet → Prop) (allowed : ClaimSet → Parameters → Prop)
    (trace : List Exchange) : Prop :=
  ∀ before x after, trace = before ++ x :: after → Alters x.request →
    ∃ claims ps, before.filterMap (fetched? id) = [claims] ∧ admits claims ∧ x.request = .post ps ∧ allowed claims ps

structure Fetched (id : String) (found : List ClaimSet) (trace : List Exchange) : Prop where
  filterMap_eq : trace.filterMap (fetched? id) = found
  not_alters : ∀ x ∈ trace, ¬Alters x.request

variable {id : String} {found : List ClaimSet} {trace more : List Exchange} {admits : ClaimSet → Prop}
  {allowed : ClaimSet → Parameters → Prop}

theorem fetched?_post {x : Exchange} {ps : Parameters} (h : x.request = .post ps) : fetched? id x = none := by
  obtain ⟨r, reply⟩ := x
  obtain rfl : r = .post ps := h
  rfl

theorem Resolves.fetched?_eq_none {r : Request} (h : Resolves r) (reply : Except Error r.Reply) :
    fetched? id ⟨r, reply⟩ = none := by
  cases h with
  | session h =>
    cases h with
    | token kind => cases reply <;> simp [fetched?, Parameters.action, Parameters.ofTexts]
    | logIn c token => rfl
  | search c label kind =>
    cases reply <;>
      simp [fetched?, Parameters.action, Client.searchParameters, Parameters.ofTexts]
  | make token kind data => rfl
  | query text => rfl

theorem Resolves.not_alters {r : Request} (h : Resolves r) : ¬Alters r := by
  cases h with
  | session h =>
    cases h with
    | token kind => exact id
    | logIn c token =>
      simp [Alters, Client.logInRequest, Parameters.action, Parameters.ofTexts]
  | search c label kind => exact id
  | make token kind data =>
    simp [Alters, Client.signed, Client.createEntityParameters, Parameters.action]
  | query text => exact id

theorem Fetched.resolves (h : Fetched id found trace) (hmore : ∀ x ∈ more, Resolves x.request) :
    Fetched id found (trace ++ more) := by
  have hnone : more.filterMap (fetched? id) = [] :=
    List.filterMap_eq_nil_iff.2 fun x hx => (hmore x hx).fetched?_eq_none x.reply
  refine ⟨?_, fun x hx => ?_⟩
  · rw [List.filterMap_append, hnone, List.append_nil, h.filterMap_eq]
  · rcases List.mem_append.1 hx with hx | hx
    · exact h.not_alters x hx
    · exact (hmore x hx).not_alters

theorem Fetched.guarded (h : Fetched id found trace) : Guarded id admits allowed trace := by
  rintro before x after rfl halters
  exact absurd halters (h.not_alters x (by simp))

theorem Fetched.guarded_append {claims : ClaimSet} (h : Fetched id [claims] trace) (hadmits : admits claims)
    (hmore : ∀ x ∈ more, Permits (allowed claims) x.request) :
    Guarded id admits allowed (trace ++ more) := by
  intro before x after heq halters
  rcases List.append_eq_append_iff.1 heq with ⟨between, rfl, rfl⟩ | ⟨rest, rfl, hrest⟩
  · have hnone : between.filterMap (fetched? id) = [] := by
      refine List.filterMap_eq_nil_iff.2 fun y hy => ?_
      rcases hmore y (by simp [hy]) with hy | ⟨ps, hps, -⟩
      · exact hy.fetched?_eq_none y.reply
      · exact fetched?_post hps
    rcases hmore x (by simp) with hx | ⟨ps, hps, hallowed⟩
    · exact absurd halters hx.not_alters
    · refine ⟨claims, ps, ?_, hadmits, hps, hallowed⟩
      rw [List.filterMap_append, hnone, List.append_nil, h.filterMap_eq]
  · cases rest with
    | nil =>
      obtain rfl : x :: after = more := hrest
      rcases hmore x (by simp) with hx | ⟨ps, hps, hallowed⟩
      · exact absurd halters hx.not_alters
      · refine ⟨claims, ps, ?_, hadmits, hps, hallowed⟩
        simpa using h.filterMap_eq
    | cons y rest =>
      obtain ⟨rfl, -⟩ := List.cons.inj hrest
      exact absurd halters (h.not_alters x (by simp))

section Reading

open Client Client.Action

theorem Fetched.concat (h : Fetched id found trace) {x : Exchange} (hx : ¬Alters x.request) :
    Fetched id (found ++ (fetched? id x).toList) (trace ++ [x]) := by
  refine ⟨?_, fun y hy => ?_⟩
  · rw [List.filterMap_append, h.filterMap_eq]
    cases hfetched : fetched? id x <;> simp [hfetched]
  · rcases List.mem_append.1 hy with hy | hy
    · exact h.not_alters y hy
    · exact List.mem_singleton.1 hy ▸ hx

def claimsParameters (id : String) : Parameters :=
  .ofTexts [("action", "wbgetentities"), ("ids", id), ("props", "claims")]

theorem sends_getClaims {P : Request → Prop} (c : Client) {id : String} (h : P (.get (claimsParameters id))) :
    (c.getClaims id).Sends P := by
  refine (sends_read c h).outcome.bind fun r => ?_
  split
  · exact sends_pure _
  · split
    · exact sends_pure _
    · exact sends_throw _
  · exact sends_throw _

theorem fetched?_ok (id : String) (body : Json) :
    fetched? id ⟨.get (claimsParameters id), .ok body⟩ =
      if ApiError.ofJson? body = none then claimsIn id body else none := by
  simp [fetched?, claimsParameters, Parameters.action, Parameters.text?, Parameters.ofTexts, List.lookup_cons]

theorem fetched?_error {r : Request} (e : Error) : fetched? id ⟨r, .error e⟩ = none := by
  cases r <;> rfl

theorem fetched?_putsOff {answer : Except Error Json} (h : putsOff (.get (claimsParameters id)) answer = true) :
    fetched? id ⟨.get (claimsParameters id), answer⟩ = none := by
  cases answer with
  | error e => exact fetched?_error e
  | ok body =>
    rw [fetched?_ok, if_neg]
    intro hnone
    simp [putsOff, ApiError.isTransient, hnone] at h

theorem fetched_request (c : Client) (id : String) (s : Session) :
    (c.request (.get (claimsParameters id))).Ensures .noting s [] fun answer _ trace =>
      Fetched id (fetched? id ⟨.get (claimsParameters id), answer⟩).toList trace := by
  have hget : ¬Alters (.get (claimsParameters id)) := fun h => h
  refine ensures_ofDialogue.2 (sendAgain_rule (I := Fetched id []) ?_ ?_ ?_ _ 0 ⟨rfl, by simp⟩)
  · rintro trace answer _ h rfl hoff
    have hmore := h.concat (x := ⟨.get (claimsParameters id), answer⟩) hget
    rwa [fetched?_putsOff hoff] at hmore
  · rintro trace milliseconds answer _ h rfl
    exact h
  · rintro trace answer _ h rfl
    exact h.concat (x := ⟨.get (claimsParameters id), answer⟩) hget

theorem fetched_getClaims (c : Client) (id : String) (s : Session) :
    (c.getClaims id).Ensures .noting s [] fun r _ trace =>
      ∃ found, Fetched id found trace ∧ ∀ claims, r = .ok (some claims) → found = [claims] := by
  have hread : (c.read (claimsParameters id)).Ensures .noting s [] fun r _ trace =>
      ∃ found, Fetched id found trace ∧ ∀ body, r = .ok body → found = (claimsIn id body).toList := by
    refine (fetched_request c id s).bind (fun body s' trace h => ?_) fun e s' trace h => ⟨_, h, by simp⟩
    rw [fetched?_ok] at h
    cases he : ApiError.ofJson? body with
    | some e => exact ⟨_, h, by simp⟩
    | none =>
      refine ⟨_, h, fun body' hbody => ?_⟩
      obtain rfl := Except.ok.inj hbody
      rw [if_pos he]
  rw [getClaims, Client.Action.ensures_bind, Client.Action.ensures_outcome]
  refine hread.mono fun r s' trace h => ?_
  obtain ⟨found, hfetched, hfound⟩ := h
  dsimp only
  split
  · next body =>
    refine ⟨found, hfetched, fun claims hclaims => ?_⟩
    rw [hfound body rfl, Except.ok.inj hclaims]
    rfl
  · split
    · exact ⟨found, hfetched, by simp⟩
    · exact ⟨found, hfetched, by simp⟩
  · exact ⟨found, hfetched, by simp⟩

end Reading

variable {claims : ClaimSet}

structure Editable (t : Tables) (model : String) (m : Mappings) (claims : ClaimSet) : Prop where
  tagged : claims.hasString t.reserved.tag t.space.tag = true
  not_deleted : claims.hasString t.reserved.deleted t.space.tag = false
  typed : ∃ name ∈ model :: (t.schema.descendants model).map (·.name), ∃ i ∈ claims.items t.reserved.instanceOf,
    m.types.lookup name = some i

structure Deletable (t : Tables) (claims : ClaimSet) : Prop where
  tagged : claims.hasString t.reserved.tag t.space.tag = true
  typed : claims.items t.reserved.instanceOf ≠ []
  not_deleted : claims.hasString t.reserved.deleted t.space.tag = false

theorem Editable.within {t : Tables} {model : String} {m m' : Mappings} (h : t.Editable model m claims)
    (hwithin : m.Within m') : t.Editable model m' claims := by
  obtain ⟨name, hname, i, hi, hknown⟩ := h.typed
  exact ⟨h.tagged, h.not_deleted, name, hname, i, hi, hwithin.types name i hknown⟩

def checkOwned (t : Tables) (model id : String) : Option ClaimSet → Action ClaimSet
  | none => throw (absent id "entity does not exist")
  | some claims => do
    if !claims.hasString t.reserved.tag t.space.tag then
      throw (.inconsistentData model (some id) "entity does not belong to this namespace")
    if claims.hasString t.reserved.deleted t.space.tag then
      throw (absent id "entity was deleted")
    let allowed ← t.rowTypes model
    if !(claims.items t.reserved.instanceOf).any allowed.contains then
      throw (.inconsistentData model (some id) ("entity is not a " ++ model))
    pure claims

theorem ownedClaims_eq (t : Tables) (model id : String) :
    t.ownedClaims model id = Action.ofClient (t.client.getClaims id) >>= t.checkOwned model id := by
  refine congrArg (Action.ofClient (t.client.getClaims id) >>= ·) (funext fun found => ?_)
  cases found <;> rfl

theorem Closed.checkOwned {t : Tables} {C : {α : Type} → Action α → Prop} (h : t.Closed C) (model id : String)
    (found : Option ClaimSet) : C (t.checkOwned model id found) := by
  cases found with
  | none => exact h.of_refusal trivial
  | some claims =>
    refine h.of_check trivial (h.of_check trivial (h.bind (h.rowTypes model) fun allowed => ?_))
    exact h.of_check trivial (h.of_pure claims)

theorem checkOwned_ensures (t : Tables) (model : String) {m : Mappings} {s : Session} (h : Fetched id [claims] trace) :
    (t.checkOwned model id (some claims)).Ensures .noting m s trace fun r m' _ later =>
      Fetched id [claims] later ∧ ∀ c, r = .ok c → c = claims ∧ t.Editable model m' claims := by
  refine Action.ensures_check (fun _ => ⟨h, by simp⟩) fun htag => ?_
  refine Action.ensures_check (fun _ => ⟨h, by simp⟩) fun hdeleted => ?_
  have htypes : (t.rowTypes model).Ensures .noting m s trace fun r m' _ later => Fetched id [claims] later ∧
      ∀ allowed, r = .ok allowed → ∀ i ∈ allowed,
        ∃ name ∈ model :: (t.schema.descendants model).map (·.name), m'.types.lookup name = some i := by
    refine (((t.closed_sends.rowTypes model).ensures m s trace).and (t.gains_rowTypes model)).mono fun r m' s' later h' => ?_
    obtain ⟨⟨more, rfl, hmore⟩, -, hknown⟩ := h'
    exact ⟨h.resolves hmore, fun allowed hallowed => (hknown allowed hallowed).known⟩
  refine htypes.bind (fun allowed m' s' later h' => ?_) fun e m' s' later h' => ⟨h'.1, by simp⟩
  refine Action.ensures_check (fun _ => ⟨h'.1, by simp⟩) fun hany => ⟨h'.1, fun c hc => ?_⟩
  obtain rfl := Except.ok.inj hc
  rw [Bool.not_eq_true', Bool.not_eq_false] at htag hany
  rw [Bool.not_eq_true] at hdeleted
  obtain ⟨i, hi, hallowed⟩ := List.any_eq_true.1 hany
  obtain ⟨name, hname, hknown⟩ := h'.2 allowed rfl i (List.contains_iff_mem.1 hallowed)
  exact ⟨rfl, htag, hdeleted, name, hname, i, hi, hknown⟩

theorem ownedClaims_ensures (t : Tables) (model id : String) (m : Mappings) (s : Session) :
    (t.ownedClaims model id).Ensures .noting m s [] fun r m' _ trace =>
      ∃ found, Fetched id found trace ∧ ∀ claims, r = .ok claims → found = [claims] ∧ t.Editable model m' claims := by
  rw [ownedClaims_eq, Action.ensures_bind, Action.ensures_ofClient]
  refine (fetched_getClaims t.client id s).mono fun r s' trace h => ?_
  obtain ⟨found, hfetched, hfound⟩ := h
  cases r with
  | error e => exact ⟨found, hfetched, by simp⟩
  | ok result =>
    cases result with
    | none => exact ⟨found, hfetched, by simp⟩
    | some claims =>
      obtain rfl := hfound claims rfl
      refine (t.checkOwned_ensures model hfetched).mono fun r m' s' later h => ⟨[claims], h.1, fun c hc => ?_⟩
      obtain ⟨rfl, heditable⟩ := h.2 c hc
      exact ⟨rfl, heditable⟩

section Sending

open Client Client.Action

variable {P : Request → Prop} (hsession : ∀ r, OpensSession r → P r) (hedit : ∀ ps, EditsClaims id claims ps → P (.post ps))

include hsession hedit

theorem sends_sendEdit (c : Client) (p : PropertyId) {edit : ClaimEdit} (htargets : edit.targets ⊆ claims.guids) :
    (sendEdit c id p edit).Sends P := by
  cases edit with
  | add snak =>
    refine (sends_createClaim c hsession fun token => hedit _ ?_).bind fun _ => sends_pure _
    exact .inl ⟨rfl, rfl⟩
  | replace guid snak =>
    refine sends_setClaimValue c hsession fun token => hedit _ ?_
    exact .inr (.inl ⟨rfl, guid, htargets List.mem_cons_self, rfl⟩)
  | remove guids =>
    refine sends_removeClaims c hsession fun hne token => hedit _ ?_
    exact .inr (.inr ⟨rfl, guids, hne, htargets, rfl⟩)

theorem sends_sendEdits (c : Client) (p : PropertyId) {edits : List ClaimEdit}
    (htargets : ∀ edit ∈ edits, edit.targets ⊆ claims.guids) : (sendEdits c id p edits).Sends P := by
  induction edits with
  | nil => exact sends_pure _
  | cons edit rest ih =>
    rw [List.forall_mem_cons] at htargets
    exact (sends_sendEdit hsession hedit c p htargets.1).bind fun _ => ih htargets.2

theorem sends_applyChange (c : Client) (model : String) (change : Change) :
    (applyChange c model id claims change).Sends P := by
  unfold applyChange
  dsimp only
  split
  · exact sends_throw _
  · next edits hplan =>
    refine (sends_sendEdits hsession hedit c change.property fun edit hedit => ?_).bind fun _ => sends_pure _
    exact List.Subset.trans (ClaimEdit.targets_plan hplan edit hedit) (claims.guids_get_subset change.property)

theorem sends_applyChanges (c : Client) (model : String) (changes : List Change) :
    (applyChanges c model id claims changes).Sends P := by
  induction changes with
  | nil => exact sends_pure _
  | cons change rest ih =>
    refine (sends_applyChange hsession hedit c model change).outcome.bind fun _ => ?_
    exact ih.bind fun results => sends_pure _

omit hedit in
theorem sends_discard (t : Tables) (id : String) (hdiscard : ∀ ps, Discards id (t.itemPageStart ++ id) ps → P (.post ps)) :
    (t.discard id).Sends P := by
  unfold discard
  split
  · refine (sends_deletePage t.client hsession fun token => hdiscard _ ?_).bind fun _ => sends_pure _
    exact .inr ⟨rfl, rfl⟩
  · refine (sends_createClaim t.client hsession fun token => hdiscard _ ?_).bind fun _ => sends_pure _
    exact .inl ⟨rfl, rfl⟩

omit hsession hedit

theorem permits_applyChanges (c : Client) (model id : String) (claims : ClaimSet) (changes : List Change) :
    (applyChanges c model id claims changes).Sends (Permits (EditsClaims id claims)) :=
  sends_applyChanges (fun _ h => .inl (.session h)) (fun ps h => .inr ⟨ps, rfl, h⟩) c model changes

theorem permits_discard (t : Tables) (id : String) :
    (t.discard id).Sends (Permits (Discards id (t.itemPageStart ++ id))) :=
  sends_discard (fun _ h => .inl (.session h)) t id fun ps h => .inr ⟨ps, rfl, h⟩

end Sending

theorem Fetched.ensures_resolves {α : Type} (h : Fetched id found trace) {x : Action α} (hx : x.Sends Resolves)
    {m : Mappings} {s : Session} {post : α → Mappings → Prop} (hgains : x.Gains .noting m s trace post) :
    x.Ensures .noting m s trace fun _ m' _ later => Fetched id found later ∧ m.Within m' := by
  refine ((hx.ensures m s trace).and hgains).mono fun r m' s' later h' => ?_
  obtain ⟨⟨more, rfl, hmore⟩, hwithin, -⟩ := h'
  exact ⟨h.resolves hmore, hwithin⟩

/-- What an update does before its first edit. It gives the claims of the row as they were fetched, and the changes to make. -/
def changesFor (t : Tables) (model id : String) (values : Values) : Action (ClaimSet × List Change) := do
  let checked ← Action.ofExcept (values.validate t.schema model false)
  let claims ← t.ownedClaims model id
  t.checkUnique (some id) checked
  let changes ← t.changesOf checked
  pure (claims, changes)

theorem update_eq (t : Tables) (model id : String) (values : Values) :
    t.update model id values = t.changesFor model id values >>= fun e =>
      Action.ofClient (applyChanges t.client model id e.1 e.2) >>= fun results =>
        Action.ofExcept (updateResult id results) := by
  simp only [changesFor, bind_assoc, pure_bind]
  rfl

theorem changesFor_ensures (t : Tables) (model id : String) (values : Values) (m : Mappings) (s : Session) :
    (t.changesFor model id values).Ensures .noting m s [] fun r m' _ trace =>
      ∃ found, Fetched id found trace ∧ ∀ claims changes, r = .ok (claims, changes) →
        found = [claims] ∧ t.Editable model m' claims := by
  refine Action.ensures_bind.2 (Action.ensures_ofExcept.2 ?_)
  cases hvalid : values.validate t.schema model false with
  | error e => exact ⟨[], ⟨rfl, by simp⟩, by simp⟩
  | ok checked =>
    refine (t.ownedClaims_ensures model id m s).bind (fun claims m₁ s₁ trace h => ?_) fun e m' s' trace h => ?_
    · obtain ⟨found, hfetched, h⟩ := h
      obtain ⟨rfl, heditable⟩ := h claims rfl
      refine (hfetched.ensures_resolves (t.closed_sends.checkUnique (some id) checked)
        ((t.closed_gains .noting).checkUnique (some id) checked m₁ s₁ trace)).bind (fun _ m₂ s₂ trace₂ h₂ => ?_)
        fun e m' s' trace h => ⟨_, h.1, by simp⟩
      have hvalues := Values.effective_of_validate hvalid
      refine (h₂.1.ensures_resolves (t.closed_sends.changesOf hvalues)
        ((t.closed_gains .noting).changesOf hvalues m₂ s₂ trace₂)).bind (fun changes m₃ s₃ trace₃ h₃ => ?_)
        fun e m' s' trace h => ⟨_, h.1, by simp⟩
      refine ⟨_, h₃.1, ?_⟩
      rintro _ _ ⟨⟩
      exact ⟨rfl, (heditable.within h₂.2).within h₃.2⟩
    · obtain ⟨found, hfetched, -⟩ := h
      exact ⟨found, hfetched, by simp⟩

theorem update_guarded (t : Tables) (model id : String) (values : Values) (m : Mappings) (s : Session) :
    (t.update model id values).Ensures .noting m s [] fun _ m' _ trace =>
      Guarded id (t.Editable model m') (EditsClaims id) trace := by
  rw [update_eq]
  refine (t.changesFor_ensures model id values m s).bind ?_ ?_
  · rintro ⟨claims, changes⟩ m₁ s₁ trace ⟨found, hfetched, h⟩
    obtain ⟨rfl, hadmits⟩ := h claims changes rfl
    have hsent : (Action.ofClient (applyChanges t.client model id claims changes)).Ensures .noting m₁ s₁ trace
        fun _ m' _ trace => Guarded id (t.Editable model m') (EditsClaims id) trace := by
      refine Action.ensures_ofClient.2 (((permits_applyChanges t.client model id claims changes).ensures s₁ trace).mono ?_)
      rintro r s' _ ⟨more, rfl, hmore⟩
      exact hfetched.guarded_append hadmits hmore
    refine hsent.bind (fun results m' s' trace h => ?_) fun e m' s' trace h => h
    exact Action.ensures_ofExcept.2 h
  · rintro e m' s' trace ⟨found, hfetched, -⟩
    exact hfetched.guarded

theorem delete_guarded (t : Tables) (id : String) (s : Session) :
    (t.delete id).Ensures .noting s [] fun _ _ trace =>
      Guarded id t.Deletable (fun _ => Discards id (t.itemPageStart ++ id)) trace := by
  refine (fetched_getClaims t.client id s).bind (fun result s' trace h => ?_) fun e s' trace h => ?_
  · obtain ⟨found, hfetched, hfound⟩ := h
    cases result with
    | none => exact hfetched.guarded
    | some claims =>
      obtain rfl := hfound claims rfl
      refine Client.Action.ensures_check (fun _ => hfetched.guarded) fun htag => ?_
      refine Client.Action.ensures_check (fun _ => hfetched.guarded) fun htyped => ?_
      split
      · exact hfetched.guarded
      · next hdeleted =>
        rw [Bool.not_eq_true', Bool.not_eq_false] at htag
        rw [Bool.not_eq_true] at hdeleted
        have hadmits : t.Deletable claims := ⟨htag, by simpa using htyped, hdeleted⟩
        refine ((t.permits_discard id).ensures s' trace).mono ?_
        rintro r s'' _ ⟨more, rfl, hmore⟩
        exact hfetched.guarded_append hadmits hmore
  · obtain ⟨found, hfetched, -⟩ := h
    exact hfetched.guarded

/--
However the store answers: an update edits claims, and a deletion tags the row or deletes its page, only after the
claims of the entity were fetched and showed that this may be done; and what is sent names that entity, or claims
that were fetched.
-/
theorem writes_guarded (t : Tables) (id : String) :
    (∀ model values m s, (t.update model id values).Ensures .noting m s [] fun _ m' _ trace =>
      Guarded id (t.Editable model m') (EditsClaims id) trace) ∧
    ∀ s, (t.delete id).Ensures .noting s [] fun _ _ trace =>
      Guarded id t.Deletable (fun _ => Discards id (t.itemPageStart ++ id)) trace :=
  ⟨fun model values m s => t.update_guarded model id values m s, fun s => t.delete_guarded id s⟩

end Tables

end ClaimTables
