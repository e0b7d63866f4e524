import ClaimTables.Proofs.Tables.Edits
import ClaimTables.Proofs.Tables.Fails

/-!
What an update says of its edits. Main statement: if it fails with anything but a partial write, then all that the
store can have accepted are replacements of the first of several claims of a field, whose removal was to come next;
and a partial write was reported because some edit was accepted and some field failed.
-/

namespace ClaimTables

def Error.IsPartialWrite : Error → Prop
  | .partialWrite _ _ _ => True
  | _ => False

theorem Error.IsSingle.not_partialWrite {e : Error} (h : e.IsSingle) : ¬e.IsPartialWrite := by
  cases e <;> first | exact id | exact h.elim

namespace Tables

open Client Client.Action

def Accepted : Exchange → Prop
  | ⟨.post ps, .ok body⟩ =>
    ps.action ∈ ["wbcreateclaim", "wbsetclaimvalue", "wbremoveclaims"] ∧ ApiError.ofJson? body = none
  | _ => False

instance : DecidablePred Accepted := fun x =>
  match x with
  | ⟨.post ps, .ok body⟩ => inferInstanceAs
      (Decidable (ps.action ∈ ["wbcreateclaim", "wbsetclaimvalue", "wbremoveclaims"] ∧ ApiError.ofJson? body = none))
  | ⟨.post _, .error _⟩ | ⟨.get _, _⟩ | ⟨.query _, _⟩ => .isFalse id

theorem Accepted.alters {x : Exchange} (h : Accepted x) : Alters x.request := by
  obtain ⟨r, reply⟩ := x
  cases r with
  | post ps =>
    cases reply with
    | error e => exact h.elim
    | ok body =>
      have haction := h.1
      simp only [List.mem_cons, List.not_mem_nil, or_false] at haction
      simp only [Alters, List.mem_cons]
      tauto
  | get ps => cases reply <;> exact h.elim
  | query text => cases reply <;> exact h.elim

section Changing

variable {claims : ClaimSet} {trace : List Exchange} {id : String} {p : PropertyId} {edits done : List ClaimEdit}

theorem accepted?_edit {x : Exchange} {edit : ClaimEdit} {token : Token}
    (hx : x.request = .post (signed token (editParameters id p edit))) :
    x.accepted? = none ∨ ∃ body, x.accepted? = some (edit.read id p, body) := by
  obtain ⟨r, reply⟩ := x
  obtain rfl := hx
  cases reply with
  | error e => exact .inl rfl
  | ok body =>
    simp only [Exchange.accepted?, ofParameters?_editParameters]
    split
    · exact .inr ⟨body, rfl⟩
    · exact .inl rfl

theorem accepted_iff {x : Exchange} {edit : ClaimEdit} {token : Token}
    (hx : x.request = .post (signed token (editParameters id p edit))) : Accepted x ↔ x.accepted? ≠ none := by
  obtain ⟨r, reply⟩ := x
  obtain rfl := hx
  have haction : (signed token (editParameters id p edit)).action ∈
      ["wbcreateclaim", "wbsetclaimvalue", "wbremoveclaims"] := by
    cases edit with
    | add snak => exact List.mem_cons_self
    | replace guid snak => exact List.mem_cons_of_mem _ List.mem_cons_self
    | remove guids => exact List.mem_cons_of_mem _ (List.mem_cons_of_mem _ List.mem_cons_self)
  cases reply with
  | error e => simp [Accepted, Exchange.accepted?]
  | ok body => simp [Accepted, Exchange.accepted?, haction, ofParameters?_editParameters]

theorem WroteEdits.mem_done (h : WroteEdits id p edits trace done) {x : Exchange} (hx : x ∈ trace) (hxa : Accepted x) :
    ∃ edit ∈ edits, ∃ token, x.request = .post (signed token (editParameters id p edit)) ∧
      edit.read id p ∈ done.map (ClaimEdit.read id p) := by
  rcases h.requests x hx with hsession | ⟨edit, hedit, token, hrequest⟩
  · exact absurd hxa.alters (Resolves.session hsession).not_alters
  · obtain ⟨body, hbody⟩ := (accepted?_edit hrequest).resolve_left ((accepted_iff hrequest).1 hxa)
    refine ⟨edit, hedit, token, hrequest, ?_⟩
    rw [← h.accepted]
    exact List.mem_map.2 ⟨_, List.mem_filterMap.2 ⟨x, hx, hbody⟩, rfl⟩

theorem WroteEdits.exists_accepted (h : WroteEdits id p edits trace done) (hdone : done ≠ []) : ∃ x ∈ trace, Accepted x := by
  by_contra hnone
  push Not at hnone
  refine hdone (List.map_eq_nil_iff.1 (h.accepted.symm.trans (Exchange.edits_eq_nil.2 fun x hx => ?_)))
  rcases h.requests x hx with hsession | ⟨edit, -, token, hrequest⟩
  · exact accepted?_opensSession hsession
  · exact not_not.1 ((not_congr (accepted_iff hrequest)).1 (hnone x hx))

def HalfDone (claims : ClaimSet) (x : Exchange) : Prop :=
  ∃ p first second rest, claims.get p = first :: second :: rest ∧
    ∃ token snak, x.request = .post (signed token (setClaimValueParameters first.guid snak))

theorem applyChange_tells (c : Client) (model id : String) (claims : ClaimSet) (change : Change) (s : Session)
    (trace : List Exchange) :
    (applyChange c model id claims change).Ensures .noting s trace fun r _ later => ∃ more, later = trace ++ more ∧
      match r with
      | .ok true => ∃ x ∈ more, Accepted x
      | _ => ∀ x ∈ more, Accepted x → HalfDone claims x := by
  refine ensures_of_goes fun more r s' hgoes => ⟨more, rfl, ?_⟩
  rcases applyChange_wrote hgoes with ⟨why, -, rfl, rfl⟩ | ⟨edits, done, hplan, hprefix, hwrote, hend⟩
  · simp
  · rcases hend with ⟨rfl, rfl⟩ | ⟨hne, e, rfl⟩
    · cases done with
      | nil =>
        intro x hx hxa
        obtain ⟨_, hedit, -⟩ := hwrote.mem_done hx hxa
        cases hedit
      | cons edit rest => exact hwrote.exists_accepted (List.cons_ne_nil _ _)
    · intro x hx hxa
      obtain ⟨edit, hedit, token, hrequest, hdone⟩ := hwrote.mem_done hx hxa
      -- Only a plan of two edits has one that comes before its last.
      rcases plan_cases hplan with rfl | ⟨_, rfl, -⟩ | ⟨first, second, rest, snak, hstored, rfl⟩
      · cases hedit
      · obtain rfl := List.prefix_nil.1 (((@List.prefix_concat_iff _ done [] _).1 hprefix).resolve_left hne)
        cases hdone
      · have hfirst := ((@List.prefix_concat_iff _ done [.replace first.guid snak] _).1 hprefix).resolve_left hne
        have hread := List.mem_singleton.1 ((hfirst.map (ClaimEdit.read id change.property)).subset hdone)
        rcases List.mem_cons.1 hedit with rfl | hremove
        · exact ⟨change.property, first, second, rest, hstored, token, snak, hrequest⟩
        · obtain rfl := List.mem_singleton.1 hremove
          cases hread

theorem applyChanges_tells (c : Client) (model id : String) (claims : ClaimSet) (changes : List Change) (s : Session)
    (trace : List Exchange) :
    (applyChanges c model id claims changes).Ensures .noting s trace fun r _ later =>
      ∃ results more, r = .ok results ∧ later = trace ++ more ∧
        (applied results ≠ [] → ∃ x ∈ more, Accepted x) ∧
        (applied results = [] → ∀ x ∈ more, Accepted x → HalfDone claims x) := by
  induction changes generalizing s trace with
  | nil => exact ⟨[], [], rfl, by simp, by simp [applied], by simp⟩
  | cons change rest ih =>
    rw [applyChanges, ensures_bind, ensures_outcome]
    refine (applyChange_tells c model id claims change s trace).mono ?_
    rintro r s' _ ⟨first, rfl, hfirst⟩
    refine (ih s' (trace ++ first)).bind ?_ (by rintro e s'' later ⟨_, _, h, -⟩; cases h)
    rintro results s'' _ ⟨_, more, ⟨⟩, rfl, happlied, hnone⟩
    refine ⟨_, first ++ more, rfl, by simp, ?_⟩
    -- A field counts as applied only if its change said so; else only half of its edits may have been accepted.
    by_cases hr : r = .ok true
    · subst hr
      obtain ⟨x, hx, hxa⟩ := hfirst
      exact ⟨fun _ => ⟨x, by simp [hx], hxa⟩, fun h => absurd h (by simp [applied])⟩
    · have hsame : applied ((change.field.field.name, r) :: results) = applied results := by
        rcases r with e | _ | _
        · rfl
        · rfl
        · exact absurd rfl hr
      have hfirst : ∀ x ∈ first, Accepted x → HalfDone claims x := by
        rcases r with e | _ | _
        · exact hfirst
        · exact hfirst
        · exact absurd rfl hr
      rw [hsame]
      refine ⟨fun h => ?_, fun h x hx => ?_⟩
      · obtain ⟨x, hx, hxa⟩ := happlied h
        exact ⟨x, by simp [hx], hxa⟩
      · rcases List.mem_append.1 hx with hx | hx
        · exact hfirst x hx
        · exact hnone h x hx

end Changing

section Failing

variable {E : Error → Prop}

theorem fails_onEntity (hE : ∀ e, e.OfStore → E e) (c : Client) (id : String) (ps : Parameters) :
    (onEntity id (c.write ps)).Fails E := by
  refine (fails_write hE c ps).outcome_bind (fun body => fails_pure body) fun e he => fails_throw ?_
  cases e with
  | remoteWrite entity code info => exact hE _ trivial
  | _ => exact he

theorem fails_sendEdits (hE : ∀ e, e.OfStore → E e) (c : Client) (id : String) (p : PropertyId) (edits : List ClaimEdit) :
    (sendEdits c id p edits).Fails E := by
  have hedit : ∀ edit, (sendEdit c id p edit).Fails E := by
    intro edit
    cases edit with
    | add snak =>
      have hadd : (c.createClaim id p.text snak).Fails E := (fails_onEntity hE c id _).bind fun _ => fails_pure _
      exact hadd.bind fun _ => fails_pure _
    | replace guid snak => exact (fails_onEntity hE c id _).bind fun _ => fails_pure _
    | remove guids =>
      change (c.removeClaims id guids).Fails E
      unfold removeClaims
      split
      · exact fails_pure _
      · exact (fails_onEntity hE c id _).bind fun _ => fails_pure _
  induction edits with
  | nil => exact fails_pure _
  | cons edit rest ih => exact (hedit edit).bind fun _ => ih

theorem fails_applyChange (hE : ∀ e, e.OfStore → E e) (hinvalid : ∀ model field reason, E (.invalidValue model field reason))
    (c : Client) (model id : String) (claims : ClaimSet) (change : Change) :
    (applyChange c model id claims change).Fails E := by
  unfold applyChange
  dsimp only
  split
  · exact fails_throw (hinvalid _ _ _)
  · exact (fails_sendEdits hE c id _ _).bind fun _ => fails_pure _

theorem yields_applyChanges (hE : ∀ e, e.OfStore → E e) (hinvalid : ∀ model field reason, E (.invalidValue model field reason))
    (c : Client) (model id : String) (claims : ClaimSet) (changes : List Change) (s : Session) :
    Dialogue.Yields E (fun r => ∀ results, r.1 = .ok results → ∀ x ∈ failures results, E x.2)
      ((applyChanges c model id claims changes).run.run s) := by
  induction changes generalizing s with
  | nil =>
    rintro results ⟨⟩
    simp [failures]
  | cons change rest ih =>
    have houtcome : ∀ s, Dialogue.Yields E (fun r => ∃ r', r.1 = .ok r' ∧ FailsAs E r')
        ((applyChange c model id claims change).outcome.run.run s) := fun s =>
      Dialogue.Yields.bind (fails_applyChange hE hinvalid c model id claims change s) fun r hr => ⟨r.1, rfl, hr⟩
    refine Dialogue.Yields.bind (houtcome s) ?_
    rintro ⟨_, s'⟩ ⟨r, rfl, hr⟩
    refine Dialogue.Yields.bind (ih s') ?_
    rintro ⟨results, s''⟩ hresults
    cases results with
    | error e => nofun
    | ok results =>
      rintro _ ⟨⟩
      cases r with
      | ok flag => exact hresults results rfl
      | error e =>
        have hcons : failures ((change.field.field.name, .error e) :: results) =
            (change.field.field.name, e) :: failures results := rfl
        rw [hcons, List.forall_mem_cons]
        exact ⟨hr e rfl, hresults results rfl⟩

end Failing

end Tables

namespace Tables

open Tables.Action

variable {E : Error → Prop} {id : String} {found : List ClaimSet} {trace : List Exchange}

/--
An update either fails before it edits anything, as one of its requests did or by itself, or it comes to what its
changes come to after the claims of the entity were fetched.
-/
theorem update_rule (t : Tables) (model : String) (values : Values) (m : Mappings) (s : Session)
    (hE : ∀ e, e.IsSingle → E e) {post : Except Error (List String) → List Exchange → Prop}
    (hbefore : ∀ e found trace, Fetched id found trace → ((∀ x ∈ trace, FailsAs E x.reply) → E e) → post (.error e) trace)
    (hedits : ∀ claims changes s' trace, Fetched id [claims] trace →
      (applyChanges t.client model id claims changes).Ensures .noting s' trace fun r _ later =>
        ∃ results, r = .ok results ∧ post (updateResult id results) later) :
    (t.update model id values).Ensures .noting m s [] fun r _ _ trace => post r trace := by
  rw [update_eq]
  refine ((t.changesFor_ensures model id values m s).and ((fails_changesFor hE model id values).ensures m s [])).bind ?_ ?_
  · rintro ⟨claims, changes⟩ m₁ s₁ trace ⟨⟨found, hfetched, hclaims⟩, -⟩
    obtain ⟨rfl, -⟩ := hclaims claims changes rfl
    rw [ensures_bind]
    refine ensures_ofClient.2 ((hedits claims changes s₁ trace hfetched).mono ?_)
    rintro _ s' later ⟨results, rfl, hpost⟩
    exact ensures_ofExcept.2 hpost
  · rintro e m' s' _ ⟨⟨found, hfetched, -⟩, more, rfl, hfails⟩
    exact hbefore e found _ hfetched fun hall => hfails hall e rfl

theorem updateResult_error {results : List (String × Except Error Bool)} {e : Error}
    (h : updateResult id results = .error e) :
    (applied results = [] ∧ ∃ name, (name, e) ∈ failures results) ∨
      (applied results ≠ [] ∧ ∃ failed, failed ≠ [] ∧ e = .partialWrite id (applied results) failed) := by
  unfold updateResult at h
  split at h
  · cases h
  · next name e' more hfailures =>
    split at h
    · next hempty =>
      obtain rfl := Except.error.inj h
      exact .inl ⟨List.isEmpty_iff.1 hempty, name, by simp [hfailures]⟩
    · next hne =>
      obtain rfl := Except.error.inj h
      exact .inr ⟨by simpa using hne, _, by simp, rfl⟩

theorem fetches_nothing {allowed : Parameters → Prop} {more : List Exchange} (h : ∀ x ∈ more, Permits allowed x.request) :
    more.filterMap (fetched? id) = [] := by
  refine List.filterMap_eq_nil_iff.2 fun x hx => ?_
  rcases h x hx with h | ⟨ps, h, -⟩
  · exact h.fetched?_eq_none x.reply
  · exact fetched?_post h

/--
If an update fails with anything but a partial write, then of what was sent the store has accepted no more than
replacements of the first of several claims of a property, as they were fetched. A partial write is reported only if
some edit was accepted and some field failed, unless a request itself failed with such an error.
-/
theorem update_tells (t : Tables) (model id : String) (values : Values) (m : Mappings) (s : Session) :
    (t.update model id values).Ensures .noting m s [] fun r _ _ trace =>
      (∀ e, r = .error e → ¬e.IsPartialWrite → ∀ x ∈ trace, Accepted x →
        ∃ claims, trace.filterMap (fetched? id) = [claims] ∧ HalfDone claims x) ∧
      ∀ entity fields failed, r = .error (.partialWrite entity fields failed) →
        (∀ x ∈ trace, FailsAs (fun e => ¬e.IsPartialWrite) x.reply) → failed ≠ [] ∧ ∃ x ∈ trace, Accepted x := by
  -- An update ends before its first edit, or with the report of all its changes.
  refine t.update_rule model values m s (fun e he => he.not_partialWrite) ?_ ?_
  · intro e found trace hfetched hsingle
    refine ⟨fun _ _ _ x hx hxa => absurd hxa.alters (hfetched.not_alters x hx), ?_⟩
    rintro entity fields failed ⟨⟩ hall
    exact absurd trivial (hsingle hall)
  · intro claims changes s' trace hfetched
    have hsends := (permits_applyChanges t.client model id claims changes).ensures s' trace
    have htells := applyChanges_tells t.client model id claims changes s' trace
    have hfails : (applyChanges t.client model id claims changes).Ensures .noting s' trace fun r _ later =>
        ∃ more, later = trace ++ more ∧ ((∀ x ∈ more, FailsAs (fun e => ¬e.IsPartialWrite) x.reply) →
          ∀ results, r = .ok results → ∀ x ∈ failures results, ¬x.2.IsPartialWrite) :=
      (yields_applyChanges (fun e he => he.isSingle.not_partialWrite) (fun _ _ _ h => h) t.client model id claims
        changes s').ensures trace
    refine ((htells.and hsends).and hfails).mono ?_
    rintro _ s'' _ ⟨⟨⟨results, more, rfl, rfl, happlied, hnone⟩, more', hsame, hpermits⟩, more'', hsame', hsingle⟩
    obtain rfl := List.append_cancel_left hsame
    obtain rfl := List.append_cancel_left hsame'
    have hread : (trace ++ more).filterMap (fetched? id) = [claims] := by
      rw [List.filterMap_append, fetches_nothing hpermits, List.append_nil, hfetched.filterMap_eq]
    refine ⟨results, rfl, fun e he hwhole x hx hxa => ?_, fun entity fields failed he hall => ?_⟩
    · rcases updateResult_error he with ⟨hempty, -⟩ | ⟨-, failed, -, rfl⟩
      · rcases List.mem_append.1 hx with hx | hx
        · exact absurd hxa.alters (hfetched.not_alters x hx)
        · exact ⟨claims, hread, hnone hempty x hx hxa⟩
      · exact absurd trivial hwhole
    · rcases updateResult_error he with ⟨-, name, hname⟩ | ⟨hne, failed', hfailed, heq⟩
      · exact absurd trivial (hsingle (fun x hx => hall x (List.mem_append_right _ hx)) results rfl _ hname)
      · obtain ⟨x, hx, hxa⟩ := happlied hne
        cases heq
        exact ⟨hfailed, x, List.mem_append_right _ hx, hxa⟩

/-! A store that lets the replacement pass and turns the removal down. -/

section Scripted

def foundReply (id label : String) : ScriptedReply :=
  .document (.ofEntries [("search", .array [.ofEntries [("id", .string id), ("label", .string label)]])])

def answerReply (bindings : List Json) : ScriptedReply :=
  .document (.ofEntries [("results", .ofEntries [("bindings", .array bindings)])])

def tokenReply (kind token : String) : ScriptedReply :=
  .document (.ofEntries [("query", .ofEntries [("tokens", .ofEntries [(kind, .string token)])])])

def loginReplies : List ScriptedReply :=
  [tokenReply "logintoken" "lt+\\", .document (.ofEntries [("login", .ofEntries [("result", .string "Success")])]),
    tokenReply "csrftoken" "csrf+\\"]

def successReply : ScriptedReply := .document doneBody

def errorReply (code info : String) : ScriptedReply :=
  .document (.ofEntries [("error", .ofEntries [("code", .string code), ("info", .string info)])])

def claimJson (guid : String) (datavalue : Json) : Json :=
  .ofEntries [("id", .string guid), ("mainsnak", .ofEntries [("datavalue", datavalue)])]

def personReply (id : String) (claims : List (String × List Json)) : ScriptedReply :=
  let rowClaims := [("P1", [claimJson (id ++ "$a") (Claim.itemDatavalue ⟨10⟩)]),
    ("P3", [claimJson (id ++ "$b") (Claim.stringDatavalue "test")])]
  .document (.ofEntries [("entities", .ofEntries [(id, .ofEntries
    [("claims", .ofEntries ((rowClaims ++ claims).map fun (p, cs) => (p, .array cs)))])])])

def personTables (fields : List Field) : Tables :=
  ⟨⟨"Admin@wikigraph", "secret", 3, "en"⟩, ⟨[⟨"Person", none, fields⟩]⟩, ⟨"test"⟩, ⟨⟨1⟩, ⟨2⟩, ⟨3⟩, ⟨4⟩⟩,
    "https://wiki.test", false, "Item:"⟩

def renamePerson : Action (List String) :=
  (personTables [⟨"name", .text, false, false⟩]).update "Person" "Q7" [("name", .text "Ada L.")]

def twoNames : Conversation :=
  .start ([personReply "Q7" [("P5", [claimJson "Q7$c" (Claim.stringDatavalue "Ada"),
      claimJson "Q7$d" (Claim.stringDatavalue "Ada K.")])],
    foundReply "Q10" "Person in test", foundReply "P5" "Person.name in test"] ++ loginReplies ++
    [successReply, errorReply "modification-failed" "Malformed"]) 0 ""

/-- An update that says no more than that an edit was turned down has replaced a name before that. -/
theorem update_half_done :
    (renamePerson.follow .empty .fresh twoNames).1 = .error (.remoteWrite (some "Q7") "modification-failed" "Malformed") ∧
      (∃ x ∈ (renamePerson.follow .empty .fresh twoNames).2, Accepted x) ∧
      ¬renamePerson.Ensures .noting .empty .fresh [] fun r _ _ trace =>
        ∀ e, r = .error e → ¬e.IsPartialWrite → ∀ x ∈ trace, ¬Accepted x := by
  have hresult : (renamePerson.follow .empty .fresh twoNames).1 =
      .error (.remoteWrite (some "Q7") "modification-failed" "Malformed") := by decide +kernel
  have haccepted : ∃ x ∈ (renamePerson.follow .empty .fresh twoNames).2, Accepted x := by decide +kernel
  refine ⟨hresult, haccepted, fun h => ?_⟩
  obtain ⟨x, hx, hxa⟩ := haccepted
  exact h.follow twoNames _ hresult id x hx hxa

end Scripted

end Tables

end ClaimTables
