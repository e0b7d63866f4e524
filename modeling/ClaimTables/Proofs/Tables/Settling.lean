import ClaimTables.Proofs.Tables.Changes

/-!
Fields that are settled. If all edits of a plan were applied, then nothing is planned any more for the same value: the
property has one claim, which is read as the value, or none.
-/

namespace ClaimTables

namespace ClaimEdit

/-- What edits make of the claims of the property when they are applied in turn. -/
inductive TurnsAll : List ClaimEdit → List StoredClaim → List StoredClaim → Prop
  | nil (cs : List StoredClaim) : TurnsAll [] cs cs
  | cons {edit : ClaimEdit} {edits : List ClaimEdit} {cs cs' cs'' : List StoredClaim} (h : edit.Turns cs cs')
    (rest : TurnsAll edits cs' cs'') : TurnsAll (edit :: edits) cs cs''

theorem TurnsAll.of_removing (kept : List StoredClaim) {removed cs : List StoredClaim}
    (h : TurnsAll (removing removed) (kept ++ removed) cs) (hkept : ∀ c ∈ kept, c.guid ∉ removed.map (·.guid)) :
    cs = kept := by
  rw [removing] at h
  split at h
  · next hempty =>
    cases h
    rw [List.isEmpty_iff.1 hempty, List.append_nil]
  · cases h with
    | cons hturns hrest =>
      cases hturns
      cases hrest
      rw [List.filter_append, List.filter_eq_self.2 fun c hc => decide_eq_true (hkept c hc),
        List.filter_eq_nil_iff.2 fun c hc => ?_, List.append_nil]
      simpa using ⟨c, hc, rfl⟩

theorem isCurrent_stored {type : FieldType} {v : Value} {snak : Json} (hfits : v.fits type = true)
    (hsnak : Claim.snak v = .ok snak) (hequals : v.canonical.equals v = true) (guid : String) :
    isCurrent type v ⟨guid, some (Store.stored snak)⟩ = true := by
  have hread := Claim.ofDatavalue?_datavalue hfits (Store.stored_snak hsnak)
  simp only [isCurrent, Option.bind_some, hread, hequals]

theorem setting_of_current {type : FieldType} {v : Value} {first : StoredClaim} (h : isCurrent type v first = true)
    (snak : Json) : setting type v snak [first] = [] := by
  rw [setting, h]
  rfl

/--
What the claims of a property have become in line with a value: none for null, and else one, which was there and is read
as the value, or which has the stored form of the value.
-/
inductive Converged (type : FieldType) (v : Value) (before : List StoredClaim) : List StoredClaim → Prop
  | removed (hnull : v.isNull = true) : Converged type v before []
  | kept (hnull : v.isNull = false) {c : StoredClaim} (hc : c ∈ before) {d : Json} (hd : c.datavalue = some d)
    {current : Value} (hread : Claim.ofDatavalue? type d = some current) (hequals : current.equals v = true) :
    Converged type v before [c]
  | written (guid : String) {snak : Json} (hsnak : Claim.snak v = .ok snak) :
    Converged type v before [⟨guid, some (Store.stored snak)⟩]

theorem isCurrent_eq_true {type : FieldType} {v : Value} {c : StoredClaim} :
    isCurrent type v c = true ↔
      ∃ d current, c.datavalue = some d ∧ Claim.ofDatavalue? type d = some current ∧ current.equals v = true := by
  rw [isCurrent]
  split
  · next current h =>
    obtain ⟨d, hd, hread⟩ := Option.bind_eq_some_iff.1 h
    simp [hd, hread]
  · next h =>
    refine iff_of_false Bool.false_ne_true ?_
    rintro ⟨d, current, hd, hread, -⟩
    simp [hd, hread] at h

theorem converged_of_turnsAll {type : FieldType} {v : Value} {cs cs' : List StoredClaim} {edits : List ClaimEdit}
    (hplan : plan type v cs = .ok edits) (hturns : TurnsAll edits cs cs') (hnodup : (cs.map (·.guid)).Nodup) :
    Converged type v cs cs' := by
  rcases plan_eq_ok.1 hplan with ⟨hnull, rfl⟩ | ⟨hnull, snak, hsnak, rfl⟩
  · obtain rfl := TurnsAll.of_removing [] hturns (by simp)
    exact .removed hnull
  · cases cs with
    | nil =>
      obtain _ | ⟨hadd, hrest⟩ := hturns
      cases hadd
      cases hrest
      exact .written _ hsnak
    | cons first extra =>
      rw [List.map_cons, List.nodup_cons] at hnodup
      have hturns : TurnsAll ((if isCurrent type v first then [] else [.replace first.guid snak]) ++ removing extra)
        (first :: extra) cs' := hturns
      split at hturns
      · next hcurrent =>
        obtain rfl := TurnsAll.of_removing [first] hturns (by simpa using hnodup.1)
        obtain ⟨d, current, hd, hread, hequals⟩ := isCurrent_eq_true.1 hcurrent
        exact .kept hnull List.mem_cons_self hd hread hequals
      · obtain _ | ⟨hreplace, hrest⟩ := hturns
        cases hreplace
        -- Identifiers come once, so the replacement leaves the other claims as they are.
        have hothers : extra.map (fun c => if c.guid = first.guid then ⟨c.guid, some (Store.stored snak)⟩ else c) =
            extra := by
          refine (List.map_congr_left fun c hc => if_neg fun h => ?_).trans (List.map_id _)
          exact hnodup.1 (h ▸ List.mem_map_of_mem hc)
        rw [List.map_cons, if_pos rfl, hothers] at hrest
        obtain rfl := TurnsAll.of_removing [⟨first.guid, some (Store.stored snak)⟩] hrest (by simpa using hnodup.1)
        exact .written _ hsnak

theorem exists_turnsAll (edits : List ClaimEdit) (cs : List StoredClaim) : ∃ cs', TurnsAll edits cs cs' := by
  induction edits generalizing cs with
  | nil => exact ⟨cs, .nil cs⟩
  | cons edit rest ih =>
    have hturns : ∃ cs', edit.Turns cs cs' := by
      cases edit with
      | add snak => exact ⟨_, .add snak "" cs⟩
      | replace guid snak => exact ⟨_, .replace guid snak cs⟩
      | remove guids => exact ⟨_, .remove guids cs⟩
    obtain ⟨cs', hturns⟩ := hturns
    obtain ⟨cs'', hrest⟩ := ih cs'
    exact ⟨cs'', .cons hturns hrest⟩

theorem plan_of_turnsAll {type : FieldType} {v : Value} {cs cs' : List StoredClaim} {edits : List ClaimEdit}
    (hplan : plan type v cs = .ok edits) (hturns : TurnsAll edits cs cs') (hnodup : (cs.map (·.guid)).Nodup)
    (hvalue : v.isNull = false → v.fits type = true ∧ v.canonical.equals v = true) : plan type v cs' = .ok [] := by
  have hconverged := converged_of_turnsAll hplan hturns hnodup
  rcases plan_eq_ok.1 hplan with ⟨hnull, -⟩ | ⟨hnull, snak, hsnak, -⟩
  · refine plan_eq_ok.2 (.inl ⟨hnull, ?_⟩)
    cases hconverged with
    | removed => rfl
    | kept hvalue => exact Bool.noConfusion (hnull.symm.trans hvalue)
    | written guid hsnak =>
      obtain rfl := Value.eq_null_of_isNull hnull
      cases hsnak
  · refine plan_eq_ok.2 (.inr ⟨hnull, snak, hsnak, ?_⟩)
    cases hconverged with
    | removed hvalue => exact Bool.noConfusion (hnull.symm.trans hvalue)
    | kept _ _ hd hread hequals =>
      exact (setting_of_current (isCurrent_eq_true.2 ⟨_, _, hd, hread, hequals⟩) snak).symm
    | written guid hwritten =>
      obtain ⟨hfits, hequals⟩ := hvalue hnull
      exact (setting_of_current (isCurrent_stored hfits hwritten hequals guid) snak).symm

end ClaimEdit

theorem Values.Allowed.equals_canonical {f : ResolvedField} {v : Value} (h : Values.Allowed f v)
    (hcanonical : v.canonical = v) (hnull : v.isNull = false) :
    v.fits f.field.type = true ∧ v.canonical.equals v = true := by
  rcases h with ⟨h, -⟩ | ⟨hfits, stored, hstored⟩
  · exact Bool.noConfusion (hnull.symm.trans h)
  · refine ⟨hfits, hcanonical.symm ▸ Value.equals_self ?_⟩
    rintro rfl
    cases hstored

theorem Store.WellKept.nodup_claimsOf {w : Store} (hw : w.WellKept) (id : String) (p : PropertyId) :
    ((w.claimsOf id p).map (·.guid)).Nodup := by
  have hsub : ((w.claimsOf id p).map (·.guid)).Sublist w.guids := by
    rw [Store.claimsOf, List.map_map]
    exact List.filter_sublist.map _
  exact hw.nodup.sublist hsub

open Store

namespace Client

variable {registered : String → PropertyId} {edit : StoreEdit} {ps : Parameters}

section Done

variable {α β W : Type} {world : World W} {P : W → Prop} {x : Action α} {s : Session} {v : W}

theorem done_bind_pure (h : x.Ensures world s v fun r _ v' => ∀ a, r = .ok a → P v') (f : α → β) :
    Action.Ensures world (x >>= fun a => pure (f a)) s v fun r _ v' => ∀ b, r = .ok b → P v' :=
  h.bind (fun a _ _ hv _ _ => hv a rfl) fun _ _ _ _ => by simp

theorem onEntity_done {id : String} (h : x.Ensures world s v fun r _ v' => ∀ a, r = .ok a → P v') :
    (onEntity id x).Ensures world s v fun r _ v' => ∀ a, r = .ok a → P v' := by
  rw [onEntity, Action.ensures_bind, Action.ensures_outcome]
  refine h.mono fun r s' v' hv => ?_
  cases r with
  | ok a => exact fun b _ => hv a rfl
  | error e => simp [Action.ensures_throw]

end Done

theorem write_done (c : Client) (s : Session) (w : Store)
    (hps : ∀ token, StoreEdit.ofParameters? (signed token ps) = some edit) :
    (c.write ps).Ensures (.storing registered) s w fun r _ w' =>
      ∀ a, r = .ok a → ∃ body, w.Step registered edit w' body := by
  refine (write_ensures (storing_edits hps) c s w).mono fun r s' w' h => ?_
  cases h with
  | not | unknown => simp
  | done step => exact fun _ _ => ⟨_, step⟩

end Client

namespace Tables

variable {registered : String → PropertyId} {w : Store} {id : String}

theorem sendEdit_done (c : Client) (id : String) (p : PropertyId) {edit : ClaimEdit}
    (hseparable : ∀ g ∈ edit.targets, '|' ∉ g.toList) (s : Session) (w : Store) :
    (sendEdit c id p edit).Ensures (.storing registered) s w fun r _ w' =>
      ∀ u, r = .ok u → edit.Turns (w.claimsOf id p) (w'.claimsOf id p) := by
  have hturns : ∀ {ps : Parameters},
      (∀ token, StoreEdit.ofParameters? (Client.signed token ps) = some (edit.toStore id p)) →
        (Client.onEntity id (c.write ps)).Ensures (.storing registered) s w fun r _ w' =>
          ∀ body, r = .ok body → edit.Turns (w.claimsOf id p) (w'.claimsOf id p) := fun hps =>
    Client.onEntity_done ((Client.write_done c s w hps).mono fun _ _ _ h body hbody =>
      (h body hbody).elim fun _ hstep => hstep.turns)
  cases edit with
  | add snak =>
    exact Client.done_bind_pure (Client.done_bind_pure (hturns (StoreEdit.ofParameters?_createClaim · id p snak)) _) _
  | replace guid snak =>
    exact Client.done_bind_pure (hturns (StoreEdit.ofParameters?_setClaimValue · guid snak)) _
  | remove guids =>
    rw [sendEdit, Client.removeClaims]
    split
    · next hempty =>
      intro _ _
      obtain rfl := List.isEmpty_iff.1 hempty
      simpa using ClaimEdit.Turns.remove [] (w.claimsOf id p)
    · next hne =>
      have hne : guids ≠ [] := by simpa using hne
      exact Client.done_bind_pure (hturns (StoreEdit.ofParameters?_removeClaims · hne hseparable)) _

theorem sendEdits_done (c : Client) (id : String) (p : PropertyId) {edits : List ClaimEdit}
    (hseparable : ∀ edit ∈ edits, ∀ g ∈ edit.targets, '|' ∉ g.toList) (s : Session) (w : Store) :
    (sendEdits c id p edits).Ensures (.storing registered) s w fun r _ w' =>
      ∀ u, r = .ok u → ClaimEdit.TurnsAll edits (w.claimsOf id p) (w'.claimsOf id p) := by
  induction edits generalizing s w with
  | nil => exact fun _ _ => .nil _
  | cons edit rest ih =>
    rw [List.forall_mem_cons] at hseparable
    refine (sendEdit_done c id p hseparable.1 s w).bind (fun u s' w' h => ?_) fun _ _ _ _ => by simp
    exact (ih hseparable.2 s' w').mono fun _ _ _ h' u' hu' => .cons (h u rfl) (h' u' hu')

def Change.Settled (id : String) (w : Store) (change : Change) : Prop :=
  ClaimEdit.plan change.field.field.type change.value (w.claimsOf id change.property) = .ok []

variable {claims : ClaimSet}

theorem applyChange_done (c : Client) (model : String) {change : Change}
    (hclaims : claims.get change.property = w.claimsOf id change.property)
    (hallowed : Values.Allowed change.field change.value) (hcanonical : change.value.canonical = change.value)
    (s : Session) (hw : w.WellKept) :
    (applyChange c model id claims change).Ensures (.storing registered) s w fun r _ w' =>
      ∀ b, r = .ok b → change.Settled id w' := by
  rw [applyChange, hclaims]
  split
  · simp [Client.Action.ensures_throw]
  · next edits hplan =>
    have hseparable : ∀ edit ∈ edits, ∀ g ∈ edit.targets, '|' ∉ g.toList := fun edit hedit g hg =>
      hw.separable_claimsOf id change.property g (ClaimEdit.targets_plan hplan edit hedit hg)
    refine Client.done_bind_pure ((sendEdits_done c id change.property hseparable s w).mono fun r s' w' h u hu => ?_) _
    exact ClaimEdit.plan_of_turnsAll hplan (h u hu) (hw.nodup_claimsOf id change.property)
      (hallowed.equals_canonical hcanonical)

theorem applyChanges_done (c : Client) (model : String) {changes : List Change}
    (hnodup : (changes.map (·.property)).Nodup)
    (hclaims : ∀ change ∈ changes, claims.get change.property = w.claimsOf id change.property)
    (hallowed : ∀ change ∈ changes, Values.Allowed change.field change.value ∧ change.value.canonical = change.value)
    (s : Session) (hw : w.WellKept) :
    (applyChanges c model id claims changes).Ensures (.storing registered) s w fun r _ w' =>
      (Touched id (changes.map (·.property)) w w' ∧ w'.WellKept) ∧
        ∀ results, r = .ok results → failures results = [] → ∀ change ∈ changes, change.Settled id w' := by
  induction changes generalizing s w with
  | nil => exact ⟨⟨.refl id [] w, hw⟩, by simp⟩
  | cons change rest ih =>
    rw [List.forall_mem_cons] at hclaims hallowed
    obtain ⟨hchange, hrest⟩ := List.nodup_cons.1 hnodup
    rw [applyChanges, Client.Action.ensures_bind, Client.Action.ensures_outcome]
    refine ((applyChange_touched c model hclaims.1 s hw).and
      (applyChange_done c model hclaims.1 hallowed.1.1 hallowed.1.2 s hw)).mono ?_
    rintro r s' w' ⟨⟨⟨htouched, hwell⟩, -⟩, hdone⟩
    -- The claims were fetched before all edits, and still hold for the fields that come next.
    have hsame : ∀ other ∈ rest, claims.get other.property = w'.claimsOf id other.property := by
      intro other hother
      refine (hclaims.2 other hother).trans (htouched.claimsOf id _ fun h => hchange ?_).symm
      exact List.mem_map.2 ⟨other, hother, List.mem_singleton.1 h.2⟩
    refine (ih hrest hsame hallowed.2 s' hwell).bind ?_ ?_
    · rintro results s'' w'' ⟨⟨htouched', hwell'⟩, hdone'⟩
      refine ⟨⟨htouched.trans htouched', hwell'⟩, ?_⟩
      rintro _ ⟨⟩ hnone
      cases r with
      | error e => cases hnone
      | ok b =>
        refine List.forall_mem_cons.2 ⟨?_, hdone' results rfl hnone⟩
        rw [Change.Settled, htouched'.claimsOf id _ fun h => hchange h.2]
        exact hdone b rfl
    · rintro e s'' w'' ⟨⟨htouched', hwell'⟩, -⟩
      exact ⟨⟨htouched.trans htouched', hwell'⟩, by simp⟩

theorem applyChanges_settled (c : Client) (model id : String) {changes : List Change}
    (h : ∀ change ∈ changes, ClaimEdit.plan change.field.field.type change.value (claims.get change.property) = .ok []) :
    applyChanges c model id claims changes = pure (changes.map fun change => (change.field.field.name, .ok false)) := by
  induction changes with
  | nil => rfl
  | cons change rest ih =>
    rw [List.forall_mem_cons] at h
    have hfirst : (applyChange c model id claims change).outcome = pure (.ok false) := by
      rw [applyChange, h.1]
      rfl
    rw [applyChanges, hfirst, ih h.2]
    rfl

theorem updateResult_settled (id : String) (changes : List Change) :
    updateResult id (changes.map fun change => (change.field.field.name, .ok false)) = .ok [] := by
  have hfailures : failures (changes.map fun change => (change.field.field.name, .ok false)) = [] := by
    simp [failures, List.filterMap_map]
  have happlied : applied (changes.map fun change => (change.field.field.name, .ok false)) = [] := by
    simp [applied, List.filterMap_map]
  rw [updateResult, hfailures, happlied]

theorem failures_of_updateResult {results : List (String × Except Error Bool)} {changed : List String}
    (h : updateResult id results = .ok changed) : failures results = [] := by
  unfold updateResult at h
  split at h
  · next hnone => exact hnone
  · split at h
    · cases h
    · cases h

end Tables

end ClaimTables
