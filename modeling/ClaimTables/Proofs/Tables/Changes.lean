import ClaimTables.Proofs.Client.Storing
import ClaimTables.Proofs.Row.Kept

/-!
What changing the fields of a row does to the store. The claims of the changed fields of that row are touched and
nothing else, and a field that was in order is so afterwards, whichever of the edits fail.
-/

namespace ClaimTables.Tables

open Store

variable {registered : String → PropertyId} {w : Store} {id : String}

theorem sendEdit_changes (c : Client) (id : String) (p : PropertyId) {edit : ClaimEdit}
    (hseparable : ∀ g ∈ edit.targets, '|' ∉ g.toList) (s : Session) (w : Store) :
    (sendEdit c id p edit).Ensures (.storing registered) s w fun _ _ w' =>
      Client.Changes registered w (edit.toStore id p) w' := by
  cases edit with
  | add snak => exact (Client.createClaim_changes c id p snak s w).bind (fun _ _ _ h => h) fun _ _ _ h => h
  | replace guid snak => exact Client.setClaimValue_changes c id guid snak s w
  | remove guids => exact Client.removeClaims_changes c id hseparable s w

theorem sendEdits_touched (c : Client) {p : PropertyId} {edits : List ClaimEdit}
    (howned : ∀ edit ∈ edits, w.Owned id p edit.targets)
    (hseparable : ∀ edit ∈ edits, ∀ g ∈ edit.targets, '|' ∉ g.toList) (s : Session) (hw : w.WellKept) :
    (sendEdits c id p edits).Ensures (.storing registered) s w fun _ _ w' => Touched id [p] w w' ∧ w'.WellKept := by
  induction edits generalizing s w with
  | nil => exact ⟨.refl id [p] w, hw⟩
  | cons edit rest ih =>
    rw [List.forall_mem_cons] at howned hseparable
    have hfirst : ∀ w', Client.Changes registered w (edit.toStore id p) w' → Touched id [p] w w' ∧ w'.WellKept := by
      rintro w' (rfl | ⟨body, hstep⟩)
      · exact ⟨.refl id [p] w', hw⟩
      · exact ⟨hstep.touched howned.1, hw.step hstep⟩
    refine (sendEdit_changes c id p hseparable.1 s w).bind (fun _ s' w' h => ?_) fun _ _ w' h => hfirst w' h
    obtain ⟨htouched, hwell⟩ := hfirst w' h
    refine (ih (fun e he => (howned.2 e he).touched htouched) hseparable.2 s' hwell).mono fun _ _ w'' h' => ?_
    exact ⟨(htouched.trans h'.1).mono (by simp), h'.2⟩

/-- That a change leaves its field in order if it was so before and may have the value. -/
def Change.Sound (id : String) (w w' : Store) (change : Change) : Prop :=
  change.field.Kept (w.claimsOf id change.property) → Values.Allowed change.field change.value →
    change.field.Kept (w'.claimsOf id change.property)

variable {claims : ClaimSet}

theorem sendEdits_sound (c : Client) {change : Change} {edits : List ClaimEdit}
    (hplan : ClaimEdit.plan change.field.field.type change.value (w.claimsOf id change.property) = .ok edits)
    (s : Session) (hw : w.WellKept) :
    (sendEdits c id change.property edits).Ensures (.storing registered) s w fun _ _ w' => change.Sound id w w' := by
  refine Client.Action.Ensures.imp fun hkept => Client.Action.Ensures.imp fun hallowed => ?_
  rcases hkept.plan hallowed hplan with rfl | ⟨edit, rfl, hturns⟩
  · exact hkept
  · have hchanges : ∀ w', Client.Changes registered w (edit.toStore id change.property) w' →
        change.field.Kept (w'.claimsOf id change.property) := by
      rintro w' (rfl | ⟨body, hstep⟩)
      · exact hkept
      · exact hturns _ hstep.turns
    have hseparable : ∀ g ∈ edit.targets, '|' ∉ g.toList := fun g hg =>
      hw.separable_claimsOf id change.property g (ClaimEdit.targets_plan hplan edit List.mem_cons_self hg)
    have hsent : (sendEdit c id change.property edit).Ensures (.storing registered) s w fun _ _ w' =>
        change.field.Kept (w'.claimsOf id change.property) :=
      (sendEdit_changes c id change.property hseparable s w).mono fun _ _ w' h => hchanges w' h
    exact hsent.bind (fun _ _ _ h => h) fun _ _ _ h => h

theorem applyChange_touched (c : Client) (model : String) {change : Change}
    (hclaims : claims.get change.property = w.claimsOf id change.property) (s : Session) (hw : w.WellKept) :
    (applyChange c model id claims change).Ensures (.storing registered) s w fun _ _ w' =>
      (Touched id [change.property] w w' ∧ w'.WellKept) ∧ change.Sound id w w' := by
  rw [applyChange, hclaims]
  split
  · exact ⟨⟨.refl _ _ w, hw⟩, fun hkept _ => hkept⟩
  · next edits hplan =>
    have hsub := ClaimEdit.targets_plan hplan
    have htouched : (sendEdits c id change.property edits).Ensures (.storing registered) s w fun _ _ w' =>
        Touched id [change.property] w w' ∧ w'.WellKept :=
      sendEdits_touched c (fun edit hedit => (hw.owned _ _).subset (hsub edit hedit))
        (fun edit hedit g hg => hw.separable_claimsOf _ _ g (hsub edit hedit hg)) s hw
    exact (htouched.and (sendEdits_sound c hplan s hw)).bind (fun _ _ _ h => h) fun _ _ _ h => h

theorem applyChanges_touched (c : Client) (model : String) {changes : List Change}
    (hnodup : (changes.map (·.property)).Nodup)
    (hclaims : ∀ change ∈ changes, claims.get change.property = w.claimsOf id change.property) (s : Session)
    (hw : w.WellKept) :
    (applyChanges c model id claims changes).Ensures (.storing registered) s w fun _ _ w' =>
      (Touched id (changes.map (·.property)) w w' ∧ w'.WellKept) ∧ ∀ change ∈ changes, change.Sound id w w' := by
  induction changes generalizing s w with
  | nil => exact ⟨⟨.refl id [] w, hw⟩, by simp⟩
  | cons change rest ih =>
    rw [List.forall_mem_cons] at hclaims
    obtain ⟨hchange, hrest⟩ := List.nodup_cons.1 hnodup
    rw [applyChanges, Client.Action.ensures_bind, Client.Action.ensures_outcome]
    refine (applyChange_touched c model hclaims.1 s hw).mono fun r s' w' h => ?_
    obtain ⟨⟨htouched, hwell⟩, hsound⟩ := h
    -- Properties come once, so the changes that follow find the claims as they were fetched.
    have hsame : ∀ other ∈ rest, w'.claimsOf id other.property = w.claimsOf id other.property := by
      intro other hother
      refine htouched.claimsOf id _ fun h => hchange ?_
      exact List.mem_map.2 ⟨other, hother, List.mem_singleton.1 h.2⟩
    have hmore : (applyChanges c model id claims rest).Ensures (.storing registered) s' w' fun _ _ w'' =>
        (Touched id ((change :: rest).map (·.property)) w w'' ∧ w''.WellKept) ∧
          ∀ other ∈ change :: rest, other.Sound id w w'' := by
      refine (ih hrest (fun other hother => (hclaims.2 other hother).trans (hsame other hother).symm) s' hwell).mono
        fun _ _ w'' h => ?_
      obtain ⟨⟨htouched', hwell'⟩, hsound'⟩ := h
      refine ⟨⟨htouched.trans htouched', hwell'⟩, List.forall_mem_cons.2 ⟨fun hkept hallowed => ?_, fun other hother => ?_⟩⟩
      · rw [htouched'.claimsOf id _ fun h => hchange h.2]
        exact hsound hkept hallowed
      · intro hkept hallowed
        rw [← hsame other hother] at hkept
        exact hsound' other hother hkept hallowed
    exact hmore.bind (fun _ _ _ h => h) fun _ _ _ h => h

end ClaimTables.Tables
