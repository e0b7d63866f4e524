import ClaimTables.Proofs.Tables.Outcome
import ClaimTables.Proofs.Tables.Settling

/-!
What a change comes to. Main statement: if it succeeds, then the edits that it sent were accepted, each once, and they
turn the claims that the property had into none for null, and else into one with the value; whatever these claims were.
-/

namespace ClaimTables

theorem ClaimEdit.toStore_injective (id : String) (p : PropertyId) : Function.Injective (ClaimEdit.toStore id p) := by
  intro edit other h
  cases edit with
  | add snak =>
    cases other with
    | add snak' =>
      obtain rfl := (StoreEdit.addClaim.inj h).2.2
      rfl
    | replace | remove => cases h
  | replace guid snak =>
    cases other with
    | replace guid' snak' =>
      obtain ⟨rfl, rfl⟩ := StoreEdit.setValue.inj h
      rfl
    | add | remove => cases h
  | remove guids =>
    cases other with
    | remove guids' =>
      obtain rfl := StoreEdit.removeClaims.inj h
      rfl
    | add | replace => cases h

/-- What the edits that the store has accepted in some exchanges make of the claims that an entity has of a property. -/
def Exchange.Turns (id : String) (p : PropertyId) (exchanged : List Exchange) (before after : List StoredClaim) : Prop :=
  ∃ edits, Exchange.edits exchanged = edits.map (ClaimEdit.toStore id p) ∧ ClaimEdit.TurnsAll edits before after

namespace Tables

open Client Client.Action

variable {id : String} {p : PropertyId} {edits done : List ClaimEdit} {exchanged : List Exchange}

theorem WroteEdits.turns_iff (h : WroteEdits id p edits exchanged done) (hdone : done.map (ClaimEdit.read id p) =
    done.map (ClaimEdit.toStore id p)) {before after : List StoredClaim} :
    Exchange.Turns id p exchanged before after ↔ ClaimEdit.TurnsAll done before after := by
  have hedits := h.accepted.trans hdone
  constructor
  · rintro ⟨others, hothers, hturns⟩
    have hsame := List.map_injective_iff.2 (ClaimEdit.toStore_injective id p) (hedits.symm.trans hothers)
    exact hsame ▸ hturns
  · exact fun hturns => ⟨done, hedits, hturns⟩

theorem WroteEdits.alters_iff (h : WroteEdits id p edits exchanged edits) :
    (∃ x ∈ exchanged, Alters x.request) ↔ edits ≠ [] := by
  constructor
  · rintro ⟨x, hx, halters⟩ rfl
    rcases h.requests x hx with hsession | ⟨edit, hedit, -⟩
    · exact (Resolves.session hsession).not_alters halters
    · cases hedit
  · intro hne
    obtain ⟨x, hx, hxa⟩ := h.exists_accepted hne
    exact ⟨x, hx, hxa.alters⟩

/--
If a change of a field succeeds, then all that was sent besides logins are edits that the store has accepted, and they
bring the claims of the property in line with the value, whatever they were; and it says that it took an edit exactly if
one was sent.
-/
theorem applyChange_converges (c : Client) (model id : String) {claims : ClaimSet} {change : Change}
    (hnodup : ((claims.get change.property).map (·.guid)).Nodup)
    (hseparable : ∀ g ∈ (claims.get change.property).map (·.guid), '|' ∉ g.toList) (s : Session) :
    (applyChange c model id claims change).Ensures .noting s [] fun r _ trace => ∀ flag, r = .ok flag →
      (∀ x ∈ trace, OpensSession x.request ∨ ∃ ps, x.request = .post ps ∧
        ∃ edit ∈ Exchange.edits trace, StoreEdit.ofParameters? ps = some edit) ∧
      (∃ after, Exchange.Turns id change.property trace (claims.get change.property) after) ∧
      (∀ after, Exchange.Turns id change.property trace (claims.get change.property) after →
        ClaimEdit.Converged change.field.field.type change.value (claims.get change.property) after) ∧
      (flag = true ↔ ∃ x ∈ trace, Alters x.request) := by
  refine ensures_of_goes fun trace r s' hgoes flag hflag => ?_
  rw [List.nil_append]
  rcases applyChange_wrote hgoes with ⟨why, -, -, rfl⟩ | ⟨edits, done, hplan, -, hwrote, hend⟩
  · cases hflag
  · rcases hend with ⟨rfl, rfl⟩ | ⟨-, e, rfl⟩
    · have hread : done.map (ClaimEdit.read id change.property) = done.map (ClaimEdit.toStore id change.property) :=
        List.map_congr_left fun edit hedit => read_eq_toStore id change.property (ne_remove_of_plan hplan edit hedit)
          fun g hg => hseparable g (ClaimEdit.targets_plan hplan edit hedit hg)
      refine ⟨fun x hx => ?_, ?_, fun after hturns => ?_, ?_⟩
      · refine (hwrote.requests x hx).imp_right ?_
        rintro ⟨edit, hedit, token, hrequest⟩
        refine ⟨_, hrequest, edit.read id change.property, ?_, ofParameters?_editParameters id change.property edit token⟩
        rw [hwrote.accepted]
        exact List.mem_map_of_mem hedit
      · obtain ⟨after, hafter⟩ := ClaimEdit.exists_turnsAll done (claims.get change.property)
        exact ⟨after, (hwrote.turns_iff hread).2 hafter⟩
      · exact ClaimEdit.converged_of_turnsAll hplan ((hwrote.turns_iff hread).1 hturns) hnodup
      · obtain rfl := Except.ok.inj hflag
        rw [hwrote.alters_iff]
        simp
    · cases hflag

def mixedNames : ClaimSet :=
  ⟨[(⟨5⟩, [⟨"Q7$c", none⟩, ⟨"Q7$d", some (Claim.itemDatavalue ⟨9⟩)⟩, ⟨"Q7$e", some (Claim.stringDatavalue "Ada")⟩,
    ⟨"Q7$f", some (Claim.stringDatavalue "Ada")⟩])]⟩

def nameAda : Change :=
  ⟨⟨"Person", ⟨"name", .text, false, false⟩⟩, ⟨5⟩, .text "Ada"⟩

theorem applyChange_converges_names :
    ((mixedNames.get nameAda.property).map (·.guid)).Nodup ∧
      (∀ g ∈ (mixedNames.get nameAda.property).map (·.guid), '|' ∉ g.toList) ∧
      (applyChange ⟨"Admin@wikigraph", "secret", 3, "en"⟩ "Person" "Q7" mixedNames nameAda).Ensures .noting .fresh []
        fun r _ trace => ∀ flag, r = .ok flag →
          (∀ x ∈ trace, OpensSession x.request ∨ ∃ ps, x.request = .post ps ∧
            ∃ edit ∈ Exchange.edits trace, StoreEdit.ofParameters? ps = some edit) ∧
          (∃ after, Exchange.Turns "Q7" nameAda.property trace (mixedNames.get nameAda.property) after) ∧
          (∀ after, Exchange.Turns "Q7" nameAda.property trace (mixedNames.get nameAda.property) after →
            ClaimEdit.Converged nameAda.field.field.type nameAda.value (mixedNames.get nameAda.property) after) ∧
          (flag = true ↔ ∃ x ∈ trace, Alters x.request) := by
  have hnodup : ((mixedNames.get nameAda.property).map (·.guid)).Nodup := by decide
  have hseparable : ∀ g ∈ (mixedNames.get nameAda.property).map (·.guid), '|' ∉ g.toList := by decide
  exact ⟨hnodup, hseparable,
    applyChange_converges ⟨"Admin@wikigraph", "secret", 3, "en"⟩ "Person" "Q7" hnodup hseparable .fresh⟩

end Tables

end ClaimTables
