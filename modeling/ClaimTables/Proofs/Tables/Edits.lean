import ClaimTables.Proofs.Client.Accepted
import ClaimTables.Proofs.Row.Kept
import ClaimTables.Tables.Writing

/-!
What is sent for a change of a field. Its plan is sent edit by edit, up to the first that fails; the store has accepted
the edits before that one, each once, and all of them if none failed.
-/

namespace ClaimTables

open Client Client.Action

def Tables.editParameters (id : String) (p : PropertyId) : ClaimEdit → Parameters
  | .add snak => createClaimParameters id p.text snak
  | .replace guid snak => setClaimValueParameters guid snak
  | .remove guids => removeClaimsParameters guids

/-- An edit of claims as the store reads it: the identifiers of claims are told apart by bars. -/
def ClaimEdit.read (id : String) (p : PropertyId) : ClaimEdit → StoreEdit
  | .remove guids => .removeClaims ((("|".intercalate guids).toList.splitOn '|').map String.ofList)
  | edit => edit.toStore id p

namespace Tables

variable {c : Client} {id : String} {p : PropertyId} {s s' : Session} {exchanged : List Exchange}

theorem ofParameters?_editParameters (id : String) (p : PropertyId) (edit : ClaimEdit) (token : Token) :
    StoreEdit.ofParameters? (signed token (editParameters id p edit)) = some (edit.read id p) := by
  cases edit with
  | add snak => exact StoreEdit.ofParameters?_createClaim token id p snak
  | replace guid snak => exact StoreEdit.ofParameters?_setClaimValue token guid snak
  | remove guids => rfl

theorem read_eq_toStore (id : String) (p : PropertyId) {edit : ClaimEdit} (hedit : edit ≠ .remove [])
    (h : ∀ g ∈ edit.targets, '|' ∉ g.toList) : edit.read id p = edit.toStore id p := by
  cases edit with
  | add snak | replace guid snak => rfl
  | remove guids =>
    have hne : guids ≠ [] := fun hnil => hedit (hnil ▸ rfl)
    exact congrArg StoreEdit.removeClaims (StoreEdit.splitOn_intercalate hne h)

theorem sendEdit_writes (c : Client) (id : String) (p : PropertyId) {edit : ClaimEdit} (hedit : edit ≠ .remove []) :
    Writes (editParameters id p edit) (edit.read id p) (sendEdit c id p edit) := by
  have hsent := writes_onEntity (ofParameters?_editParameters id p edit) c id
  cases edit with
  | add snak => exact (hsent.bind_pure _).bind_pure _
  | replace guid snak => exact hsent.bind_pure _
  | remove guids =>
    have hne : guids.isEmpty = false := by
      cases guids with
      | nil => exact absurd rfl hedit
      | cons g rest => rfl
    simp only [sendEdit, removeClaims, hne]
    exact hsent.bind_pure _

theorem removing_cases (claims : List StoredClaim) :
    (claims = [] ∧ ClaimEdit.removing claims = []) ∨
      ∃ first rest, claims = first :: rest ∧ ClaimEdit.removing claims = [.remove (claims.map (·.guid))] := by
  cases claims with
  | nil => exact .inl ⟨rfl, rfl⟩
  | cons first rest => exact .inr ⟨first, rest, rfl, rfl⟩

theorem plan_cases {type : FieldType} {v : Value} {stored : List StoredClaim} {edits : List ClaimEdit}
    (h : ClaimEdit.plan type v stored = .ok edits) :
    edits = [] ∨ (∃ edit, edits = [edit] ∧ edit ≠ .remove []) ∨
      ∃ first second rest snak, stored = first :: second :: rest ∧
        edits = [.replace first.guid snak, .remove ((second :: rest).map (·.guid))] := by
  have hremoving (claims : List StoredClaim) : ClaimEdit.removing claims = [] ∨
      ∃ edit, ClaimEdit.removing claims = [edit] ∧ edit ≠ .remove [] := by
    rcases removing_cases claims with ⟨-, hnil⟩ | ⟨first, rest, rfl, hremove⟩
    · exact .inl hnil
    · exact .inr ⟨_, hremove, by simp⟩
  rcases ClaimEdit.plan_eq_ok.1 h with ⟨-, rfl⟩ | ⟨-, snak, -, rfl⟩
  · exact (hremoving stored).imp id .inl
  · cases stored with
    | nil => exact .inr (.inl ⟨_, rfl, by simp⟩)
    | cons first extra =>
      simp only [ClaimEdit.setting]
      split
      · exact (hremoving extra).imp id .inl
      · rcases removing_cases extra with ⟨-, hnil⟩ | ⟨second, rest, rfl, hremove⟩
        · rw [hnil]
          exact .inr (.inl ⟨_, rfl, by simp⟩)
        · rw [hremove]
          exact .inr (.inr ⟨first, second, rest, snak, rfl, rfl⟩)

theorem ne_remove_of_plan {type : FieldType} {v : Value} {stored : List StoredClaim} {edits : List ClaimEdit}
    (h : ClaimEdit.plan type v stored = .ok edits) : ∀ edit ∈ edits, edit ≠ .remove [] := by
  rcases plan_cases h with rfl | ⟨edit, rfl, hne⟩ | ⟨first, second, rest, snak, -, rfl⟩
  · exact List.forall_mem_nil _
  · exact List.forall_mem_singleton.2 hne
  · exact List.forall_mem_cons.2 ⟨by simp, List.forall_mem_singleton.2 (by simp)⟩

/-- What is exchanged for edits that are sent in turn, of which the store has accepted so many. -/
structure WroteEdits (id : String) (p : PropertyId) (edits : List ClaimEdit) (exchanged : List Exchange)
    (done : List ClaimEdit) : Prop where
  requests : ∀ x ∈ exchanged,
    OpensSession x.request ∨ ∃ edit ∈ edits, ∃ token, x.request = .post (signed token (editParameters id p edit))
  accepted : Exchange.edits exchanged = done.map (ClaimEdit.read id p)

theorem sendEdits_wrote {edits : List ClaimEdit} (hedits : ∀ edit ∈ edits, edit ≠ .remove []) {r : Except Error Unit}
    (h : (sendEdits c id p edits).Goes s exchanged r s') :
    ∃ done, done <+: edits ∧ WroteEdits id p edits exchanged done ∧ (r = .ok () ↔ done = edits) := by
  induction edits generalizing s exchanged with
  | nil =>
    obtain ⟨rfl, rfl, -⟩ := goes_pure.1 h
    exact ⟨[], List.prefix_rfl, ⟨List.forall_mem_nil _, rfl⟩, by simp⟩
  | cons edit rest ih =>
    rw [List.forall_mem_cons] at hedits
    have hmem {x : Exchange} (hx : OpensSession x.request ∨
        ∃ token, x.request = .post (signed token (editParameters id p edit))) : OpensSession x.request ∨
        ∃ e ∈ edit :: rest, ∃ token, x.request = .post (signed token (editParameters id p e)) :=
      hx.imp_right fun htoken => ⟨edit, List.mem_cons_self, htoken⟩
    -- Either the first edit is accepted and the rest follow, or nothing is sent behind it.
    rcases goes_bind.1 h with ⟨_, s₁, first, more, hfirst, hmore, rfl⟩ | ⟨e, hfailed, rfl⟩
    · obtain ⟨answer, hwrote, hanswer⟩ := sendEdit_writes c id p hedits.1 _ _ _ _ hfirst
      obtain ⟨body, rfl⟩ := Option.isSome_iff_exists.1 hanswer.symm
      obtain ⟨done, hprefix, hrest, hok⟩ := ih hedits.2 hmore
      refine ⟨edit :: done, List.cons_prefix_cons.2 ⟨rfl, hprefix⟩, ⟨fun x hx => ?_, ?_⟩, by simpa using hok⟩
      · rcases List.mem_append.1 hx with hx | hx
        · exact hmem (hwrote.requests x hx)
        · refine (hrest.requests x hx).imp_right ?_
          rintro ⟨later, hlater, htoken⟩
          exact ⟨later, List.mem_cons_of_mem _ hlater, htoken⟩
      · rw [Exchange.edits_append, hrest.accepted, Exchange.edits, hwrote.accepted]
        rfl
    · obtain ⟨answer, hwrote, hanswer⟩ := sendEdit_writes c id p hedits.1 _ _ _ _ hfailed
      obtain rfl := Option.not_isSome_iff_eq_none.1 (Bool.not_eq_true _ ▸ hanswer.symm)
      refine ⟨[], List.nil_prefix, ⟨fun x hx => hmem (hwrote.requests x hx), ?_⟩, by simp⟩
      rw [Exchange.edits, hwrote.accepted]
      rfl

theorem applyChange_wrote {model : String} {claims : ClaimSet} {change : Change} {r : Except Error Bool}
    (h : (applyChange c model id claims change).Goes s exchanged r s') :
    (∃ why, ClaimEdit.plan change.field.field.type change.value (claims.get change.property) = .error why ∧
      exchanged = [] ∧ r = .error (.invalidValue model change.field.field.name why.message)) ∨
    ∃ edits done, ClaimEdit.plan change.field.field.type change.value (claims.get change.property) = .ok edits ∧
      done <+: edits ∧ WroteEdits id change.property edits exchanged done ∧
      ((done = edits ∧ r = .ok (!edits.isEmpty)) ∨ (done ≠ edits ∧ ∃ e, r = .error e)) := by
  unfold applyChange at h
  dsimp only at h
  split at h
  · next why hplan =>
    obtain ⟨rfl, rfl, -⟩ := goes_throw.1 h
    exact .inl ⟨why, hplan, rfl, rfl⟩
  · next edits hplan =>
    refine .inr ⟨edits, ?_⟩
    rcases goes_bind.1 h with ⟨_, s₁, first, rest, hfirst, hrest, rfl⟩ | ⟨e, hfailed, rfl⟩
    · obtain ⟨rfl, rfl, -⟩ := goes_pure.1 hrest
      obtain ⟨done, hprefix, hwrote, hok⟩ := sendEdits_wrote (ne_remove_of_plan hplan) hfirst
      rw [List.append_nil]
      exact ⟨done, hplan, hprefix, hwrote, .inl ⟨hok.1 rfl, rfl⟩⟩
    · obtain ⟨done, hprefix, hwrote, hok⟩ := sendEdits_wrote (ne_remove_of_plan hplan) hfailed
      refine ⟨done, hplan, hprefix, hwrote, .inr ⟨fun hall => ?_, e, rfl⟩⟩
      cases hok.2 hall

end Tables

end ClaimTables
