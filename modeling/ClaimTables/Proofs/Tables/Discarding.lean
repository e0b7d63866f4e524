import ClaimTables.Proofs.Client.Accepted
import ClaimTables.Tables.Writing

/-!
What a deletion does once its checks are passed: it writes one edit, which adds the tag of the namespace to the row or
deletes its page.
-/

namespace ClaimTables

namespace Client

open Client.Action

variable {c : Client} {ps : Parameters} {s s' : Session} {exchanged : List Exchange}

theorem writeWith_posts {token : Token} {r : Except Error Json} (h : (c.writeWith token ps).Goes s exchanged r s') :
    ∃ reply, ⟨.post (signed token ps), reply⟩ ∈ exchanged := by
  have hlast {sent : List Exchange} {answer : Except Error Json} {s₁ : Session}
      (hsent : (c.request (.post (signed token ps))).Goes s sent answer s₁) : ⟨.post (signed token ps), answer⟩ ∈ sent := by
    obtain ⟨before, rfl, -⟩ := sendAgain_goes (goes_ofDialogue.1 hsent).1
    exact List.mem_map.2 ⟨answer, List.mem_append_right _ List.mem_cons_self, rfl⟩
  rcases goes_bind.1 h with ⟨body, s₁, first, rest, hfirst, -, rfl⟩ | ⟨e, hfailed, -⟩
  · exact ⟨_, List.mem_append_left _ (hlast hfirst)⟩
  · exact ⟨_, hlast hfailed⟩

/-- An edit is sent, unless there is no session to send it in. -/
theorem write_posts {r : Except Error Json} (h : (c.write ps).Goes s exchanged r s') :
    (∃ token reply, ⟨.post (signed token ps), reply⟩ ∈ exchanged) ∨
      ∃ e, c.ensureAuthenticated.Goes s exchanged (.error e) s' := by
  rcases goes_bind.1 h with ⟨token, s₁, first, rest, -, hrest, rfl⟩ | ⟨e, hfailed, -⟩
  · rcases goes_bind.1 hrest with ⟨q, s₂, sent, more, hsent, -, rfl⟩ | ⟨e, hfailed, -⟩
    · obtain ⟨q, hwrite, -⟩ := goes_outcome.1 hsent
      obtain ⟨reply, hposted⟩ := writeWith_posts hwrite
      exact .inl ⟨token, reply, List.mem_append_right _ (List.mem_append_left _ hposted)⟩
    · obtain ⟨q, -, hq⟩ := goes_outcome.1 hfailed
      cases hq
  · exact .inr ⟨e, hfailed⟩

end Client

namespace Tables

open Client

def deletionParameters (t : Tables) (id : String) : Parameters :=
  if t.hardDelete then deletePageParameters (t.itemPageStart ++ id)
  else createClaimParameters id t.reserved.deleted.text (.string t.space.tag)

/-- What comes of a deletion by the answer to its edit. A page that is not there any more counts as deleted. -/
def discarded (t : Tables) (id : String) : Except Error Json → Except Error Unit
  | .ok _ => .ok ()
  | .error (.remoteWrite entity code info) =>
    if t.hardDelete ∧ code = "missingtitle" then .ok () else .error ((Error.remoteWrite entity code info).withEntity id)
  | .error e => .error (e.withEntity id)

variable {t : Tables} {id : String} {s s' : Session} {exchanged : List Exchange} {r : Except Error Unit}

theorem discard_eq (t : Tables) (id : String) :
    t.discard id = (t.client.write (t.deletionParameters id)).outcome >>= fun q => liftExcept (t.discarded id q) := by
  unfold discard deletionParameters
  cases hhard : t.hardDelete with
  | true =>
    simp only [if_true, deletePage, bind_assoc]
    refine congrArg ((t.client.write _).outcome >>= ·) (funext fun q => ?_)
    cases q with
    | ok body => rfl
    | error e =>
      cases e with
      | remoteWrite entity code info =>
        simp only [discarded, hhard, true_and]
        split <;> rfl
      | _ => rfl
  | false =>
    simp only [Bool.false_eq_true, if_false, createClaim, onEntity, bind_assoc]
    refine congrArg ((t.client.write _).outcome >>= ·) (funext fun q => ?_)
    cases q with
    | ok body => rfl
    | error e =>
      cases e with
      | remoteWrite entity code info =>
        simp only [discarded, hhard, Bool.false_eq_true, false_and, if_false]
        rfl
      | _ => rfl

/-- What is exchanged for the edit of a deletion, and what comes of it. -/
structure SendsDeletion (t : Tables) (id : String) (s : Session) (sent : List Exchange) (r : Except Error Unit) : Prop where
  written : ∃ answer s', (t.client.write (t.deletionParameters id)).Goes s sent answer s' ∧ r = t.discarded id answer
  requests : ∀ x ∈ sent, OpensSession x.request ∨ ∃ token, x.request = .post (signed token (t.deletionParameters id))
  posted : (∃ token reply, ⟨.post (signed token (t.deletionParameters id)), reply⟩ ∈ sent) ∨
    ∃ e s', t.client.ensureAuthenticated.Goes s sent (.error e) s'
  tagged : t.hardDelete = false →
    (r = .ok () ↔ Exchange.edits sent = [.addClaim id t.reserved.deleted (.string t.space.tag)])

theorem discard_writes (t : Tables) (id : String) (hsoft : t.hardDelete = false) :
    Writes (createClaimParameters id t.reserved.deleted.text (.string t.space.tag))
      (.addClaim id t.reserved.deleted (.string t.space.tag)) (t.discard id) := by
  have hread := (StoreEdit.ofParameters?_createClaim · id t.reserved.deleted (.string t.space.tag))
  rw [discard, hsoft]
  exact ((writes_onEntity hread t.client id).bind_pure _).bind_pure _

theorem edits_discard_iff (hsoft : t.hardDelete = false) (h : (t.discard id).Goes s exchanged r s') :
    r = .ok () ↔ Exchange.edits exchanged = [.addClaim id t.reserved.deleted (.string t.space.tag)] := by
  obtain ⟨body, hwrote, hok⟩ := discard_writes t id hsoft s exchanged r s' h
  rw [Exchange.edits, hwrote.accepted]
  cases r with
  | ok _ =>
    cases body with
    | some body => exact ⟨fun _ => rfl, fun _ => rfl⟩
    | none => cases hok
  | error e =>
    cases body with
    | some body => cases hok
    | none =>
      constructor
      · intro h
        cases h
      · intro h
        cases h

theorem sendsDeletion (h : (t.discard id).Goes s exchanged r s') : t.SendsDeletion id s exchanged r := by
  have hsends : (t.client.write (t.deletionParameters id)).Sends fun r =>
      OpensSession r ∨ ∃ token, r = .post (signed token (t.deletionParameters id)) :=
    sends_write (fun _ h => .inl h) (fun token => .inr ⟨token, rfl⟩) t.client
  have hedit := discard_eq t id ▸ h
  rcases Client.Action.goes_bind.1 hedit with ⟨q, s₁, first, rest, hfirst, hrest, rfl⟩ | ⟨e, hfailed, -⟩
  · obtain ⟨answer, hwrite, hq⟩ := Client.Action.goes_outcome.1 hfirst
    obtain rfl := Except.ok.inj hq
    obtain ⟨rfl, hr, -⟩ := Client.Action.goes_liftExcept.1 hrest
    rw [List.append_nil] at h ⊢
    exact ⟨⟨q, s₁, hwrite, hr⟩, hsends.goes hwrite, (write_posts hwrite).imp_right fun ⟨e, he⟩ => ⟨e, s₁, he⟩,
      fun hsoft => edits_discard_iff hsoft h⟩
  · obtain ⟨q, -, hq⟩ := Client.Action.goes_outcome.1 hfailed
    cases hq

end Tables

end ClaimTables
