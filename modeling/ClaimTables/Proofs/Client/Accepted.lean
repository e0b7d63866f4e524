import ClaimTables.Proofs.Client.Storing
import ClaimTables.Proofs.Exchange.Paths

/-!
The edits that the store has accepted. An exchange is of one if an edit was posted and the answer reports no error. Of
all that a client exchanges for one edit one exchange at most is of this kind, and the client succeeds exactly if one is.
-/

namespace ClaimTables

namespace Exchange

def accepted? : Exchange → Option (StoreEdit × Json)
  | ⟨.post ps, .ok body⟩ =>
    if ApiError.ofJson? body = none then (StoreEdit.ofParameters? ps).map fun edit => (edit, body) else none
  | _ => none

def edits (exchanged : List Exchange) : List StoreEdit :=
  (exchanged.filterMap accepted?).map (·.1)

theorem edits_append (first rest : List Exchange) : edits (first ++ rest) = edits first ++ edits rest := by
  rw [edits, List.filterMap_append, List.map_append]
  rfl

theorem edits_eq_nil {exchanged : List Exchange} : edits exchanged = [] ↔ ∀ x ∈ exchanged, x.accepted? = none := by
  rw [edits, List.map_eq_nil_iff, List.filterMap_eq_nil_iff]

end Exchange

namespace Client

open Client.Action

variable {s s' : Session} {exchanged : List Exchange}

theorem accepted?_opensSession {x : Exchange} (h : OpensSession x.request) : x.accepted? = none := by
  obtain ⟨r, reply⟩ := x
  cases h with
  | token kind => rfl
  | logIn c token =>
    cases reply with
    | error e => rfl
    | ok body =>
      have hnone : StoreEdit.ofParameters? (.ofTexts [("action", "login"), ("lgname", c.username),
        ("lgpassword", c.password), ("lgtoken", token)]) = none := rfl
      simp [Exchange.accepted?, hnone]

theorem sendAgain_goes {r : Request} {left attempt : Nat} {answer : Except Error r.Reply}
    (h : (sendAgain r left attempt).Goes exchanged answer) :
    ∃ before, exchanged = (before ++ [answer]).map (Exchange.mk r) ∧ ∀ reply ∈ before, putsOff r reply = true := by
  have hensures : (sendAgain r left attempt).Ensures World.noting [] fun answer trace =>
      ∃ before, trace = (before ++ [answer]).map (Exchange.mk r) ∧ ∀ reply ∈ before, putsOff r reply = true := by
    refine sendAgain_rule (I := fun trace => ∃ before, trace = before.map (Exchange.mk r) ∧
      ∀ reply ∈ before, putsOff r reply = true) ?_ ?_ ?_ left attempt ⟨[], rfl, by simp⟩
    · rintro _ answer _ ⟨before, rfl, hbefore⟩ rfl hoff
      refine ⟨before ++ [answer], by simp, fun reply hreply => ?_⟩
      rcases List.mem_append.1 hreply with hreply | hreply
      · exact hbefore reply hreply
      · exact List.mem_singleton.1 hreply ▸ hoff
    · rintro _ _ _ _ hbefore rfl
      exact hbefore
    · rintro _ answer _ ⟨before, rfl, hbefore⟩ rfl
      exact ⟨before, by simp, hbefore⟩
  exact hensures.goes h

/-- Whatever puts an edit off is an error, so only the last sending of an edit can have been accepted. -/
theorem accepted?_sendAgain {ps : Parameters} {left attempt : Nat} {answer : Except Error Json}
    (h : (sendAgain (.post ps) left attempt).Goes exchanged answer) :
    exchanged.filterMap Exchange.accepted? = (Exchange.accepted? ⟨.post ps, answer⟩).toList := by
  have hputsOff {reply : Except Error Json} (hoff : putsOff (.post ps) reply = true) :
      Exchange.accepted? ⟨.post ps, reply⟩ = none := by
    cases reply with
    | error e => rfl
    | ok body =>
      simp only [putsOff, ApiError.isTransient] at hoff
      split at hoff
      · next e he => simp [Exchange.accepted?, he]
      · exact Bool.noConfusion hoff
  obtain ⟨before, rfl, hbefore⟩ := sendAgain_goes h
  have hnothing : (before.map (Exchange.mk (.post ps))).filterMap Exchange.accepted? = [] := by
    refine List.filterMap_eq_nil_iff.2 fun x hx => ?_
    obtain ⟨reply, hreply, rfl⟩ := List.mem_map.1 hx
    exact hputsOff (hbefore reply hreply)
  rw [List.map_append, List.filterMap_append, hnothing, List.nil_append, List.map_singleton, List.filterMap_cons,
    List.filterMap_nil]
  cases Exchange.accepted? ⟨.post ps, answer⟩ <;> rfl

/--
What is exchanged for an edit: sessions are opened and the edit is sent, and it was accepted once, with this answer, or
not at all.
-/
structure Wrote (ps : Parameters) (edit : StoreEdit) (exchanged : List Exchange) (answer : Option Json) : Prop where
  requests : ∀ x ∈ exchanged, OpensSession x.request ∨ ∃ token, x.request = .post (signed token ps)
  accepted : exchanged.filterMap Exchange.accepted? = (answer.map fun body => (edit, body)).toList

variable {ps : Parameters} {edit : StoreEdit} {answer : Option Json}

theorem wrote_opensSession (ps : Parameters) (edit : StoreEdit) (h : ∀ x ∈ exchanged, OpensSession x.request) :
    Wrote ps edit exchanged none :=
  ⟨fun x hx => .inl (h x hx), List.filterMap_eq_nil_iff.2 fun x hx => accepted?_opensSession (h x hx)⟩

theorem Wrote.append {first : List Exchange} (h : Wrote ps edit first none) (h' : Wrote ps edit exchanged answer) :
    Wrote ps edit (first ++ exchanged) answer := by
  refine ⟨fun x hx => ?_, by rw [List.filterMap_append, h.accepted, h'.accepted]; rfl⟩
  rcases List.mem_append.1 hx with hx | hx
  · exact h.requests x hx
  · exact h'.requests x hx

variable {c : Client} {token : Token} {r : Except Error Json}

section Edits

variable (hps : ∀ token, StoreEdit.ofParameters? (signed token ps) = some edit)

include hps

theorem writeWith_wrote (h : (c.writeWith token ps).Goes s exchanged r s') : Wrote ps edit exchanged r.toOption := by
  have hsent {sent : List Exchange} {reply : Except Error Json} {s₁ : Session} {answer : Option Json}
      (hgoes : (c.request (.post (signed token ps))).Goes s sent reply s₁)
      (hlast : Exchange.accepted? ⟨.post (signed token ps), reply⟩ = answer.map fun body => (edit, body)) :
      Wrote ps edit sent answer := by
    have hgoes := (goes_ofDialogue.1 hgoes).1
    refine ⟨fun x hx => ?_, by rw [accepted?_sendAgain hgoes, hlast]⟩
    obtain ⟨before, rfl, -⟩ := sendAgain_goes hgoes
    obtain ⟨reply, -, rfl⟩ := List.mem_map.1 hx
    exact .inr ⟨token, rfl⟩
  rcases goes_bind.1 h with ⟨body, s₁, first, rest, hfirst, hrest, rfl⟩ | ⟨e, hfailed, rfl⟩
  · split at hrest
    · next e he =>
      obtain ⟨rfl, rfl, -⟩ := goes_throw.1 hrest
      rw [List.append_nil]
      exact hsent hfirst (by simp [Exchange.accepted?, he, Except.toOption])
    · next he =>
      obtain ⟨rfl, rfl, -⟩ := goes_pure.1 hrest
      rw [List.append_nil]
      exact hsent hfirst (by simp [Exchange.accepted?, he, hps token, Except.toOption])
  · exact hsent hfailed rfl

theorem outcome_wrote {f : Except Error Json → Action Json} (hok : ∀ body, f (.ok body) = pure body)
    (herror : ∀ {e s first r}, (f (.error e)).Goes s first r s' → Wrote ps edit first r.toOption)
    (h : ((c.writeWith token ps).outcome >>= f).Goes s exchanged r s') : Wrote ps edit exchanged r.toOption := by
  rcases goes_bind.1 h with ⟨q, s₁, first, rest, hfirst, hrest, rfl⟩ | ⟨e, hfailed, rfl⟩
  · obtain ⟨q, hfirst, hq⟩ := goes_outcome.1 hfirst
    obtain rfl := Except.ok.inj hq
    have hwrote := writeWith_wrote hps hfirst
    cases q with
    | ok body =>
      rw [hok] at hrest
      obtain ⟨rfl, rfl, -⟩ := goes_pure.1 hrest
      rw [List.append_nil]
      exact hwrote
    | error e => exact hwrote.append (herror hrest)
  · obtain ⟨q, -, hq⟩ := goes_outcome.1 hfailed
    cases hq

theorem writeAnew_wrote (h : (c.writeAnew token ps).Goes s exchanged r s') : Wrote ps edit exchanged r.toOption := by
  have hthrown {e : Error} {first : List Exchange} {s₁ : Session} {r : Except Error Json}
      (h : (throw e : Action Json).Goes s₁ first r s') : Wrote ps edit first r.toOption := by
    obtain ⟨rfl, rfl, -⟩ := goes_throw.1 h
    exact wrote_opensSession ps edit (List.forall_mem_nil _)
  rcases goes_bind.1 h with ⟨anew, s₁, first, rest, hfirst, hrest, rfl⟩ | ⟨e, hfailed, rfl⟩
  · refine (wrote_opensSession ps edit ((sends_refresh (fun _ h => h) c token).goes hfirst)).append ?_
    refine outcome_wrote hps (fun _ => rfl) (fun {e _ _ _} h => ?_) hrest
    dsimp only at h
    split at h
    · rcases goes_bind.1 h with ⟨_, s₂, first, rest, hfirst, hrest, rfl⟩ | ⟨e', hfailed, rfl⟩
      · obtain ⟨rfl, -⟩ := goes_pure.1 hfirst
        exact hthrown hrest
      · obtain ⟨-, he, -⟩ := goes_pure.1 hfailed
        cases he
    · exact hthrown h
  · exact wrote_opensSession ps edit ((sends_refresh (fun _ h => h) c token).goes hfailed)

theorem write_wrote (h : (c.write ps).Goes s exchanged r s') : Wrote ps edit exchanged r.toOption := by
  rcases goes_bind.1 h with ⟨token, s₁, first, rest, hfirst, hrest, rfl⟩ | ⟨e, hfailed, rfl⟩
  · refine (wrote_opensSession ps edit ((sends_ensureAuthenticated (fun _ h => h) c).goes hfirst)).append ?_
    refine outcome_wrote hps (fun _ => rfl) (fun {e _ _ _} h => ?_) hrest
    dsimp only at h
    split at h
    · exact writeAnew_wrote hps h
    · obtain ⟨rfl, rfl, -⟩ := goes_throw.1 h
      exact wrote_opensSession ps edit (List.forall_mem_nil _)
  · exact wrote_opensSession ps edit ((sends_ensureAuthenticated (fun _ h => h) c).goes hfailed)

def Writes {α : Type} (ps : Parameters) (edit : StoreEdit) (x : Action α) : Prop :=
  ∀ s exchanged r s', x.Goes s exchanged r s' → ∃ answer, Wrote ps edit exchanged answer ∧ r.isOk = answer.isSome

omit hps in
theorem Writes.bind_pure {α β : Type} {x : Action α} (hx : Writes ps edit x) (f : α → β) :
    Writes ps edit (x >>= fun a => pure (f a)) := by
  intro s exchanged r s' h
  rcases goes_bind.1 h with ⟨a, s₁, first, rest, hfirst, hrest, rfl⟩ | ⟨e, hfailed, rfl⟩
  · obtain ⟨rfl, rfl, rfl⟩ := goes_pure.1 hrest
    rw [List.append_nil]
    exact hx s first (.ok a) s' hfirst
  · exact hx s exchanged (.error e) s' hfailed

theorem writes_onEntity (c : Client) (id : String) : Writes ps edit (onEntity id (c.write ps)) := by
  intro s exchanged r s' h
  rcases goes_bind.1 h with ⟨q, s₁, first, rest, hfirst, hrest, rfl⟩ | ⟨e, hfailed, rfl⟩
  · obtain ⟨q, hfirst, hq⟩ := goes_outcome.1 hfirst
    obtain rfl := Except.ok.inj hq
    refine ⟨q.toOption, ?_⟩
    cases q with
    | ok body =>
      obtain ⟨rfl, rfl, -⟩ := goes_pure.1 hrest
      rw [List.append_nil]
      exact ⟨write_wrote hps hfirst, rfl⟩
    | error e =>
      obtain ⟨rfl, rfl, -⟩ := goes_throw.1 hrest
      rw [List.append_nil]
      exact ⟨write_wrote hps hfirst, rfl⟩
  · obtain ⟨q, -, hq⟩ := goes_outcome.1 hfailed
    cases hq

end Edits

theorem createEntity_wrote {kind : EntityKind} {data : Json} {r : Except Error String}
    (h : (c.createEntity kind data).Goes s exchanged r s') :
    ∃ answer, Wrote (createEntityParameters kind data) (.make kind.name data) exchanged answer ∧
      r.toOption = answer.bind (textAt ["entity", "id"]) := by
  have hps := (StoreEdit.ofParameters?_createEntity · kind data)
  rcases goes_bind.1 h with ⟨body, s₁, first, rest, hfirst, hrest, rfl⟩ | ⟨e, hfailed, rfl⟩
  · refine ⟨some body, ?_⟩
    split at hrest
    · next id hid =>
      obtain ⟨rfl, rfl, -⟩ := goes_pure.1 hrest
      rw [List.append_nil]
      exact ⟨write_wrote hps hfirst, hid.symm⟩
    · next hid =>
      obtain ⟨rfl, rfl, -⟩ := goes_throw.1 hrest
      rw [List.append_nil]
      exact ⟨write_wrote hps hfirst, hid.symm⟩
  · exact ⟨none, write_wrote hps hfailed, rfl⟩

end Client

end ClaimTables
