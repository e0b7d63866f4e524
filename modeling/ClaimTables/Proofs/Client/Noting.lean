import ClaimTables.Proofs.Client.Sending
import ClaimTables.Proofs.Exchange.Order

/-!
What the notes show of a result. Whatever a client is told was said in an exchange, and before an entity is made for a
label it was looked up, and no hit was the label itself.
-/

namespace ClaimTables.Client

open Client.Action

variable {s : Session} {trace : List Exchange}

theorem answer_noted (c : Client) (r : Request) (s : Session) (trace : List Exchange) :
    (c.request r).Ensures World.noting s trace fun answer _ later => ⟨r, answer⟩ ∈ later := by
  refine ensures_ofDialogue.2 (sendAgain_rule (I := fun _ => True) (by simp) (by simp) ?_ _ 0 trivial)
  rintro v answer _ - rfl
  simp

theorem read_noted (c : Client) (ps : Parameters) (s : Session) (trace : List Exchange) :
    (c.read ps).Ensures World.noting s trace fun r _ later =>
      ∀ body, r = .ok body → ApiError.ofJson? body = none ∧ ⟨.get ps, .ok body⟩ ∈ later := by
  refine (answer_noted c (.get ps) s trace).bind (fun body s' later h => ?_) fun e s' later h => by simp
  cases he : ApiError.ofJson? body with
  | some e => simp [ensures_throw]
  | none =>
    refine fun body' hbody => ?_
    obtain rfl := Except.ok.inj hbody
    exact ⟨he, h⟩

def Searched (c : Client) (label : String) (kind : EntityKind) (hits : List String) (trace : List Exchange) : Prop :=
  ∃ body, ⟨.get (c.searchParameters label kind), .ok body⟩ ∈ trace ∧ ApiError.ofJson? body = none ∧
    exactHits label body = hits

theorem Searched.mono {c : Client} {label : String} {kind : EntityKind} {hits : List String} {later : List Exchange}
    (h : c.Searched label kind hits trace) (hstart : trace <+: later) : c.Searched label kind hits later :=
  h.imp fun _ h => ⟨hstart.subset h.1, h.2⟩

theorem searchExact_noted (c : Client) (label : String) (kind : EntityKind) (s : Session) (trace : List Exchange) :
    (c.searchExact label kind).Ensures World.noting s trace fun r _ later =>
      ∀ hits, r = .ok hits → c.Searched label kind hits later := by
  refine (read_noted c (c.searchParameters label kind) s trace).bind (fun body s' later h => ?_)
    fun e s' later h => by simp
  refine fun hits hhits => ⟨body, (h body rfl).2, (h body rfl).1, Except.ok.inj hhits⟩

def Told (ps : Parameters) (r : Except Error Json) (trace : List Exchange) : Prop :=
  ∀ body, r = .ok body → ApiError.ofJson? body = none ∧ ∃ token, ⟨.post (signed token ps), .ok body⟩ ∈ trace

theorem told_error (ps : Parameters) (e : Error) (trace : List Exchange) : Told ps (.error e) trace := nofun

theorem writeWith_noted (c : Client) (token : Token) (ps : Parameters) (s : Session) (trace : List Exchange) :
    (c.writeWith token ps).Ensures World.noting s trace fun r _ later => Told ps r later := by
  refine (answer_noted c (.post (signed token ps)) s trace).bind (fun body s' later h => ?_) fun e _ _ _ => told_error ps e _
  cases he : ApiError.ofJson? body with
  | some e => exact told_error ps _ _
  | none =>
    refine fun body' hbody => ?_
    obtain rfl := Except.ok.inj hbody
    exact ⟨he, token, h⟩

theorem write_noted (c : Client) (ps : Parameters) (s : Session) (trace : List Exchange) :
    (c.write ps).Ensures World.noting s trace fun r _ later => Told ps r later := by
  -- What opens a session may do anything to the trace: what is told is told of the write behind it.
  have hanything : ∀ (x : Action Token) (s : Session) (trace : List Exchange),
      x.Ensures World.noting s trace fun _ _ _ => True := fun _ _ trace => Dialogue.ensures_true _ trace
  have hsent : ∀ (token : Token) {f : Except Error Json → Action Json}, (∀ body, f (.ok body) = pure body) →
      (∀ e s trace, (f (.error e)).Ensures World.noting s trace fun r _ later => Told ps r later) → ∀ s trace,
      ((c.writeWith token ps).outcome >>= f).Ensures World.noting s trace fun r _ later => Told ps r later := by
    intro token f hok herror s trace
    rw [ensures_bind, ensures_outcome]
    refine (writeWith_noted c token ps s trace).mono fun r s' later h => ?_
    cases r with
    | ok body =>
      dsimp only
      rw [hok]
      exact h
    | error e => exact herror e s' later
  refine (hanything c.ensureAuthenticated s trace).bind (fun token s' trace' _ => ?_) fun e _ _ _ => told_error ps e _
  refine hsent token (fun _ => rfl) (fun e s trace => ?_) s' trace'
  dsimp only
  split
  · refine (hanything (c.refresh token) s trace).bind (fun token s' trace' _ => ?_) fun e _ _ _ => told_error ps e _
    refine hsent token (fun _ => rfl) (fun e s trace => ?_) s' trace'
    dsimp only
    split
    · exact told_error ps _ _
    · exact told_error ps _ _
  · exact told_error ps _ _

def WasMade (kind : EntityKind) (data : Json) (id : String) (trace : List Exchange) : Prop :=
  ∃ token body, ⟨.post (signed token (createEntityParameters kind data)), .ok body⟩ ∈ trace ∧
    ApiError.ofJson? body = none ∧ textAt ["entity", "id"] body = some id

theorem WasMade.mono {kind : EntityKind} {data : Json} {id : String} {later : List Exchange}
    (h : WasMade kind data id trace) (hstart : trace <+: later) : WasMade kind data id later := by
  obtain ⟨token, body, hmem, hbody⟩ := h
  exact ⟨token, body, hstart.subset hmem, hbody⟩

theorem createEntity_noted (c : Client) (kind : EntityKind) (data : Json) (s : Session) (trace : List Exchange) :
    (c.createEntity kind data).Ensures World.noting s trace fun r _ later =>
      ∀ id, r = .ok id → WasMade kind data id later := by
  refine (write_noted c _ s trace).bind (fun body s' later h => ?_) fun e _ _ _ => by simp
  obtain ⟨he, token, hmem⟩ := h body rfl
  split
  · next id hid =>
    refine fun id' hsame => ?_
    obtain rfl := Except.ok.inj hsame
    exact ⟨token, body, hmem, he, hid⟩
  · exact fun _ h => nomatch h

theorem findItem_noted (c : Client) (label model : String) (s : Session) (trace : List Exchange) :
    (c.findItem label model).Ensures World.noting s trace fun r _ later =>
      (r = .ok none → c.Searched label .item [] later) ∧
        ∀ i, r = .ok (some i) → ∃ id, c.Searched label .item [id] later ∧ ItemId.ofText? id = some i := by
  refine (searchExact_noted c label .item s trace).bind (fun hits s' later h => ?_) fun e _ _ _ => by simp
  have hhits := h hits rfl
  split
  · exact ⟨fun _ => hhits, by simp⟩
  · next id =>
    unfold readItem
    split
    · next i hi =>
      refine ⟨by simp, fun j hj => ⟨id, hhits, ?_⟩⟩
      obtain rfl := Option.some.inj (Except.ok.inj hj)
      exact hi
    · exact ⟨by simp, by simp⟩
  · exact ⟨by simp, by simp⟩

section Missing

variable {P : List Exchange → Exchange → Prop}

def Makes (kind : EntityKind) (data : Json) (r : Request) : Prop :=
  OpensSession r ∨ ∃ token, r = .post (signed token (createEntityParameters kind data))

theorem sends_makes (c : Client) (kind : EntityKind) (data : Json) : (c.createEntity kind data).Sends (Makes kind data) :=
  sends_createEntity c (fun _ h => .inl h) fun token => .inr ⟨token, rfl⟩

/-- A relation that holds of looking up a label, and of making an entity of this data after no hit was the label. -/
structure Follows (c : Client) (P : List Exchange → Exchange → Prop) (trace : List Exchange) (label : String)
    (kind : EntityKind) (data : Json) : Prop where
  search : ∀ before, trace <+: before → ∀ x : Exchange, x.request = .get (c.searchParameters label kind) → P before x
  make : ∀ before, trace <+: before → c.Searched label kind [] before → ∀ x : Exchange, Makes kind data x.request →
    P before x

theorem property_inOrder {c : Client} {label datatype : String}
    (hP : c.Follows P trace label .property (c.propertyData label datatype)) (h : InOrder P trace) (model : String)
    (s : Session) : (c.property label datatype model).Ensures World.noting s trace fun _ _ later => InOrder P later := by
  have hsearch := (sends_searchExact c (P := (· = .get (c.searchParameters label .property))) rfl).inOrder s h hP.search
  refine (hsearch.and (searchExact_noted c label .property s trace)).bind (fun hits s' later h' => ?_) fun e _ _ h' => h'.1.2
  obtain ⟨⟨hstart, horder⟩, hhits⟩ := h'
  split
  · refine ((sends_makes c .property _).inOrder s' horder fun before hbefore x hx => ?_).bind
      (fun id s'' later' h'' => ensures_liftExcept.2 h''.2) fun e _ _ h'' => h''.2
    exact hP.make before (hstart.trans hbefore) ((hhits [] rfl).mono hbefore) x hx
  · exact ensures_liftExcept.2 horder
  · exact horder

end Missing

end ClaimTables.Client
