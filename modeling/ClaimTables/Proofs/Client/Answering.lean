import ClaimTables.Proofs.Client.Storing
import ClaimTables.Proofs.Exchange.Asking
import ClaimTables.Proofs.Tables.Guard

/-!
A store whose query service gives each text one answer, if it gives any. What a client asks of it is answered from the
store as it is, unless the exchange fails.
-/

namespace ClaimTables

/-- The world of a store that applies edits or does not, with a query service that keeps to its answers. -/
def World.answering (registered : String → PropertyId) (answers : String → Sparql.Solutions) : World Store
  | w, .send (.query text), answer, w' => w' = w ∧ ∀ found, answer = .ok found → found = answers text
  | w, e, answer, w' => World.storing registered w e answer w'

namespace Client

open Client.Action Tables

variable {registered : String → PropertyId} {answers : String → Sparql.Solutions} {s : Session} {w : Store}
  {trace : List Exchange} {P : Request → Prop}

theorem still_answering (registered : String → PropertyId) (answers : String → Sparql.Solutions) :
    (World.answering registered answers).Still := by
  intro w e answer hnote
  cases e with
  | send r => cases hnote
  | wait _ | clock | freshName => rfl

theorem storing_of_answering (v : Store) (e : Effect) (answer : e.Answer) (v' : Store)
    (h : World.answering registered answers v e answer v') : World.storing registered v e answer v' := by
  cases e with
  | send r =>
    cases r with
    | query text => exact h.1
    | get _ | post _ => exact h
  | wait _ | clock | freshName => exact h

theorem Action.Ensures.answering {α : Type} {x : Action α} {post : Except Error α → Session → Store → Prop}
    (h : x.Ensures (.storing registered) s w post) : x.Ensures (.answering registered answers) s w post :=
  Dialogue.Ensures.restrict h storing_of_answering

theorem request_noted {W : Type} {world : World W} (c : Client) {r : Request}
    (hstays : ∀ v answer v', world v (.send r) answer v' → v' = v)
    (hwaits : ∀ v milliseconds answer v', world v (.wait milliseconds) answer v' → v' = v) (s : Session) (w : W)
    (trace : List Exchange) :
    (c.request r).Ensures world.noted s (w, trace) fun answer _ later =>
      (later.1 = w ∧ world w (.send r) answer w) ∧
        ∃ more, later.2 = trace ++ more ∧ (∀ x ∈ more, x.request = r) ∧ ⟨r, answer⟩ ∈ more := by
  refine ensures_ofDialogue.2 (sendAgain_rule (I := fun v : W × List Exchange =>
    v.1 = w ∧ ∃ more, v.2 = trace ++ more ∧ ∀ x ∈ more, x.request = r) ?_ ?_ ?_ _ 0 ⟨rfl, [], by simp, by simp⟩)
  · rintro ⟨_, _⟩ answer ⟨w', _⟩ ⟨rfl, more, rfl, hmore⟩ ⟨hstep, rfl⟩ -
    refine ⟨hstays _ _ _ hstep, more ++ [⟨r, answer⟩], List.append_assoc _ _ _, fun x hx => ?_⟩
    rcases List.mem_append.1 hx with hx | hx
    · exact hmore x hx
    · rw [List.mem_singleton.1 hx]
  · rintro ⟨_, _⟩ milliseconds answer ⟨w', _⟩ ⟨rfl, more, rfl, hmore⟩ ⟨hstep, rfl⟩
    exact ⟨hwaits _ _ _ _ hstep, more, List.append_nil _, hmore⟩
  · rintro ⟨_, _⟩ answer ⟨w', _⟩ ⟨rfl, more, rfl, hmore⟩ ⟨hstep, rfl⟩
    obtain rfl := hstays _ _ _ hstep
    refine ⟨⟨rfl, hstep⟩, more ++ [⟨r, answer⟩], List.append_assoc _ _ _, fun x hx => ?_, by simp⟩
    rcases List.mem_append.1 hx with hx | hx
    · exact hmore x hx
    · rw [List.mem_singleton.1 hx]

theorem query_asked (c : Client) {text : String} (hP : P (.query text)) :
    (c.query text).Ensures (World.answering registered answers).noted s (w, trace) fun r _ later =>
      Asked P w trace (· = answers text) r later := by
  refine Ensures.mono (request_noted c (r := .query text) ?_ ?_ s w trace) ?_
  · exact fun v answer v' h => h.1
  · exact fun v milliseconds answer v' h => h
  rintro answer s' ⟨_, later⟩ ⟨⟨rfl, -, hanswer⟩, more, rfl, hmore, hlast⟩
  refine ⟨rfl, more, rfl, fun x hx => hmore x hx ▸ hP, ?_⟩
  cases answer with
  | ok found => exact .inl ⟨found, rfl, hanswer found rfl⟩
  | error e => exact .inr ⟨e, rfl, _, hlast, Exchange.fails_error e⟩

theorem read_asked (c : Client) {ps : Parameters} (hP : P (.get ps)) :
    (c.read ps).Ensures (World.answering registered answers).noted s (w, trace) fun r _ later =>
      Asked P w trace (w.Tells registered ps) r later := by
  refine Ensures.bind (request_noted c (r := .get ps) ?_ ?_ s w trace) ?_ ?_
  · exact fun v answer v' h => h.1
  · exact fun v milliseconds answer v' h => h
  · rintro body s' ⟨_, later⟩ ⟨⟨rfl, -, htold⟩, more, rfl, hmore, hlast⟩
    have hrequests : ∀ x ∈ more, P x.request := fun x hx => hmore x hx ▸ hP
    cases he : ApiError.ofJson? body with
    | some e =>
      have hfails : Exchange.Fails ⟨.get ps, .ok body⟩ := by simp [Exchange.Fails, he]
      exact ⟨rfl, more, rfl, hrequests, .inr ⟨_, rfl, _, hlast, hfails⟩⟩
    | none => exact ⟨rfl, more, rfl, hrequests, .inl ⟨body, rfl, htold body rfl he⟩⟩
  · rintro e s' ⟨_, later⟩ ⟨⟨rfl, -⟩, more, rfl, hmore, hlast⟩
    exact ⟨rfl, more, rfl, fun x hx => hmore x hx ▸ hP, .inr ⟨e, rfl, _, hlast, Exchange.fails_error e⟩⟩

def present (id : String) : Option ClaimSet → Except Error ClaimSet
  | some claims => .ok claims
  | none => .error (absent id "entity does not exist")

theorem getClaims_asked (c : Client) {id : String} (hid : id ∈ w.ids) (hP : P (.get (claimsParameters id))) :
    (c.getClaims id).Ensures (World.answering registered answers).noted s (w, trace) fun r _ later =>
      Asked P w trace (fun claims => ∀ p, claims.get p = w.claimsOf id p) (r.bind (present id)) later := by
  rw [getClaims, ensures_bind, ensures_outcome]
  refine (read_asked c hP).mono fun r s' later h => ?_
  cases r with
  | ok body =>
    have hdocument := Store.claimsIn_document (h.expected_of_ok.entity rfl id rfl)
    -- The entity is there, so its document is not one that says it is missing.
    cases hread : claimsIn id body with
    | none =>
      rw [hread] at hdocument
      exact absurd hid hdocument
    | some claims =>
      rw [hread] at hdocument
      obtain ⟨hsame, more, hlater, hmore, -⟩ := h
      refine ⟨hsame, more, hlater, hmore, .inl ⟨claims, ?_, hdocument.2⟩⟩
      dsimp only
      rw [hread]
      rfl
  | error e =>
    cases e with
    | api action code info =>
      dsimp only
      split
      · obtain ⟨hsame, more, hlater, hmore, ⟨a, ha, -⟩ | ⟨e, -, hfailed⟩⟩ := h
        · cases ha
        · exact ⟨hsame, more, hlater, hmore, .inr ⟨_, rfl, hfailed⟩⟩
      · exact h.of_error
    | _ => exact h.of_error

end Client

end ClaimTables
