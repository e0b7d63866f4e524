import ClaimTables.Proofs.Client.Storing
import ClaimTables.Proofs.Service.Directory

/-!
What a client finds by labels. A label that a property or an item of a model is looked up by has one entity afterwards,
which is the one that is given: it was there before, or there was none and it was made.
-/

namespace ClaimTables.Client

open Directory

variable {s : Session} {d : Directory}

theorem searchExact_ensures (c : Client) (label : String) (kind : EntityKind) (s : Session) (d : Directory) :
    (c.searchExact label kind).Ensures .labelling s d fun r _ d' =>
      d' = d ∧ ∀ ids, r = .ok ids → ids.Perm ((d.carriers c.language kind label).map (·.id.text)) := by
  have hrequest : (c.request (.get (c.searchParameters label kind))).Ensures .labelling s d fun answer _ d' =>
      World.labelling d (.send (.get (c.searchParameters label kind))) answer d' :=
    request_ensures c (fun _ _ _ h _ => h.1) (fun _ _ _ _ h => h) s d
  have hread : (c.read (c.searchParameters label kind)).Ensures .labelling s d fun r _ d' => d' = d ∧
      ∀ body, r = .ok body → ∃ shown, d.Finds c.language label kind shown (body.get "search").items := by
    refine hrequest.bind (fun body s' d' h => ?_) fun e s' d' h => ⟨h.1, by simp⟩
    cases he : ApiError.ofJson? body with
    | some e => exact ⟨h.1, by simp⟩
    | none =>
      refine ⟨h.1, fun body' hbody => ?_⟩
      obtain rfl := Except.ok.inj hbody
      exact h.2 body rfl he rfl c.language label kind rfl rfl rfl
  refine hread.bind (fun body s' d' h => ⟨h.1, fun ids hids => ?_⟩) fun e s' d' h => ⟨h.1, by simp⟩
  obtain rfl := Except.ok.inj hids
  obtain ⟨shown, hfinds⟩ := h.2 body rfl
  exact hfinds.exactHits

theorem keeps_read_labelling {I : Directory → Prop} (c : Client) (ps : Parameters) :
    Keeps .labelling I (c.read ps) := by
  intro s d hd
  have hrequest : (c.request (.get ps)).Ensures .labelling s d fun answer _ d' =>
      World.labelling d (.send (.get ps)) answer d' :=
    request_ensures c (fun _ _ _ h _ => h.1) (fun _ _ _ _ h => h) s d
  refine hrequest.bind (fun body s' d' h => ?_) fun e s' d' h => h.1 ▸ hd
  split
  · exact h.1 ▸ hd
  · exact h.1 ▸ hd

theorem keeps_query_labelling {I : Directory → Prop} (c : Client) (text : String) :
    Keeps .labelling I (c.query text) := by
  intro s d hd
  have hrequest : (c.request (.query text)).Ensures .labelling s d fun answer _ d' =>
      World.labelling d (.send (.query text)) answer d' :=
    request_ensures c (fun _ _ _ h _ => h) (fun _ _ _ _ h => h) s d
  have hsame : (c.query text).Ensures .labelling s d fun _ _ d' => d' = d := hrequest
  exact hsame.mono fun _ _ _ h => h ▸ hd

theorem labelling_edits (kind : EntityKind) (data : Json) :
    Edits .labelling (fun d d' body => ∃ id, d.Makes kind.name data d' body id) (createEntityParameters kind data) where
  taken _ _ _ _ h := h
  waits _ _ _ _ h := h
  undisturbed d := by
    refine ⟨?_, ?_⟩
    · rintro d now d' rfl rfl
      rfl
    · rintro r (kind | ⟨c, token⟩) d answer d' rfl h
      · exact h.1
      · exact h

theorem createEntity_labelling (c : Client) (kind : EntityKind) (data : Json) (s : Session) (d : Directory) :
    (c.createEntity kind data).Ensures .labelling s d fun r _ d' =>
      (d' = d ∧ ∃ e, r = .error e) ∨ ∃ id, id.kind = kind ∧ d'.entities = d.entities ++ [⟨id, data.get "labels"⟩] ∧
        ∀ given, r = .ok given → given = id.text := by
  refine (write_ensures (labelling_edits kind data) c s d).bind (fun body s' d' h => ?_) fun e s' d' h => ?_
  · cases h with
    | done step =>
      obtain ⟨id, hmakes⟩ := step
      rw [hmakes.told]
      exact .inr ⟨id, EntityKind.name_injective hmakes.kind, hmakes.entities, fun _ h => (Except.ok.inj h).symm⟩
  · cases h with
    | not => exact .inl ⟨rfl, e, rfl⟩
    | unknown e step =>
      obtain ⟨id, hmakes⟩ := step
      exact .inr ⟨id, EntityKind.name_injective hmakes.kind, hmakes.entities, by simp⟩

theorem createFirst_ensures (c : Client) {kind : EntityKind} {label : String} {data : Json}
    (hdata : data.get "labels" = Claim.labels c.language label) (s : Session)
    (hnone : d.carriers c.language kind label = []) :
    (c.createEntity kind data).Ensures .labelling s d fun r _ d' => d.Settles c.language kind label d' ∧
      ∀ given, r = .ok given → ∃ id, id.kind = kind ∧ given = id.text ∧ d'.Only c.language label id := by
  refine (createEntity_labelling c kind data s d).mono fun r s' d' h => ?_
  rcases h with ⟨rfl, e, rfl⟩ | ⟨id, rfl, hentities, hgiven⟩
  · exact ⟨.inl rfl, by simp⟩
  · have hlabel : Entity.label? c.language ⟨id, data.get "labels"⟩ = some label := Entity.label?_of_labels hdata
    exact ⟨.inr ⟨hnone, _, rfl, hlabel, hentities⟩,
      fun given h => ⟨id, rfl, hgiven given h, only_of_made hnone hlabel hentities⟩⟩

theorem only_of_hit {language label id : String} {kind : EntityKind}
    (h : [id].Perm ((d.carriers language kind label).map (·.id.text))) :
    ∃ entity : EntityId, entity.kind = kind ∧ id = entity.text ∧ d.Only language label entity := by
  have hsingle := List.perm_singleton.1 h.symm
  obtain ⟨e, hcarriers, rfl⟩ := List.map_eq_singleton_iff.1 hsingle
  exact ⟨e.id, (mem_carriers.1 (hcarriers ▸ List.mem_singleton_self e)).2.1, rfl, only_of_carriers hcarriers⟩

theorem property_labelling (c : Client) (label datatype model : String) (s : Session) (d : Directory) :
    (c.property label datatype model).Ensures .labelling s d fun r _ d' =>
      d.Settles c.language .property label d' ∧ ∀ p, r = .ok p → d'.Only c.language label (.property p) := by
  have hread : ∀ {d' : Directory} {given : String} {p : PropertyId},
      (∃ id : EntityId, id.kind = .property ∧ given = id.text ∧ d'.Only c.language label id) →
        readProperty model given = .ok p → d'.Only c.language label (.property p) := by
    rintro d' _ p ⟨id, hkind, rfl, honly⟩ hp
    unfold readProperty at hp
    split at hp
    · next q hq =>
      obtain rfl := Except.ok.inj hp
      exact EntityId.eq_property hkind hq ▸ honly
    · cases hp
  refine (searchExact_ensures c label .property s d).bind (fun ids s' d' h => ?_) fun e s' d' h => ⟨.inl h.1, by simp⟩
  obtain ⟨rfl, hids⟩ := h
  have hhits := hids ids rfl
  split
  · have hnone : d'.carriers c.language .property label = [] := List.map_eq_nil_iff.1 (List.nil_perm.1 hhits)
    have hdata : (c.propertyData label datatype).get "labels" = Claim.labels c.language label := by
      simp [propertyData, Json.get_ofEntries, List.lookup_cons]
    refine (createFirst_ensures c hdata s' hnone).bind (fun given s'' d'' h => ?_) fun e s'' d'' h => ⟨h.1, by simp⟩
    exact Action.ensures_liftExcept.2 ⟨h.1, fun p hp => hread (h.2 given rfl) hp⟩
  · exact Action.ensures_liftExcept.2 ⟨.inl rfl, fun p hp => hread (only_of_hit hhits) hp⟩
  · exact ⟨.inl rfl, by simp⟩

theorem findItem_labelling (c : Client) (label model : String) (s : Session) (d : Directory) :
    (c.findItem label model).Ensures .labelling s d fun r _ d' => d' = d ∧
      (r = .ok none → d.carriers c.language .item label = []) ∧
      ∀ i, r = .ok (some i) → d.Only c.language label (.item i) := by
  refine (searchExact_ensures c label .item s d).bind (fun ids s' d' h => ?_) fun e s' d' h => ⟨h.1, by simp, by simp⟩
  obtain ⟨rfl, hids⟩ := h
  have hhits := hids ids rfl
  split
  · exact ⟨rfl, fun _ => List.map_eq_nil_iff.1 (List.nil_perm.1 hhits), by simp⟩
  · next id =>
    obtain ⟨entity, hkind, rfl, honly⟩ := only_of_hit hhits
    unfold readItem
    split
    · next i hi => exact ⟨rfl, by simp, fun j hj => by
        obtain rfl := Option.some.inj (Except.ok.inj hj)
        exact EntityId.eq_item hkind hi ▸ honly⟩
    · exact ⟨rfl, by simp, by simp⟩
  · exact ⟨rfl, by simp, by simp⟩

end ClaimTables.Client
