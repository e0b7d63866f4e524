import ClaimTables.Claim.Edit
import ClaimTables.Client.Edits
import ClaimTables.Proofs.Exchange.Ensures
import ClaimTables.Proofs.Service.Export

/-!
A store that applies edits, or does not. An edit makes an entity with its claims, adds a claim to an entity, or
replaces or removes claims by their identifiers; it may be refused, and the answer to it may be lost whether it
was applied or not. Each label has one property, which the store finds or makes.
-/

namespace ClaimTables

structure PlacedClaim extends StoredClaim where
  entity : String
  property : PropertyId

/-- The entities by their identifiers, each with its labels, and the claims of all. -/
structure Store where
  entities : List (String × Json)
  claims : List PlacedClaim

inductive StoreEdit where
  | make (kind : String) (data : Json)
  | addClaim (entity : String) (property : PropertyId) (value : Json)
  | setValue (guid : String) (value : Json)
  | removeClaims (guids : List String)

namespace Parameters

def text? (name : String) (ps : Parameters) : Option String :=
  match ps.lookup name with
  | some (.text s) => some s
  | _ => none

def json? (name : String) (ps : Parameters) : Option Json :=
  match ps.lookup name with
  | some (.json document) => some document
  | _ => none

end Parameters

namespace StoreEdit

def ofParameters? (ps : Parameters) : Option StoreEdit :=
  match ps.text? "action" with
  | some "wbeditentity" => do
    let kind ← ps.text? "new"
    let data ← ps.json? "data"
    some (.make kind data)
  | some "wbcreateclaim" => do
    let entity ← ps.text? "entity"
    let property ← (ps.text? "property").bind PropertyId.ofText?
    let value ← ps.json? "value"
    some (.addClaim entity property value)
  | some "wbsetclaimvalue" => do
    let guid ← ps.text? "claim"
    let value ← ps.json? "value"
    some (.setValue guid value)
  | some "wbremoveclaims" => do
    let guids ← ps.text? "claim"
    some (.removeClaims ((guids.toList.splitOn '|').map String.ofList))
  | _ => none

end StoreEdit

namespace StoredClaim

def toJson (p : PropertyId) (c : StoredClaim) : Json :=
  let snak := match c.datavalue with
    | some d => [("snaktype", .string "value"), ("property", .string p.text), ("datavalue", d)]
    | none => [("snaktype", .string "novalue"), ("property", .string p.text)]
  .ofEntries [("id", .string c.guid), ("mainsnak", .ofEntries snak), ("type", .string "statement")]

end StoredClaim

/--
How an edit is answered, given what it may make of the world and be answered with if it is applied: it is refused or
applied, or its answer is lost and nobody knows.
-/
inductive Taken {W : Type} (step : W → Json → Prop) (w : W) : Except Error Json → W → Prop
  | applied {w' : W} {body : Json} (h : step w' body) (unreported : ApiError.ofJson? body = none) :
    Taken step w (.ok body) w'
  | refused {body : Json} {e : ApiError} (reported : ApiError.ofJson? body = some e) : Taken step w (.ok body) w
  | lost {w' : W} {body : Json} {e : Error} (h : step w' body)
    (onTheWay : ∀ entity code info, e ≠ .remoteWrite entity code info) : Taken step w (.error e) w'
  | unsent {e : Error} (onTheWay : ∀ entity code info, e ≠ .remoteWrite entity code info) : Taken step w (.error e) w

namespace Store

def ids (s : Store) : List String :=
  s.entities.map (·.1)

def guids (s : Store) : List String :=
  s.claims.map (·.guid)

def claimsOf (s : Store) (id : String) (p : PropertyId) : List StoredClaim :=
  (s.claims.filter fun c => c.entity = id && c.property = p).map (·.toStoredClaim)

def facts (s : Store) (id : String) : List (PropertyId × Json) :=
  (s.claims.filter (·.entity = id)).filterMap fun c => c.datavalue.map fun d => (c.property, d)

def valueType (value : Json) : String :=
  match value.text? with
  | some _ => "string"
  | none =>
    if (value.get? "amount").isSome then "quantity"
    else if (value.get? "time").isSome then "time" else "wikibase-entityid"

def stored (value : Json) : Json :=
  Claim.typed (valueType value) value

def withValue (guid : String) (value : Json) (c : PlacedClaim) : PlacedClaim :=
  if c.guid = guid then { c with datavalue := some (stored value) } else c

/-- Claims that get identifiers which no other claim has, and in which nothing separates. -/
structure Fresh (s : Store) (claims : List PlacedClaim) : Prop where
  nodup : (claims.map (·.guid)).Nodup
  unused : ∀ c ∈ claims, c.guid ∉ s.guids
  separable : ∀ c ∈ claims, '|' ∉ c.guid.toList

inductive Step (registered : String → PropertyId) (s : Store) : StoreEdit → Store → Json → Prop
  | make {kind id : String} {data body : Json} {claims : List PlacedClaim}
      (unused : id ∉ s.ids)
      (item : kind = "item" → ∃ i : ItemId, id = i.text)
      (property : kind = "property" → ∃ p : PropertyId, id = p.text ∧
        ∀ language label, data.get "labels" = Claim.labels language label → p = registered label)
      (fresh : s.Fresh claims)
      (placed : ∀ c ∈ claims, c.entity = id)
      (said : claims.map (fun c => (c.property, c.datavalue)) = (Export.facts data).map fun f => (f.1, some f.2))
      (told : Client.textAt ["entity", "id"] body = some id) :
      Step registered s (.make kind data) ⟨s.entities ++ [(id, data.get "labels")], s.claims ++ claims⟩ body
  | addClaim {id guid : String} {p : PropertyId} {value body : Json}
      (known : id ∈ s.ids)
      (fresh : s.Fresh [⟨⟨guid, some (stored value)⟩, id, p⟩]) :
      Step registered s (.addClaim id p value)
        { s with claims := s.claims ++ [⟨⟨guid, some (stored value)⟩, id, p⟩] } body
  | setValue {guid : String} {value body : Json} :
      Step registered s (.setValue guid value)
        { s with claims := s.claims.map (withValue guid value) } body
  | removeClaims {guids : List String} {body : Json} :
      Step registered s (.removeClaims guids)
        { s with claims := s.claims.filter fun c => c.guid ∉ guids } body

def document (s : Store) (id : String) : Json :=
  if id ∈ s.ids then
    .ofEntries [("id", .string id), ("claims", .ofEntries ((s.claims.filter (·.entity = id)).map fun c =>
      (c.property.text, .array ((s.claimsOf id c.property).map (StoredClaim.toJson c.property)))))]
  else .ofEntries [("id", .string id), ("missing", .string "")]

/-- A true answer to a question: an entity is shown as it is, and a label leads to its property or to none. -/
structure Tells (registered : String → PropertyId) (s : Store) (ps : Parameters) (body : Json) : Prop where
  entity : ps.text? "action" = some "wbgetentities" → ∀ id, ps.text? "ids" = some id →
    (body.get "entities").get id = s.document id
  label : ps.text? "action" = some "wbsearchentities" → ps.text? "type" = some "property" →
    ∀ label, ps.text? "search" = some label → ∀ hit ∈ (body.get "search").items,
      (hit.get "label").text? = some label → (hit.get "id").text? = some (registered label).text

end Store

def World.storing (registered : String → PropertyId) : World Store
  | s, .send (.post ps), answer, s' =>
    match StoreEdit.ofParameters? ps with
    | some edit => Taken (s.Step registered edit) s answer s'
    | none => s' = s
  | s, .send (.get ps), answer, s' =>
    s' = s ∧ ∀ body, answer = .ok body → ApiError.ofJson? body = none → s.Tells registered ps body
  | s, .send (.query _), _, s' => s' = s
  | s, .wait _, _, s' => s' = s
  | s, .clock, _, s' => s' = s
  | s, .freshName, _, s' => s' = s

namespace Store

/-- A store in order: claims are of entities that are there, and their identifiers tell them apart. -/
structure WellKept (s : Store) : Prop where
  placed : ∀ c ∈ s.claims, c.entity ∈ s.ids
  nodup : s.guids.Nodup
  separable : ∀ g ∈ s.guids, '|' ∉ g.toList

variable {registered : String → PropertyId} {s s' : Store} {edit : StoreEdit} {body : Json}

theorem guids_append (s : Store) (entities : List (String × Json)) (claims : List PlacedClaim) :
    guids ⟨entities, s.claims ++ claims⟩ = s.guids ++ claims.map (·.guid) :=
  List.map_append

theorem WellKept.append (hs : s.WellKept) {entities : List (String × Json)} {claims : List PlacedClaim}
    (hfresh : s.Fresh claims) (hids : ∀ id ∈ s.ids, id ∈ entities.map (·.1))
    (hplaced : ∀ c ∈ claims, c.entity ∈ entities.map (·.1)) : WellKept ⟨entities, s.claims ++ claims⟩ := by
  constructor
  · intro c hc
    rcases List.mem_append.1 hc with hc | hc
    · exact hids _ (hs.placed c hc)
    · exact hplaced c hc
  · rw [guids_append, List.nodup_append]
    refine ⟨hs.nodup, hfresh.nodup, ?_⟩
    rintro g hg _ hg' rfl
    obtain ⟨c, hc, rfl⟩ := List.mem_map.1 hg'
    exact hfresh.unused c hc hg
  · rw [guids_append]
    intro g hg
    rcases List.mem_append.1 hg with hg | hg
    · exact hs.separable g hg
    · obtain ⟨c, hc, rfl⟩ := List.mem_map.1 hg
      exact hfresh.separable c hc

theorem WellKept.step (hs : s.WellKept) (h : s.Step registered edit s' body) : s'.WellKept := by
  -- An edit renames no claim, and one that adds a claim gives it a new identifier.
  cases h with
  | make unused item property fresh placed said told =>
    refine hs.append fresh (fun id hid => ?_) fun c hc => ?_
    · rw [List.map_append]
      exact List.mem_append_left _ hid
    · simp [placed c hc]
  | @addClaim id guid p value body known fresh =>
    refine hs.append fresh (fun id hid => hid) fun c hc => ?_
    obtain rfl := List.mem_singleton.1 hc
    exact known
  | @setValue guid value =>
    have hguids : guids { s with claims := s.claims.map (withValue guid value) } = s.guids := by
      rw [guids, List.map_map]
      refine List.map_congr_left fun c _ => ?_
      dsimp only [Function.comp_apply, withValue]
      split <;> rfl
    refine ⟨fun c hc => ?_, hguids ▸ hs.nodup, hguids ▸ hs.separable⟩
    obtain ⟨d, hd, rfl⟩ := List.mem_map.1 hc
    have hplaced := hs.placed d hd
    dsimp only [withValue]
    split <;> exact hplaced
  | @removeClaims guids =>
    have hsub : (s.claims.filter fun c => c.guid ∉ guids).Sublist s.claims := List.filter_sublist
    exact ⟨fun c hc => hs.placed c (hsub.subset hc), hs.nodup.sublist (hsub.map _),
      fun g hg => hs.separable g ((hsub.map _).subset hg)⟩

theorem mem_claimsOf {id : String} {p : PropertyId} {c : StoredClaim} :
    c ∈ s.claimsOf id p ↔ ∃ d ∈ s.claims, d.entity = id ∧ d.property = p ∧ d.toStoredClaim = c := by
  simp [claimsOf, and_assoc]

theorem claimsOf_append (s : Store) (entities : List (String × Json)) (claims : List PlacedClaim) (id : String)
    (p : PropertyId) :
    claimsOf ⟨entities, s.claims ++ claims⟩ id p = s.claimsOf id p ++ claimsOf ⟨entities, claims⟩ id p := by
  simp [claimsOf]

theorem claimsOf_eq_nil {id : String} {p : PropertyId}
    (h : ∀ c ∈ s.claims, ¬(c.entity = id ∧ c.property = p)) : s.claimsOf id p = [] := by
  rw [List.eq_nil_iff_forall_not_mem]
  intro c hc
  obtain ⟨d, hd, hid, hp, -⟩ := mem_claimsOf.1 hc
  exact h d hd ⟨hid, hp⟩

theorem WellKept.claimsOf_eq_nil (hs : s.WellKept) {id : String} (hid : id ∉ s.ids) (p : PropertyId) :
    s.claimsOf id p = [] :=
  Store.claimsOf_eq_nil fun c hc h => hid (h.1 ▸ hs.placed c hc)

/-! What an edit of the claims of one property of an entity does, and leaves alone. -/

/-- That claims with these identifiers are all of one property of an entity. -/
def Owned (s : Store) (id : String) (p : PropertyId) (guids : List String) : Prop :=
  ∀ c ∈ s.claims, c.guid ∈ guids → c.entity = id ∧ c.property = p

/-- That a store differs from an earlier one at most in the claims of some properties of an entity. -/
structure Touched (id : String) (ps : List PropertyId) (s s' : Store) : Prop where
  entities : s'.entities = s.entities
  claimsOf : ∀ id' q, ¬(id' = id ∧ q ∈ ps) → s'.claimsOf id' q = s.claimsOf id' q

theorem Touched.refl (id : String) (ps : List PropertyId) (s : Store) : Touched id ps s s :=
  ⟨rfl, fun _ _ _ => rfl⟩

theorem Touched.trans {id : String} {ps qs : List PropertyId} {s₁ s₂ s₃ : Store} (h : Touched id ps s₁ s₂)
    (h' : Touched id qs s₂ s₃) : Touched id (ps ++ qs) s₁ s₃ := by
  refine ⟨h'.entities.trans h.entities, fun id' q hne => ?_⟩
  rw [List.mem_append] at hne
  exact (h'.claimsOf id' q fun h => hne ⟨h.1, .inr h.2⟩).trans (h.claimsOf id' q fun h => hne ⟨h.1, .inl h.2⟩)

theorem Touched.mono {id : String} {ps qs : List PropertyId} (h : Touched id ps s s') (hsub : ps ⊆ qs) :
    Touched id qs s s' :=
  ⟨h.entities, fun id' q hne => h.claimsOf id' q fun h => hne ⟨h.1, hsub h.2⟩⟩

theorem Owned.touched {id : String} {p : PropertyId} {guids : List String} (h : s.Owned id p guids)
    (ht : Touched id [p] s s') : s'.Owned id p guids := by
  intro c hc hguid
  by_contra hne
  have hmem : c.toStoredClaim ∈ s'.claimsOf c.entity c.property := mem_claimsOf.2 ⟨c, hc, rfl, rfl, rfl⟩
  rw [ht.claimsOf _ _ fun h => hne ⟨h.1, List.mem_singleton.1 h.2⟩] at hmem
  obtain ⟨d, hd, hentity, hproperty, hstored⟩ := mem_claimsOf.1 hmem
  have howned := h d hd (by rw [hstored]; exact hguid)
  exact hne ⟨hentity ▸ howned.1, hproperty ▸ howned.2⟩

theorem WellKept.owned (hs : s.WellKept) (id : String) (p : PropertyId) :
    s.Owned id p ((s.claimsOf id p).map (·.guid)) := by
  intro c hc hguid
  obtain ⟨d, hd, hdc⟩ := List.mem_map.1 hguid
  obtain ⟨e, he, hid, hp, rfl⟩ := mem_claimsOf.1 hd
  obtain rfl := List.inj_on_of_nodup_map hs.nodup he hc hdc
  exact ⟨hid, hp⟩

theorem WellKept.separable_claimsOf (hs : s.WellKept) (id : String) (p : PropertyId) :
    ∀ g ∈ (s.claimsOf id p).map (·.guid), '|' ∉ g.toList := by
  intro g hg
  obtain ⟨c, hc, rfl⟩ := List.mem_map.1 hg
  obtain ⟨d, hd, -, -, rfl⟩ := mem_claimsOf.1 hc
  exact hs.separable _ (List.mem_map_of_mem hd)

theorem Owned.subset {id : String} {p : PropertyId} {guids more : List String} (h : s.Owned id p more)
    (hsub : guids ⊆ more) : s.Owned id p guids :=
  fun c hc hguid => h c hc (hsub hguid)

end Store

namespace ClaimEdit

def toStore (id : String) (p : PropertyId) : ClaimEdit → StoreEdit
  | .add snak => .addClaim id p snak
  | .replace guid snak => .setValue guid snak
  | .remove guids => .removeClaims guids

def targets : ClaimEdit → List String
  | .add _ => []
  | .replace guid _ => [guid]
  | .remove guids => guids

inductive Turns : ClaimEdit → List StoredClaim → List StoredClaim → Prop
  | add (snak : Json) (guid : String) (cs : List StoredClaim) :
    Turns (.add snak) cs (cs ++ [⟨guid, some (Store.stored snak)⟩])
  | replace (guid : String) (snak : Json) (cs : List StoredClaim) :
    Turns (.replace guid snak) cs
      (cs.map fun c => if c.guid = guid then ⟨c.guid, some (Store.stored snak)⟩ else c)
  | remove (guids : List String) (cs : List StoredClaim) :
    Turns (.remove guids) cs (cs.filter fun c => c.guid ∉ guids)

end ClaimEdit

namespace Store

variable {registered : String → PropertyId} {s s' : Store} {body : Json} {id : String} {p : PropertyId}
  {edit : ClaimEdit}

theorem claimsOf_setValue (s : Store) (guid : String) (value : Json) (id : String) (p : PropertyId) :
    claimsOf { s with claims := s.claims.map (withValue guid value) } id p =
      ((s.claims.filter fun c => c.entity = id && c.property = p).map (withValue guid value)).map
        (·.toStoredClaim) := by
  have hplace : ((fun c : PlacedClaim => c.entity = id && c.property = p) ∘ withValue guid value) =
      fun c => c.entity = id && c.property = p := by
    funext c
    dsimp only [Function.comp_apply, withValue]
    split <;> rfl
  rw [claimsOf, List.filter_map, hplace]

theorem claimsOf_removeClaims (s : Store) (guids : List String) (id : String) (p : PropertyId) :
    claimsOf { s with claims := s.claims.filter fun c => c.guid ∉ guids } id p =
      (s.claimsOf id p).filter fun c => c.guid ∉ guids := by
  simp only [claimsOf, List.filter_map, List.filter_filter]
  congr 1
  refine List.filter_congr fun c _ => ?_
  rw [Bool.and_comm]
  rfl

theorem Step.turns (h : s.Step registered (edit.toStore id p) s' body) :
    edit.Turns (s.claimsOf id p) (s'.claimsOf id p) := by
  cases edit with
  | add snak =>
    cases h with
    | @addClaim _ guid =>
      rw [claimsOf_append]
      have hnew : claimsOf ⟨s.entities, [⟨⟨guid, some (stored snak)⟩, id, p⟩]⟩ id p =
          [⟨guid, some (stored snak)⟩] := by simp [claimsOf]
      rw [hnew]
      exact .add _ _ _
  | replace guid snak =>
    cases h with
    | setValue =>
      rw [claimsOf_setValue]
      have hmap : ((s.claims.filter fun c => c.entity = id && c.property = p).map (withValue guid snak)).map
          (·.toStoredClaim) =
          (s.claimsOf id p).map fun c => if c.guid = guid then ⟨c.guid, some (stored snak)⟩ else c := by
        rw [claimsOf, List.map_map, List.map_map]
        refine List.map_congr_left fun c _ => ?_
        dsimp only [Function.comp_apply, withValue]
        split <;> rfl
      rw [hmap]
      exact .replace _ _ _
  | remove guids =>
    cases h with
    | removeClaims =>
      rw [claimsOf_removeClaims]
      exact .remove _ _

theorem Step.touched (h : s.Step registered (edit.toStore id p) s' body) (howned : s.Owned id p edit.targets) :
    Touched id [p] s s' := by
  -- An edit finds claims by their identifiers, and those that it names are all of this property.
  cases edit with
  | add snak =>
    cases h with
    | @addClaim _ guid =>
      refine ⟨rfl, fun id' q hne => ?_⟩
      have hnew : ∀ c ∈ [⟨⟨guid, some (stored snak)⟩, id, p⟩], ¬(PlacedClaim.entity c = id' ∧ c.property = q) := by
        intro c hc h
        obtain rfl := List.mem_singleton.1 hc
        exact hne ⟨h.1.symm, List.mem_singleton.2 h.2.symm⟩
      rw [claimsOf_append, claimsOf_eq_nil (s := ⟨s.entities, _⟩) hnew, List.append_nil]
  | replace guid snak =>
    cases h with
    | setValue =>
      refine ⟨rfl, fun id' q hne => ?_⟩
      rw [claimsOf_setValue, claimsOf]
      refine congrArg (List.map _) ((List.map_congr_left fun c hc => ?_).trans (List.map_id _))
      obtain ⟨hmem, hplace⟩ := List.mem_filter.1 hc
      simp only [Bool.and_eq_true, decide_eq_true_eq] at hplace
      refine if_neg fun hguid => ?_
      obtain ⟨hid, hp⟩ := howned c hmem (List.mem_singleton.2 hguid)
      exact hne ⟨hplace.1.symm.trans hid, List.mem_singleton.2 (hplace.2.symm.trans hp)⟩
  | remove guids =>
    cases h with
    | removeClaims =>
      refine ⟨rfl, fun id' q hne => ?_⟩
      rw [claimsOf_removeClaims, List.filter_eq_self]
      intro c hc
      obtain ⟨d, hd, hid, hp, rfl⟩ := mem_claimsOf.1 hc
      refine decide_eq_true fun hguid => ?_
      obtain ⟨hid', hp'⟩ := howned d hd hguid
      exact hne ⟨hid.symm.trans hid', List.mem_singleton.2 (hp.symm.trans hp')⟩

structure Made (registered : String → PropertyId) (kind : String) (data : Json) (id : String) (s s' : Store) :
    Prop where
  unused : id ∉ s.ids
  entities : s'.entities = s.entities ++ [(id, data.get "labels")]
  others : ∀ id', id' ≠ id → ∀ p, s'.claimsOf id' p = s.claimsOf id' p
  said : ∀ p, (s'.claimsOf id p).map (·.datavalue) = ((Export.facts data).filter (·.1 = p)).map fun f => some f.2
  item : kind = "item" → ∃ i : ItemId, id = i.text
  property : kind = "property" → ∃ p : PropertyId, id = p.text ∧
    ∀ language label, data.get "labels" = Claim.labels language label → p = registered label

theorem Step.made {kind : String} {data : Json} (h : s.Step registered (.make kind data) s' body)
    (hs : s.WellKept) : ∃ id, Client.textAt ["entity", "id"] body = some id ∧ Made registered kind data id s s' := by
  cases h with
  | @make _ id _ _ claims unused item property fresh placed said told =>
    refine ⟨id, told, unused, rfl, fun id' hne p => ?_, fun p => ?_, item, property⟩
    · rw [claimsOf_append, claimsOf_eq_nil (s := ⟨_, claims⟩) fun c hc h => hne (h.1.symm.trans (placed c hc)),
        List.append_nil]
    · have hplace : claims.filter (fun c => c.entity = id && c.property = p) = claims.filter (·.property = p) := by
        refine List.filter_congr fun c hc => ?_
        simp [placed c hc]
      have hmap : ∀ cs : List PlacedClaim, ((cs.filter (·.property = p)).map (·.toStoredClaim)).map (·.datavalue) =
          ((cs.map fun c => (c.property, c.datavalue)).filter (·.1 = p)).map (·.2) := by
        intro cs
        rw [List.filter_map, List.map_map, List.map_map]
        rfl
      rw [claimsOf_append, hs.claimsOf_eq_nil unused, List.nil_append, claimsOf, hplace, hmap, said,
        List.filter_map, List.map_map]
      rfl

/-! What the store shows of an entity is read as the claims that it has. -/

theorem ofJson?_toJson (p : PropertyId) (c : StoredClaim) : StoredClaim.ofJson? (c.toJson p) = some c := by
  obtain ⟨guid, datavalue⟩ := c
  cases datavalue <;>
    simp [StoredClaim.toJson, StoredClaim.ofJson?, Json.get_ofEntries, Json.get?_ofEntries, List.lookup_cons,
      Json.text?]

theorem get_of_forall {claims : PropertyId → List StoredClaim} {entries : List (PropertyId × List StoredClaim)}
    (hall : ∀ e ∈ entries, e.2 = claims e.1) {p : PropertyId} (hp : claims p ≠ [] → ∃ e ∈ entries, e.1 = p) :
    ClaimSet.get ⟨entries⟩ p = claims p := by
  rw [ClaimSet.get]
  cases hfound : entries.lookup p with
  | some cs =>
    exact hall (p, cs) (Keyed.mem_of_lookup hfound)
  | none =>
    by_contra hne
    obtain ⟨e, he, rfl⟩ := hp (Ne.symm hne)
    exact bne_iff_ne.1 (List.lookup_eq_none_iff.1 hfound e he) rfl

theorem get_ofJson {shown : PropertyId → List Json} {ps : List PropertyId} {p : PropertyId}
    (hp : shown p ≠ [] → p ∈ ps) :
    (ClaimSet.ofJson (.ofEntries (ps.map fun q => (q.text, .array (shown q))))).get p =
      (shown p).filterMap StoredClaim.ofJson? := by
  refine @get_of_forall (fun q => (shown q).filterMap StoredClaim.ofJson?) _ (fun e he => ?_) p fun hne => ?_
  · obtain ⟨entry, hentry, he⟩ := List.mem_filterMap.1 (List.mem_reverse.1 he)
    obtain ⟨q, -, rfl⟩ := List.mem_map.1 (Keyed.mem_ofList hentry)
    dsimp only at he
    rw [PropertyId.ofText?_text] at he
    obtain rfl := Option.some.inj he
    rfl
  · have hshown : shown p ≠ [] := by
      intro hnil
      rw [hnil] at hne
      exact hne rfl
    obtain ⟨j, hj⟩ : ∃ j, (Keyed.ofList (ps.map fun q => (q.text, Json.array (shown q)))).lookup p.text = some j := by
      rw [Keyed.lookup_ofList, ← Option.ne_none_iff_exists']
      intro hnone
      have hmem : (p.text, Json.array (shown p)) ∈ (ps.map fun q => (q.text, Json.array (shown q))).reverse :=
        List.mem_reverse.2 (List.mem_map_of_mem (hp hshown))
      exact bne_iff_ne.1 (List.lookup_eq_none_iff.1 hnone _ hmem) rfl
    refine ⟨(p, j.items.filterMap StoredClaim.ofJson?), List.mem_reverse.2 (List.mem_filterMap.2
      ⟨(p.text, j), Keyed.mem_of_lookup hj, ?_⟩), rfl⟩
    dsimp only
    rw [PropertyId.ofText?_text]
    rfl

theorem claimsIn_document {id : String} {body : Json} (h : (body.get "entities").get id = s.document id) :
    match Client.claimsIn id body with
    | some set => id ∈ s.ids ∧ ∀ p, set.get p = s.claimsOf id p
    | none => id ∉ s.ids := by
  rw [Client.claimsIn, h]
  -- The document of an entity that is there lists its claims by property; any other says that it is missing.
  by_cases hid : id ∈ s.ids
  · have hthere : (s.document id).isNull = false ∧ (s.document id).get? "missing" = none := by
      rw [document, if_pos hid]
      exact ⟨rfl, by simp [Json.get?_ofEntries, List.lookup_cons]⟩
    have hclaims : (s.document id).get "claims" = .ofEntries (((s.claims.filter (·.entity = id)).map (·.property)).map
        fun p => (p.text, .array ((s.claimsOf id p).map (StoredClaim.toJson p)))) := by
      rw [document, if_pos hid, List.map_map]
      simp [Json.get_ofEntries]
      rfl
    rw [hthere.1, hthere.2, hclaims]
    have hread : ∀ p, ((s.claimsOf id p).map (StoredClaim.toJson p)).filterMap StoredClaim.ofJson? = s.claimsOf id p := by
      intro p
      rw [List.filterMap_map]
      exact (List.filterMap_congr fun c _ => ofJson?_toJson p c).trans List.filterMap_some
    refine ⟨hid, fun p => (get_ofJson fun hne => ?_).trans (hread p)⟩
    obtain ⟨c, hc⟩ := List.exists_mem_of_ne_nil _ (mt (congrArg (List.map _)) hne)
    obtain ⟨d, hd, hentity, rfl, -⟩ := mem_claimsOf.1 hc
    exact List.mem_map_of_mem (List.mem_filter.2 ⟨hd, by simpa using hentity⟩)
  · have hmissing : ((s.document id).get? "missing").isSome = true := by
      rw [document, if_neg hid]
      simp [Json.get?_ofEntries]
    rw [hmissing, Bool.or_true]
    exact hid

end Store

end ClaimTables
