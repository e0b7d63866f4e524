import ClaimTables.Proofs.Service.Store

/-!
A store that finds its entities by their labels. A search shows all entities of a kind that carry a label, perhaps among
others; an edit that makes an entity gives it a new identifier, or is refused, and its answer may be lost.
-/

namespace ClaimTables

inductive EntityId where
  | property (p : PropertyId)
  | item (i : ItemId)
deriving DecidableEq

namespace EntityId

def kind : EntityId → EntityKind
  | .property _ => .property
  | .item _ => .item

def text : EntityId → String
  | .property p => p.text
  | .item i => i.text

theorem eq_property {id : EntityId} (hkind : id.kind = .property) {p : PropertyId}
    (h : PropertyId.ofText? id.text = some p) : id = .property p := by
  cases id with
  | property q => rw [Option.some.inj ((PropertyId.ofText?_text q).symm.trans h)]
  | item i => exact nomatch hkind

theorem eq_item {id : EntityId} (hkind : id.kind = .item) {i : ItemId} (h : ItemId.ofText? id.text = some i) :
    id = .item i := by
  cases id with
  | item j => rw [Option.some.inj ((ItemId.ofText?_text j).symm.trans h)]
  | property p => exact nomatch hkind

end EntityId

namespace EntityKind

theorem name_injective : Function.Injective name := by
  intro k l h
  cases k <;> cases l <;> first | rfl | exact absurd h (by decide)

def ofName? (s : String) : Option EntityKind :=
  [item, property].find? (·.name = s)

theorem ofName?_name (k : EntityKind) : ofName? k.name = some k := by
  cases k <;> rfl

theorem name_of_ofName? {s : String} {k : EntityKind} (h : ofName? s = some k) : k.name = s := by
  simpa using List.find?_some h

def numbered : EntityKind → UInt64 → EntityId
  | .property, n => .property ⟨n⟩
  | .item, n => .item ⟨n⟩

theorem kind_numbered (k : EntityKind) (n : UInt64) : (k.numbered n).kind = k := by
  cases k <;> rfl

end EntityKind

structure Entity where
  id : EntityId
  labels : Json

namespace Entity

def label? (language : String) (e : Entity) : Option String :=
  ((e.labels.get language).get "value").text?

structure ShownBy (language : String) (e : Entity) (hit : Json) : Prop where
  id : (hit.get "id").text? = some e.id.text
  label : (hit.get "label").text? = e.label? language

theorem label?_of_labels {language label : String} {e : Entity} (h : e.labels = Claim.labels language label) :
    e.label? language = some label := by
  rw [label?, h]
  simp [Claim.labels, Json.get_ofEntries, Json.text?]

end Entity

structure Directory where
  entities : List Entity
  nodup : (entities.map (·.id)).Nodup

namespace Directory

variable {d d' : Directory} {language label : String} {kind : EntityKind}

theorem eq_of_id_eq (d : Directory) {e e' : Entity} (he : e ∈ d.entities) (he' : e' ∈ d.entities) (h : e.id = e'.id) :
    e = e' :=
  List.inj_on_of_nodup_map d.nodup he he' h

def carriers (d : Directory) (language : String) (kind : EntityKind) (label : String) : List Entity :=
  d.entities.filter fun e => e.id.kind = kind ∧ e.label? language = some label

theorem mem_carriers {e : Entity} :
    e ∈ d.carriers language kind label ↔ e ∈ d.entities ∧ e.id.kind = kind ∧ e.label? language = some label := by
  simp [carriers]

/-- That an entity was made and its identifier told. It is new, since no two entities have one. -/
structure Makes (d : Directory) (kind : String) (data : Json) (d' : Directory) (body : Json) (id : EntityId) : Prop where
  kind : id.kind.name = kind
  entities : d'.entities = d.entities ++ [⟨id, data.get "labels"⟩]
  told : Client.textAt ["entity", "id"] body = some id.text

/-- A true answer to a search: it shows entities of the kind, each once, and all of them that carry the label. -/
structure Finds (d : Directory) (language label : String) (kind : EntityKind) (shown : List Entity) (hits : List Json) :
    Prop where
  nodup : shown.Nodup
  known : ∀ e ∈ shown, e ∈ d.entities ∧ e.id.kind = kind
  all : d.carriers language kind label ⊆ shown
  hits : List.Forall₂ (Entity.ShownBy language) shown hits

end Directory

def World.labelling : World Directory
  | d, .send (.post ps), answer, d' =>
    match StoreEdit.ofParameters? ps with
    | some (.make kind data) => Taken (fun d' body => ∃ id, d.Makes kind data d' body id) d answer d'
    | _ => d' = d
  | d, .send (.get ps), answer, d' =>
    d' = d ∧ ∀ body, answer = .ok body → ApiError.ofJson? body = none →
      ps.text? "action" = some "wbsearchentities" → ∀ language label (kind : EntityKind),
        ps.text? "language" = some language → ps.text? "search" = some label → ps.text? "type" = some kind.name →
          ∃ shown, d.Finds language label kind shown (body.get "search").items
  | d, .send (.query _), _, d' => d' = d
  | d, .wait _, _, d' => d' = d
  | d, .clock, _, d' => d' = d
  | d, .freshName, _, d' => d' = d

namespace Directory

variable {d d' : Directory} {language label : String} {kind : EntityKind}

theorem carriers_append {e : Entity} (h : d'.entities = d.entities ++ [e]) : d'.carriers language kind label =
    d.carriers language kind label ++ [e].filter fun e => e.id.kind = kind ∧ e.label? language = some label := by
  rw [carriers, h, List.filter_append]
  rfl

def Settles (d : Directory) (language : String) (kind : EntityKind) (label : String) (d' : Directory) : Prop :=
  d' = d ∨ d.carriers language kind label = [] ∧
    ∃ e, e.id.kind = kind ∧ e.label? language = some label ∧ d'.entities = d.entities ++ [e]

def Only (d : Directory) (language label : String) (id : EntityId) : Prop :=
  ∃ labels, d.carriers language id.kind label = [⟨id, labels⟩]

theorem only_of_carriers {e : Entity} (h : d.carriers language kind label = [e]) : d.Only language label e.id := by
  obtain ⟨-, hkind, -⟩ := mem_carriers.1 (h ▸ List.mem_singleton_self e)
  exact ⟨e.labels, hkind ▸ h⟩

theorem only_of_made {e : Entity} (hnone : d.carriers language e.id.kind label = []) (hlabel : e.label? language = some label)
    (h : d'.entities = d.entities ++ [e]) : d'.Only language label e.id := by
  have hcarriers : d'.carriers language e.id.kind label = [e] := by
    rw [carriers_append h, hnone, List.nil_append, List.filter_cons_of_pos (by simpa using hlabel), List.filter_nil]
  exact only_of_carriers hcarriers

theorem nodup_entities (d : Directory) : d.entities.Nodup :=
  .of_map _ d.nodup

theorem Finds.exactHits {shown : List Entity} {body : Json}
    (h : d.Finds language label kind shown (body.get "search").items) :
    (Client.exactHits label body).Perm ((d.carriers language kind label).map (·.id.text)) := by
  have hexact : Client.exactHits label body =
      (shown.filter fun e => e.label? language = some label).map (·.id.text) := by
    rw [Client.exactHits]
    have hhits := h.hits
    generalize (body.get "search").items = hits at hhits
    clear h
    induction hhits with
    | nil => rfl
    | @cons e hit shown hits hshown _ ih =>
      rw [List.filterMap_cons, ih, hshown.id, hshown.label]
      by_cases hcarries : e.label? language = some label
      · rw [if_pos hcarries, List.filter_cons_of_pos (by simpa using hcarries)]
        rfl
      · rw [if_neg hcarries, List.filter_cons_of_neg (by simpa using hcarries)]
  rw [hexact]
  refine List.Perm.map _ ((List.perm_ext_iff_of_nodup (h.nodup.filter _) (d.nodup_entities.filter _)).2 fun e => ?_)
  rw [List.mem_filter, decide_eq_true_eq]
  constructor
  · exact fun he => mem_carriers.2 ⟨(h.known e he.1).1, (h.known e he.1).2, he.2⟩
  · exact fun he => ⟨h.all he, (mem_carriers.1 he).2.2⟩

/-! A store of this kind that can be run: it lets anyone in and numbers what it makes. -/

def found (d : Directory) (language label : String) (kind : EntityKind) : Json :=
  .ofEntries [("search", .array ((d.carriers language kind label).map fun e =>
    .ofEntries [("id", .string e.id.text), ("label", .string label)]))]

theorem finds_found (d : Directory) (language label : String) (kind : EntityKind) :
    d.Finds language label kind (d.carriers language kind label) ((d.found language label kind).get "search").items where
  nodup := d.nodup_entities.filter _
  known e he := ⟨(mem_carriers.1 he).1, (mem_carriers.1 he).2.1⟩
  all := List.Subset.refl _
  hits := by
    refine List.forall₂_map_right_iff.2 (List.forall₂_same.2 fun e he => ⟨?_, ?_⟩)
    · simp [Json.get_ofEntries, Json.text?, List.lookup_cons]
    · simp [Json.get_ofEntries, Json.text?, (mem_carriers.1 he).2.2]

def siteDocument : Json :=
  .ofEntries [("query", .ofEntries [("general", .ofEntries [("server", .string "https://wiki.test")]),
    ("tokens", .ofEntries [("logintoken", .string "login"), ("csrftoken", .string "csrf")])])]

def shown (d : Directory) (ps : Parameters) : Json :=
  match ps.text? "language", ps.text? "search", (ps.text? "type").bind EntityKind.ofName? with
  | some language, some label, some kind => d.found language label kind
  | _, _, _ => siteDocument

def turnedDown : Json :=
  .ofEntries [("error", .ofEntries [("code", .string "modification-failed")])]

def place (d : Directory) (id : EntityId) (labels : Json) : Except Error Json × Directory :=
  if h : id ∈ d.entities.map (·.id) then (.ok turnedDown, d)
  else
    (.ok (.ofEntries [("entity", .ofEntries [("id", .string id.text)])]),
      ⟨d.entities ++ [⟨id, labels⟩], by simpa [List.nodup_append, d.nodup] using h⟩)

def take (d : Directory) (ps : Parameters) : Except Error Json × Directory :=
  match StoreEdit.ofParameters? ps with
  | some (.make kind data) =>
    match EntityKind.ofName? kind with
    | some kind => d.place (kind.numbered (.ofNat (d.entities.length + 1))) (data.get "labels")
    | none => (.ok turnedDown, d)
  | _ => (.ok (.ofEntries [("login", .ofEntries [("result", .string "Success")])]), d)

def serve : (e : Effect) → StateM Directory e.Answer
  | .send (.get ps) => fun d => (.ok (d.shown ps), d)
  | .send (.post ps) => fun d => d.take ps
  | .send (.query _) => fun d => (.ok ⟨[], []⟩, d)
  | .wait _ => fun d => ((), d)
  | .clock => fun d => (0, d)
  | .freshName => fun d => (.ofList (Text.digits d.entities.length), d)

theorem taken_place (d : Directory) (id : EntityId) {kind : String} (hkind : id.kind.name = kind) (data : Json) :
    Taken (fun d' body => ∃ id, d.Makes kind data d' body id) d (d.place id (data.get "labels")).1
      (d.place id (data.get "labels")).2 := by
  unfold place
  split
  · exact .refused rfl
  · refine .applied ⟨id, hkind, rfl, ?_⟩ rfl
    simp [Client.textAt, Json.get_ofEntries, Json.text?]

theorem labelling_serve (d : Directory) (e : Effect) : World.labelling d e (serve e d).1 (serve e d).2 := by
  cases e with
  | send r =>
    cases r with
    | get ps =>
      refine ⟨rfl, fun body hbody _ _ language label kind hlanguage hlabel hkind => ?_⟩
      obtain rfl : d.shown ps = body := Except.ok.inj hbody
      rw [shown, hlanguage, hlabel, hkind, Option.bind_some, EntityKind.ofName?_name]
      exact ⟨_, d.finds_found language label kind⟩
    | post ps =>
      cases hread : StoreEdit.ofParameters? ps with
      | none => simp only [World.labelling, serve, take, hread]
      | some edit =>
        cases edit with
        | make kind data =>
          simp only [World.labelling, serve, take, hread]
          cases hkind : EntityKind.ofName? kind with
          | none => exact .refused rfl
          | some k =>
            refine d.taken_place _ ?_ data
            rw [EntityKind.kind_numbered, EntityKind.name_of_ofName? hkind]
        | addClaim | setValue | removeClaims => simp only [World.labelling, serve, take, hread]
    | query text => rfl
  | wait _ | clock | freshName => rfl

end Directory

end ClaimTables
