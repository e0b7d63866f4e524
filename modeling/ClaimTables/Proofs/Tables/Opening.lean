import ClaimTables.Proofs.Tables.Roles
import ClaimTables.Tables.Connection

/-!
What tables know from their opening on. The properties that all namespaces share are found once, when tables are
opened, and known from then on, whatever is forgotten; to ask for them again is to ask the store nothing.
-/

namespace ClaimTables

namespace Reserved

def roles (r : Reserved) : List (Role × PropertyId) :=
  [(.tag, r.tag), (.deleted, r.deleted)]

def entities (r : Reserved) : List (Role × EntityId) :=
  r.roles.map fun x => (x.1, .property x.2)

end Reserved

namespace Tables

open Directory Tables.Action

variable {t : Tables} {c : Client} {m : Mappings} {s : Session} {d d' : Directory}

section Known

variable {W : Type} {world : World W} {w : W}

theorem ensures_sharedProperty_of_known {label : String} {p : PropertyId} (h : m.shared.lookup label = some p)
    {post : Except Error PropertyId → Mappings → Session → W → Prop} :
    (sharedProperty c label).Ensures world m s w post ↔ post (.ok p) m s w := by
  rw [sharedProperty, ensures_bind, ensures_mappings]
  simp only [h]
  exact Iff.rfl

theorem ensures_findReserved_of_known {r : Reserved} (h : ∀ x ∈ r.roles, m.shared.lookup x.1.label = some x.2)
    {instanceOf subclassOf : PropertyId} {post : Except Error Reserved → Mappings → Session → W → Prop} :
    (findReserved c instanceOf subclassOf).Ensures world m s w post ↔
      post (.ok ⟨instanceOf, subclassOf, r.tag, r.deleted⟩) m s w := by
  have htag : m.shared.lookup Namespace.tagLabel = some r.tag := h _ List.mem_cons_self
  have hdeleted : m.shared.lookup Namespace.deletedLabel = some r.deleted := h _ (List.mem_cons_of_mem _ List.mem_cons_self)
  rw [findReserved, ensures_bind, ensures_sharedProperty_of_known htag]
  dsimp only
  rw [ensures_bind, ensures_sharedProperty_of_known hdeleted]
  exact Iff.rfl

end Known

structure Minds (t : Tables) (d : Directory) (m : Mappings) : Prop where
  fields : ∀ k p, m.fields.lookup k = some p → d.Plays t.client.language (.field t.space k) (.property p)
  types : ∀ n i, m.types.lookup n = some i → d.Plays t.client.language (.type t.space n) (.item i)
  shared : ∀ x ∈ t.reserved.roles, m.shared.lookup x.1.label = some x.2 ∧ d.Plays t.client.language x.1 (.property x.2)

theorem Minds.grows (h : t.Minds d m) (hgrows : d.Grows t.client.language d') : t.Minds d' m :=
  ⟨fun k p hk => (h.fields k p hk).grows hgrows, fun n i hn => (h.types n i hn).grows hgrows,
    fun x hx => ⟨(h.shared x hx).1, (h.shared x hx).2.grows hgrows⟩⟩

theorem Minds.insert_field (h : t.Minds d m) {k : FieldKey} {p : PropertyId}
    (hp : d.Plays t.client.language (.field t.space k) (.property p)) :
    t.Minds d { m with fields := (k, p) :: m.fields } := by
  refine ⟨fun k' q hq => ?_, h.types, h.shared⟩
  rw [List.lookup_cons] at hq
  split at hq
  · next hk =>
    obtain rfl := beq_iff_eq.1 hk
    exact Option.some.inj hq ▸ hp
  · exact h.fields k' q hq

theorem Minds.insert_type (h : t.Minds d m) {n : String} {i : ItemId}
    (hi : d.Plays t.client.language (.type t.space n) (.item i)) :
    t.Minds d { m with types := (n, i) :: m.types } := by
  refine ⟨h.fields, fun n' j hj => ?_, h.shared⟩
  rw [List.lookup_cons] at hj
  split at hj
  · next hn =>
    obtain rfl := beq_iff_eq.1 hn
    exact Option.some.inj hj ▸ hi
  · exact h.types n' j hj

theorem Minds.forget (h : t.Minds d m) : t.Minds d m.forget :=
  ⟨by simp [Mappings.forget, Mappings.empty], by simp [Mappings.forget, Mappings.empty], h.shared⟩

theorem Minds.plays_entities (h : t.Minds d m) : ∀ x ∈ t.reserved.entities, d.Plays t.client.language x.1 x.2 :=
  List.forall_mem_map.2 fun x hx => (h.shared x hx).2

theorem sharedProperty_labelling (c : Client) {r : Role} (hr : r.Named) (hkind : r.kind = .property)
    (hunknown : m.shared.lookup r.label = none) (s : Session) (d : Directory) :
    (sharedProperty c r.label).Ensures .labelling m s d fun found m' _ d' => d.Grows c.language d' ∧
      ∀ p, found = .ok p → m' = { m with shared := (r.label, p) :: m.shared } ∧ d'.Plays c.language r (.property p) := by
  rw [sharedProperty, ensures_bind, ensures_mappings]
  simp only [hunknown]
  refine ensures_bind.2 (ensures_ofClient.2 ((Client.property_labelling c _ _ _ s d).mono fun found s' d' h => ?_))
  have hgrows := grows_of_settles hr (hkind ▸ h.1)
  cases found with
  | error e => exact ⟨hgrows, by simp⟩
  | ok p =>
    refine ensures_bind.2 (ensures_update.2 ⟨hgrows, fun q hq => ?_⟩)
    obtain rfl := Except.ok.inj hq
    exact ⟨rfl, hr, hkind.symm, h.2 p rfl⟩

theorem findReserved_labelling (c : Client) (instanceOf subclassOf : PropertyId) (s : Session) (d : Directory) :
    (findReserved c instanceOf subclassOf).Ensures .labelling .empty s d fun r m' _ d' => d.Grows c.language d' ∧
      ∀ found, r = .ok found → m'.fields = [] ∧ m'.types = [] ∧
        ∀ x ∈ found.roles, m'.shared.lookup x.1.label = some x.2 ∧ d'.Plays c.language x.1 (.property x.2) := by
  refine (sharedProperty_labelling c (r := .tag) trivial rfl rfl s d).bind (fun tag m' s' d' h => ?_)
    fun e m' s' d' h => ⟨h.1, by simp⟩
  obtain ⟨hgrows, hknown⟩ := h
  obtain ⟨rfl, htag⟩ := hknown tag rfl
  refine (sharedProperty_labelling c (r := .deleted) trivial rfl rfl s' d').bind (fun deleted m' s'' d'' h => ?_)
    fun e m' s' d' h => ⟨hgrows.trans h.1, by simp⟩
  obtain ⟨hgrows', hknown⟩ := h
  obtain ⟨rfl, hdeleted⟩ := hknown deleted rfl
  refine ⟨hgrows.trans hgrows', fun found hfound => ⟨rfl, rfl, ?_⟩⟩
  obtain rfl := Except.ok.inj hfound
  rw [Reserved.roles, List.forall_mem_cons, List.forall_mem_singleton]
  exact ⟨⟨rfl, htag.grows hgrows'⟩, rfl, hdeleted⟩

theorem keeps_baseOf {I : Directory → Prop} (c : Client) (settings : Settings) :
    Client.Keeps .labelling I (baseOf c settings) := by
  unfold baseOf
  split
  · exact Client.keeps_pure _
  · refine (Client.keeps_read_labelling c _).bind fun body => ?_
    split
    · exact Client.keeps_pure _
    · exact Client.keeps_throw _

theorem openWith_labelling (c : Client) (settings : Settings) (schema : Schema) (s : Session) (d : Directory) :
    (openWith c settings schema).Ensures .labelling .empty s d fun r m' _ d' => d.Grows c.language d' ∧
      ∀ t, r = .ok t → t.client = c ∧ t.schema = schema ∧ t.Minds d' m' := by
  refine ensures_bind.2 (ensures_ofExcept.2 ?_)
  cases settings.validate with
  | error e => exact ⟨.refl _ d, by simp⟩
  | ok _ =>
    refine ensures_bind.2 (ensures_ofClient.2 ((keeps_baseOf c settings s d rfl).mono fun base s' d' h => ?_))
    subst h
    cases base with
    | error e => exact ⟨.refl _ d, by simp⟩
    | ok base =>
      refine (findReserved_labelling c _ _ s' d).bind (fun found m' s'' d' h => ⟨h.1, fun t ht => ?_⟩)
        fun e m' s'' d' h => ⟨h.1, by simp⟩
      obtain rfl := Except.ok.inj ht
      obtain ⟨hfields, htypes, hshared⟩ := h.2 found rfl
      exact ⟨rfl, rfl, by simp [hfields], by simp [htypes], hshared⟩

end Tables

end ClaimTables
