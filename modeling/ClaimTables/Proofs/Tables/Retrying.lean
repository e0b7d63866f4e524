import ClaimTables.Proofs.Client.Accepted
import ClaimTables.Proofs.Tables.Holders
import ClaimTables.Proofs.Tables.Lookups
import ClaimTables.Proofs.Tables.Steady

/-!
Lookups of a field after one that failed. Main statement: the store is asked again, unless the property that was found for
the field belongs to another one. Then the property is kept all the same, and the lookup fails without asking until all is
forgotten.
-/

namespace ClaimTables

def firstRequest? (exchanged : List Exchange) : Option Request :=
  exchanged.head?.map (·.request)

theorem firstRequest?_append {first rest : List Exchange} {r : Request} (h : firstRequest? first = some r) :
    firstRequest? (first ++ rest) = some r := by
  obtain ⟨x, hx, rfl⟩ := Option.map_eq_some_iff.1 h
  rw [firstRequest?, List.head?_append, hx]
  rfl

namespace Client

open Client.Action

variable {α β : Type} {s s' : Session} {exchanged : List Exchange}

def Action.Begins (r : Request) (x : Action α) : Prop :=
  ∀ s exchanged answer s', x.Goes s exchanged answer s' → firstRequest? exchanged = some r

theorem Action.Begins.bind {r : Request} {x : Action α} (hx : x.Begins r) (f : α → Action β) : (x >>= f).Begins r := by
  intro s exchanged answer s' h
  rcases goes_bind.1 h with ⟨a, s₁, first, rest, hfirst, -, rfl⟩ | ⟨e, h, -⟩
  · exact firstRequest?_append (hx _ _ _ _ hfirst)
  · exact hx _ _ _ _ h

theorem begins_request (c : Client) (r : Request) : (c.request r).Begins r := by
  intro s exchanged answer s' h
  obtain ⟨before, rfl, -⟩ := sendAgain_goes (goes_ofDialogue.1 h).1
  cases before <;> rfl

theorem begins_property (c : Client) (label datatype model : String) :
    (c.property label datatype model).Begins (.get (c.searchParameters label .property)) :=
  (((begins_request c (.get (c.searchParameters label .property))).bind _).bind _).bind _

end Client

namespace Tables

open Tables.Action

variable {t : Tables} {m m' : Mappings} {s s' : Session} {exchanged : List Exchange} {f : ResolvedField} {key : FieldKey}
  {p : PropertyId} {owner : FieldKey} {e : Error}

def mappedTwice (p : PropertyId) (owner key : FieldKey) : Error :=
  .inconsistentData key.model none (p.text ++ " is mapped to both " ++ owner.model ++ "." ++ owner.field ++ " and " ++
    key.model ++ "." ++ key.field)

def searchRequest (t : Tables) (key : FieldKey) : Request :=
  .get (t.client.searchParameters (t.space.propertyLabel key.model key.field) .property)

theorem Action.Gives.bind_goes {α β : Type} {x : Action α} {f : α → Action β} {a : α} {r : Except Error β}
    (hx : x.Gives m s (.ok a)) : (x >>= f).Goes m s exchanged r m' s' ↔ (f a).Goes m s exchanged r m' s' := by
  rw [Goes, Gives.run_bind, hx]
  exact Iff.rfl

def Action.Begins (m : Mappings) (r : Request) {α : Type} (x : Action α) : Prop :=
  ∀ s exchanged answer m' s', x.Goes m s exchanged answer m' s' → firstRequest? exchanged = some r

section Begins

variable {α β : Type} {r : Request} {x : Action α}

theorem Action.Begins.bind (hx : x.Begins m r) (f : α → Action β) : (x >>= f).Begins m r := by
  intro s exchanged answer m' s' h
  rcases goes_bind.1 h with ⟨a, m₁, s₁, first, rest, hfirst, -, rfl⟩ | ⟨e, h, -⟩
  · exact firstRequest?_append (hx _ _ _ _ _ hfirst)
  · exact hx _ _ _ _ _ h

theorem Action.Begins.bind_of_gives {a : α} {f : α → Action β} (hx : ∀ s, x.Gives m s (.ok a)) (hf : (f a).Begins m r) :
    (x >>= f).Begins m r :=
  fun s _ _ _ _ h => hf _ _ _ _ _ ((hx s).bind_goes.1 h)

theorem Action.Begins.of_client {y : Client.Action α} (hy : y.Begins r) : (ofClient y).Begins m r :=
  fun _ _ _ _ _ h => hy _ _ _ _ (goes_ofClient.1 h).1

end Begins

theorem goes_update {g : Mappings → Mappings} {r : Except Error Unit} (h : (Action.update g).Goes m s exchanged r m' s') :
    r = .ok () ∧ m' = g m := by
  cases h
  exact ⟨rfl, rfl⟩

theorem begins_lookUpProperty (hnone : m.fields.lookup f.key = none) :
    (t.lookUpProperty f).Begins m (t.searchRequest f.key) := by
  refine .bind_of_gives (fun _ => Gives.of_mappings) ?_
  rw [hnone]
  exact (Action.Begins.of_client (Client.begins_property _ _ _ _)).bind _

theorem lookUpProperty_goes (h : (t.lookUpProperty f).Goes m s exchanged (.error e) m' s') :
    m.fields.lookup f.key = none ∧ m' = m := by
  cases hfield : m.fields.lookup f.key with
  | some p => exact nomatch ((gives_lookUpProperty hfield).goes h).1
  | none =>
    have hasked := Gives.of_mappings.bind_goes.1 h
    rw [hfield] at hasked
    rcases goes_bind.1 hasked with ⟨p, m₁, s₁, first, rest, -, hkept, -⟩ | ⟨_, hfailed, -⟩
    · rcases goes_bind.1 hkept with ⟨_, _, _, _, _, -, hpure, -⟩ | ⟨_, hupdate, -⟩
      · exact nomatch (goes_pure.1 hpure).2.1
      · exact nomatch (goes_update hupdate).1
    · exact ⟨rfl, (goes_ofClient.1 hfailed).2⟩

theorem gives_own_other (howner : m.owners.lookup p = some owner) (hne : owner ≠ key) :
    (own p key).Gives m s (.error (mappedTwice p owner key)) := by
  refine Gives.of_mappings.bind ?_
  rw [howner]
  dsimp only
  rw [if_pos hne]
  exact .of_throw _

theorem own_goes (h : (own p key).Goes m s exchanged (.error e) m' s') :
    ∃ owner, m.owners.lookup p = some owner ∧ owner ≠ key ∧ e = mappedTwice p owner key ∧ m' = m := by
  cases howner : m.owners.lookup p with
  | none =>
    have hadded := Gives.of_mappings.bind_goes.1 h
    rw [howner] at hadded
    exact nomatch (goes_update hadded).1
  | some owner =>
    by_cases hne : owner = key
    · exact nomatch ((gives_own (hne ▸ howner)).goes h).1
    · obtain ⟨he, rfl, -, -⟩ := (gives_own_other howner hne).goes h
      exact ⟨owner, rfl, hne, Except.error.inj he, rfl⟩

def Taken (m : Mappings) (key : FieldKey) (p : PropertyId) (owner : FieldKey) : Prop :=
  m.fields.lookup key = some p ∧ m.owners.lookup p = some owner ∧ owner ≠ key

theorem gives_propertyOf_taken (h : Taken m f.key p owner) :
    (t.propertyOf f).Gives m s (.error (mappedTwice p owner f.key)) :=
  (gives_lookUpProperty h.1).bind (gives_own_other h.2.1 h.2.2).bind_error

theorem propertyOf_goes (h : (t.propertyOf f).Goes m s exchanged (.error e) m' s') :
    (m.fields.lookup f.key = none ∧ m' = m) ∨ ∃ p owner, Taken m' f.key p owner ∧ e = mappedTwice p owner f.key := by
  rcases goes_bind.1 h with ⟨p, m₁, s₁, first, rest, hfirst, hrest, rfl⟩ | ⟨e', hfailed, he⟩
  · have hp := ((t.gains_lookUpProperty f).goes hfirst).2 p rfl
    rcases goes_bind.1 hrest with ⟨_, _, _, _, _, -, hpure, -⟩ | ⟨e', hfailed, he⟩
    · exact nomatch (goes_pure.1 hpure).2.1
    · obtain ⟨owner, howner, hne, rfl, rfl⟩ := own_goes hfailed
      exact .inr ⟨p, owner, ⟨hp, howner, hne⟩, Except.error.inj he⟩
  · exact .inl (lookUpProperty_goes hfailed)

namespace Lookup

def Names (s : Schema) (key : FieldKey) : Lookup → Prop
  | .property model field => ∃ f, s.field model field = .ok f ∧ f.key = key
  | _ => False

end Lookup

variable {lookup : Lookup}

theorem begins_perform (hnames : lookup.Names t.schema key) (hnone : m.fields.lookup key = none) :
    (lookup.perform t).Begins m (t.searchRequest key) := by
  cases lookup with
  | property model field =>
    obtain ⟨f, hf, rfl⟩ := hnames
    have hproperty : (t.property model field).Begins m (t.searchRequest f.key) :=
      .bind_of_gives (fun _ => Gives.of_except hf) ((begins_lookUpProperty hnone).bind _)
    rw [Lookup.perform, map_eq_pure_bind]
    exact hproperty.bind _
  | type model | rowTypes model | clear => exact hnames.elim

theorem gives_perform_taken (hnames : lookup.Names t.schema key) (h : Taken m key p owner) :
    (lookup.perform t).Gives m s (.error (mappedTwice p owner key)) := by
  cases lookup with
  | property model field =>
    obtain ⟨f, hf, rfl⟩ := hnames
    exact ((Gives.of_except hf).bind (gives_propertyOf_taken h)).map Found.property
  | type model | rowTypes model | clear => exact hnames.elim

/-! A lookup of something else leaves it unknown which property a field has. -/

def Action.KeepsFields {α : Type} (x : Action α) : Prop :=
  ∀ P : List (FieldKey × PropertyId) → Prop, x.Maintains .noting (fun m _ => P m.fields) fun _ => True

theorem maintains_ofClient {α : Type} (y : Client.Action α) (I : Mappings → Prop) :
    (ofClient y).Maintains .noting (fun m _ => I m) fun _ => True :=
  .of_keeps fun m _ _ hm => Dialogue.ensures_of_kept (I := fun _ => I m) hm fun _ _ _ _ h _ => h

theorem keepsFields_own (p : PropertyId) (key : FieldKey) : (own p key).KeepsFields := by
  refine fun P => .of_mappings fun m s trace hm => ?_
  split
  · exact ⟨hm, fun _ _ => trivial⟩
  · split
    · exact Maintains.of_throw _ _ m s trace hm
    · exact Maintains.of_pure trivial m s trace hm

theorem keepsFields_typeBelow (t : Tables) (model : String) (parent : Option ItemId) :
    (t.typeBelow model parent).KeepsFields := by
  refine fun P => .of_mappings fun m s trace hm => ?_
  split
  · exact ⟨hm, fun _ _ => trivial⟩
  · refine (maintains_ofClient _ fun m => P m.fields).bind (fun i _ => ?_) m s trace hm
    exact fun _ _ _ hm => ⟨hm, fun _ _ => trivial⟩

theorem keepsFields_typeItem (t : Tables) (model : String) : (t.typeItem model).KeepsFields := by
  have halong : ∀ (chain : List Model) (parent : Option ItemId), (t.typeAlong parent chain).KeepsFields := by
    intro chain
    induction chain with
    | nil => exact fun parent P => .of_pure trivial
    | cons first rest ih => exact fun parent P => (t.keepsFields_typeBelow first.name parent P).bind fun i _ => ih (some i) P
  refine fun P => (Maintains.of_except _).bind fun chain _ => (halong chain none P).bind fun found _ => ?_
  cases found with
  | some i => exact .of_pure trivial
  | none => exact .of_throw _ _

theorem keepsFields_rowTypes (t : Tables) (model : String) : (t.rowTypes model).KeepsFields := by
  have hitems : ∀ models, (t.typeItems models).KeepsFields := by
    intro models
    induction models with
    | nil => exact fun P => .of_pure trivial
    | cons model rest ih =>
      exact fun P => (t.keepsFields_typeItem model P).bind fun i _ => (ih P).bind fun is _ => .of_pure trivial
  exact fun P => (hitems _ P).bind fun items _ => .of_pure trivial

theorem unknown_lookUpProperty (t : Tables) (hne : key ≠ f.key) :
    (t.lookUpProperty f).Maintains .noting (fun m _ => m.fields.lookup key = none) fun _ => True := by
  refine .of_mappings fun m s trace hm => ?_
  split
  · exact ⟨hm, fun _ _ => trivial⟩
  · refine (maintains_ofClient _ fun m => m.fields.lookup key = none).bind (fun p _ => ?_) m s trace hm
    have hother (fields : List (FieldKey × PropertyId)) : ((f.key, p) :: fields).lookup key = fields.lookup key := by
      rw [List.lookup_cons, beq_eq_false_iff_ne.2 hne]
    exact fun m _ _ hm => ⟨(hother m.fields).trans hm, fun _ _ => trivial⟩

theorem unknown_perform (t : Tables) (hnames : ¬lookup.Names t.schema key) :
    (lookup.perform t).Maintains .noting (fun m _ => m.fields.lookup key = none) fun _ => True := by
  cases lookup with
  | property model field =>
    have hproperty : (t.property model field).Maintains .noting (fun m _ => m.fields.lookup key = none) fun _ => True := by
      refine (Maintains.of_except _).bind fun f hf => ?_
      have hne : key ≠ f.key := fun hkey => hnames ⟨f, hf, hkey.symm⟩
      refine (t.unknown_lookUpProperty hne).bind fun p _ => ?_
      exact (keepsFields_own p f.key fun fields => fields.lookup key = none).bind fun _ _ => .of_pure trivial
    rw [Lookup.perform, map_eq_pure_bind]
    exact hproperty.bind fun _ _ => .of_pure trivial
  | type model =>
    rw [Lookup.perform, map_eq_pure_bind]
    exact (t.keepsFields_typeItem model fun fields => fields.lookup key = none).bind fun _ _ => .of_pure trivial
  | rowTypes model =>
    rw [Lookup.perform, map_eq_pure_bind]
    exact (t.keepsFields_rowTypes model fun fields => fields.lookup key = none).bind fun _ _ => .of_pure trivial
  | clear => exact fun _ _ _ _ => ⟨rfl, fun _ _ => trivial⟩

theorem goes_of_map_error {α β : Type} {x : Action α} {g : α → β} (h : (g <$> x).Goes m s exchanged (.error e) m' s') :
    x.Goes m s exchanged (.error e) m' s' := by
  rw [map_eq_pure_bind] at h
  rcases goes_bind.1 h with ⟨_, _, _, _, _, -, hpure, -⟩ | ⟨_, hx, he⟩
  · exact nomatch (goes_pure.1 hpure).2.1
  · exact Except.error.inj he ▸ hx

theorem taken_of_goes {model field : String} (hf : t.schema.field model field = .ok f)
    (h : ((Lookup.property model field).perform t).Goes m s exchanged (.error e) m' s') :
    m'.fields.lookup f.key = none ∨ ∃ p owner, Taken m' f.key p owner ∧ e = mappedTwice p owner f.key := by
  have hproperty := (Gives.of_except hf).bind_goes.1 (goes_of_map_error h)
  exact (propertyOf_goes hproperty).imp_left fun ⟨hnone, hsame⟩ => hsame ▸ hnone

namespace LookupRecord

def Searches (x : LookupRecord) (t : Tables) (key : FieldKey) : Prop :=
  firstRequest? x.exchanged = some (t.searchRequest key)

end LookupRecord

namespace Runs

variable {between : List LookupRecord} {again : LookupRecord}

theorem searches (h : t.Runs m s (between ++ [again])) (hnone : m.fields.lookup key = none)
    (hbetween : ∀ x ∈ between, ¬x.lookup.Names t.schema key) (hagain : again.lookup.Names t.schema key) :
    again.Searches t key := by
  induction between generalizing m s with
  | nil =>
    cases h with
    | cons h _ => exact begins_perform hagain hnone _ _ _ _ _ h
  | cons x rest ih =>
    rw [List.forall_mem_cons] at hbetween
    cases h with
    | cons h hrest => exact ih hrest ((t.unknown_perform hbetween.1 m s [] hnone).goes h).1 hbetween.2

theorem searches_of_clear (h : t.Runs m s (between ++ [again])) (hclear : ∃ x ∈ between, x.lookup = .clear)
    (hbetween : ∀ x ∈ between, ¬x.lookup.Names t.schema key) (hagain : again.lookup.Names t.schema key) :
    again.Searches t key := by
  induction between generalizing m s with
  | nil => exact absurd hclear (by simp)
  | cons x rest ih =>
    rw [List.forall_mem_cons] at hbetween
    rw [List.exists_mem_cons_iff] at hclear
    cases h with
    | @cons _ m' _ s' lookup exchanged outcome _ h hrest =>
      rcases hclear with hclear | hclear
      · obtain rfl : lookup = .clear := hclear
        obtain rfl : m' = m.forget := by
          cases h
          rfl
        exact hrest.searches rfl hbetween.2 hagain
      · exact ih hrest hclear hbetween.2

theorem refused (h : t.Runs m s (between ++ [again])) (htaken : Taken m key p owner)
    (hclear : ∀ x ∈ between, x.lookup ≠ .clear) (hagain : again.lookup.Names t.schema key) :
    again.exchanged = [] ∧ again.outcome = .error (mappedTwice p owner key) := by
  induction between generalizing m s with
  | nil =>
    cases h with
    | cons h _ =>
      obtain ⟨rfl, -, -, rfl⟩ := (gives_perform_taken hagain htaken).goes h
      exact ⟨rfl, rfl⟩
  | cons x rest ih =>
    rw [List.forall_mem_cons] at hclear
    cases h with
    | cons h hrest =>
      have hwithin := (remembers_of_goes h hclear.1).1
      exact ih hrest ⟨hwithin.fields _ _ htaken.1, hwithin.owners _ _ htaken.2.1, htaken.2.2⟩ hclear.2

end Runs

/--
After a lookup of a known field that failed, the next lookup of the field begins with a search in the store, unless the
property that was found belongs to another field. In that case alone the property is known, and until all is forgotten the
next lookup fails in the same way without a request.
-/
theorem property_retried {model field : String} (hf : t.schema.field model field = .ok f)
    (hfailed : ((Lookup.property model field).perform t).Goes m s exchanged (.error e) m' s') {between : List LookupRecord}
    {again : LookupRecord} (hrun : t.Runs m' s' (between ++ [again]))
    (hbetween : ∀ x ∈ between, ¬x.lookup.Names t.schema f.key) (hagain : again.lookup.Names t.schema f.key) :
    ((∀ p owner, e ≠ mappedTwice p owner f.key) → again.Searches t f.key) ∧
      (again.Searches t f.key ↔ m'.fields.lookup f.key = none ∨ ∃ x ∈ between, x.lookup = .clear) ∧
      ∀ p, m'.fields.lookup f.key = some p →
        (∃ owner, m'.owners.lookup p = some owner ∧ owner ≠ f.key ∧ e = mappedTwice p owner f.key) ∧
          ((∀ x ∈ between, x.lookup ≠ .clear) → again.exchanged = [] ∧ again.outcome = .error e) := by
  have hforgotten : (∃ x ∈ between, x.lookup = .clear) → again.Searches t f.key := fun hclear =>
    hrun.searches_of_clear hclear hbetween hagain
  rcases taken_of_goes hf hfailed with hnone | ⟨p, owner, htaken, rfl⟩
  · have hsearches : again.Searches t f.key := hrun.searches hnone hbetween hagain
    refine ⟨fun _ => hsearches, iff_of_true hsearches (.inl hnone), fun p hp => ?_⟩
    exact nomatch hnone.symm.trans hp
  · have hrefused : (∀ x ∈ between, x.lookup ≠ .clear) →
        again.exchanged = [] ∧ again.outcome = .error (mappedTwice p owner f.key) := fun hclear =>
      hrun.refused htaken hclear hagain
    refine ⟨fun hother => absurd rfl (hother p owner), ⟨fun hsearches => ?_, ?_⟩, fun q hq => ?_⟩
    · by_contra hnot
      have hclear : ∀ x ∈ between, x.lookup ≠ .clear := fun x hx heq => hnot (.inr ⟨x, hx, heq⟩)
      rw [LookupRecord.Searches, (hrefused hclear).1] at hsearches
      exact nomatch hsearches
    · rintro (hnone | hclear)
      · exact nomatch hnone.symm.trans htaken.1
      · exact hforgotten hclear
    · obtain rfl := Option.some.inj (htaken.1.symm.trans hq)
      exact ⟨⟨owner, htaken.2.1, htaken.2.2, rfl⟩, hrefused⟩

section Scripted

def nicknameRetried : List LookupRecord :=
  nicknamed.scripted .empty .fresh [(.property "Person" "nick", []),
    (.property "Person" "name", [foundReply "P5" "Person.name in test"]),
    (.property "Person" "nick", [foundReply "P6" "Person.nick in test"])]

theorem property_retried_nickname : ∃ x y z, nicknameRetried = [x, y, z] ∧ x.lookup = .property "Person" "nick" ∧
    x.outcome = .error (.transport "no scripted reply left") ∧ y.lookup = .property "Person" "name" ∧
    z.lookup = .property "Person" "nick" ∧ z.Searches nicknamed ⟨"Person", "nick"⟩ := by
  have hrun : nicknamed.Runs .empty .fresh nicknameRetried := nicknamed.runs_scripted _ _ _
  have hlist : ∃ x y z, nicknameRetried = [x, y, z] ∧ (x.lookup = .property "Person" "nick" ∧
      x.outcome = .error (.transport "no scripted reply left")) ∧ y.lookup = .property "Person" "name" ∧
      z.lookup = .property "Person" "nick" := ⟨_, _, _, rfl, ⟨rfl, by decide +kernel⟩, rfl, rfl⟩
  obtain ⟨x, y, z, hlist, ⟨hx, hfailed⟩, hy, hz⟩ := hlist
  have hnick : nicknamed.schema.field "Person" "nick" = .ok ⟨"Person", ⟨"nick", .text, true, false⟩⟩ := rfl
  have hname : nicknamed.schema.field "Person" "name" = .ok ⟨"Person", ⟨"name", .text, false, true⟩⟩ := rfl
  have hbetween : ∀ w ∈ [y], ¬w.lookup.Names nicknamed.schema ⟨"Person", "nick"⟩ := by
    refine List.forall_mem_singleton.2 ?_
    rw [hy]
    rintro ⟨g, hg, hkey⟩
    obtain rfl := Except.ok.inj (hname.symm.trans hg)
    exact absurd hkey (by decide)
  refine ⟨x, y, z, hlist, hx, hfailed, hy, hz, ?_⟩
  rw [hlist] at hrun
  cases hrun with
  | @cons _ m' _ s' _ _ _ _ h hrest =>
    obtain rfl := hx
    obtain rfl := hfailed
    have hrest : nicknamed.Runs m' s' ([y] ++ [z]) := hrest
    exact (property_retried hnick h hrest hbetween (hz ▸ ⟨_, hnick, rfl⟩)).1 fun p owner => nofun

def nicknamesFound : List LookupRecord :=
  nicknamed.scripted .empty .fresh [(.property "Person" "name", [foundReply "P5" "Person.name in test"]),
    (.property "Person" "nick", [foundReply "P5" "Person.nick in test"]),
    (.property "Person" "nick", [foundReply "P6" "Person.nick in test"])]

/-- A nickname that was refused for the property of the name is refused again, though the store is not asked for its own. -/
theorem property_retried_taken : nicknamed.Runs .empty .fresh nicknamesFound ∧
    ∃ x y z, nicknamesFound = [x, y, z] ∧ y.lookup = .property "Person" "nick" ∧ z.lookup = .property "Person" "nick" ∧
      y.outcome = .error (mappedTwice ⟨5⟩ ⟨"Person", "name"⟩ ⟨"Person", "nick"⟩) ∧ z.outcome = y.outcome ∧
      z.exchanged = [] ∧ ¬z.Searches nicknamed ⟨"Person", "nick"⟩ := by
  have hlist : ∃ x y z, nicknamesFound = [x, y, z] ∧ y.lookup = .property "Person" "nick" ∧
      z.lookup = .property "Person" "nick" ∧
      y.outcome = .error (mappedTwice ⟨5⟩ ⟨"Person", "name"⟩ ⟨"Person", "nick"⟩) ∧
      z.outcome = .error (mappedTwice ⟨5⟩ ⟨"Person", "name"⟩ ⟨"Person", "nick"⟩) ∧ z.exchanged.length = 0 :=
    ⟨_, _, _, rfl, rfl, rfl, by decide +kernel, by decide +kernel, by decide +kernel⟩
  obtain ⟨x, y, z, hlist, hy, hz, hrefused, hagain, hlength⟩ := hlist
  have hnothing : z.exchanged = [] := List.eq_nil_of_length_eq_zero hlength
  refine ⟨nicknamed.runs_scripted _ _ _, x, y, z, hlist, hy, hz, hrefused, hagain.trans hrefused.symm, hnothing, ?_⟩
  rw [LookupRecord.Searches, hnothing]
  exact nofun

end Scripted

end Tables

end ClaimTables
