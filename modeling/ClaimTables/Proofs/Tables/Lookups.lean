import ClaimTables.Proofs.Exchange.Paths
import ClaimTables.Proofs.Schema.Hierarchy
import ClaimTables.Proofs.Tables.Outcome
import ClaimTables.Proofs.Tables.Twins

/-!
Runs of lookups. Properties of fields and items of models are asked for in turn, whether that fails or not, and all
mappings may be forgotten in between. Main statement: as long as they are not, a property is found for one field only,
and a field whose property was found has it without asking, for every model that inherits the field.
-/

namespace ClaimTables.Tables

open Tables.Action

inductive Lookup where
  | property (model field : String)
  | type (model : String)
  | rowTypes (model : String)
  | clear
deriving DecidableEq

inductive Found where
  | property (p : PropertyId)
  | type (i : ItemId)
  | rowTypes (items : List ItemId)
  | nothing
deriving DecidableEq

def Lookup.perform (t : Tables) : Lookup → Action Found
  | property model field => .property <$> t.property model field
  | type model => .type <$> t.typeItem model
  | rowTypes model => .rowTypes <$> t.rowTypes model
  | clear => (fun _ => .nothing) <$> Tables.clear

structure LookupRecord where
  lookup : Lookup
  exchanged : List Exchange
  outcome : Except Error Found

inductive Runs (t : Tables) : Mappings → Session → List LookupRecord → Prop
  | nil (m : Mappings) (s : Session) : Runs t m s []
  | cons {m m' : Mappings} {s s' : Session} {lookup : Lookup} {exchanged : List Exchange} {outcome : Except Error Found}
    {rest : List LookupRecord} (h : (lookup.perform t).Goes m s exchanged outcome m' s') (hrest : Runs t m' s' rest) :
    Runs t m s (⟨lookup, exchanged, outcome⟩ :: rest)

namespace LookupRecord

def Finds (x : LookupRecord) (lookup : Lookup) (found : Found) : Prop :=
  x.lookup = lookup ∧ x.outcome = .ok found

def Resolves (x : LookupRecord) (s : Schema) (key : FieldKey) (p : PropertyId) : Prop :=
  ∃ model f, s.field model key.field = .ok f ∧ f.declaredBy = key.model ∧
    x.Finds (.property model key.field) (.property p)

def Recalls (x : LookupRecord) (lookup : Lookup) (found : Found) : Prop :=
  x.lookup = lookup → x.outcome = .ok found ∧ x.exchanged = []

end LookupRecord

variable {t : Tables} {m m' : Mappings} {s s' : Session} {lookup : Lookup} {exchanged : List Exchange}
  {outcome : Except Error Found} {records epoch : List LookupRecord}

namespace Runs

theorem of_append {before after : List LookupRecord} (h : t.Runs m s (before ++ after)) :
    t.Runs m s before ∧ ∃ m' s', t.Runs m' s' after := by
  induction before generalizing m s with
  | nil => exact ⟨.nil m s, m, s, h⟩
  | cons x rest ih =>
    cases h with
    | cons h hrest => exact ⟨.cons h (ih hrest).1, (ih hrest).2⟩

theorem of_infix (h : t.Runs m s records) (hepoch : epoch <:+: records) : ∃ m s, t.Runs m s epoch := by
  obtain ⟨before, after, rfl⟩ := hepoch
  obtain ⟨m', s', h'⟩ := (of_append h).1.of_append.2
  exact ⟨m', s', h'⟩

end Runs

structure Remembers (t : Tables) (m : Mappings) (x : LookupRecord) : Prop where
  property : ∀ key p, x.Resolves t.schema key p → m.fields.lookup key = some p ∧ m.owners.lookup p = some key
  type : ∀ model i, x.Finds (.type model) (.type i) → m.types.lookup model = some i
  rowTypes : ∀ model items, x.Finds (.rowTypes model) (.rowTypes items) →
    m.Lists (model :: (t.schema.descendants model).map (·.name)) items

theorem Remembers.within {x : LookupRecord} (h : t.Remembers m x) (hwithin : m.Within m') : t.Remembers m' x where
  property key p hx := ⟨hwithin.fields _ _ (h.property key p hx).1, hwithin.owners _ _ (h.property key p hx).2⟩
  type model i hx := hwithin.types _ _ (h.type model i hx)
  rowTypes model items hx := (h.rowTypes model items hx).within hwithin

theorem key_of_field {schema : Schema} {model name : String} {f : ResolvedField} (h : schema.field model name = .ok f) :
    f.key = ⟨f.declaredBy, name⟩ := by
  obtain ⟨_, _, _, rfl⟩ := Schema.field_eq_ok h
  rfl

theorem gains_property {W : Type} {world : World W} {w : W} (t : Tables) (model field : String) :
    (t.property model field).Gains world m s w fun p m' => ∃ f, t.schema.field model field = .ok f ∧
      m'.fields.lookup f.key = some p ∧ m'.owners.lookup p = some f.key := by
  refine (Gains.of_except _).bind fun f m₁ s₁ w₁ _ hf => (t.gains_propertyOf f).mono fun p m₂ _ hp => ?_
  exact ⟨f, hf.1, hp⟩

theorem Action.Gives.goes {α : Type} {x : Action α} {r r' : Except Error α} (hx : x.Gives m s r)
    (h : x.Goes m s exchanged r' m' s') : r' = r ∧ m' = m ∧ s' = s ∧ exchanged = [] := by
  rw [Goes, hx] at h
  cases h
  exact ⟨rfl, rfl, rfl, rfl⟩

theorem remembers_of_goes (h : (lookup.perform t).Goes m s exchanged outcome m' s') (hclear : lookup ≠ .clear) :
    m.Within m' ∧ t.Remembers m' ⟨lookup, exchanged, outcome⟩ := by
  -- One case for each lookup: what it gains is what the record says that it found.
  cases lookup with
  | property model field =>
    obtain ⟨hwithin, hfound⟩ := ((t.gains_property model field).map Found.property).goes h
    refine ⟨hwithin, ?_, by simp [LookupRecord.Finds], by simp [LookupRecord.Finds]⟩
    rintro key p ⟨model', f, hf, howner, hlookup, rfl⟩
    obtain ⟨q, hq, g, hg, hknown⟩ := hfound _ rfl
    obtain ⟨rfl, hfield⟩ : model = model' ∧ field = key.field := by simpa using hlookup
    obtain rfl := Except.ok.inj (hg.symm.trans (hfield ▸ hf))
    cases hq
    rw [key_of_field hf, howner] at hknown
    exact hknown
  | type model =>
    obtain ⟨hwithin, hfound⟩ := ((t.gains_typeItem model).map Found.type).goes h
    refine ⟨hwithin, by simp [LookupRecord.Resolves, LookupRecord.Finds], ?_, by simp [LookupRecord.Finds]⟩
    rintro _ i ⟨⟨⟩, rfl⟩
    obtain ⟨j, hj, hknown⟩ := hfound _ rfl
    cases hj
    exact hknown
  | rowTypes model =>
    obtain ⟨hwithin, hfound⟩ := ((t.gains_rowTypes model).map Found.rowTypes).goes h
    refine ⟨hwithin, by simp [LookupRecord.Resolves, LookupRecord.Finds], by simp [LookupRecord.Finds], ?_⟩
    rintro _ items ⟨⟨⟩, rfl⟩
    obtain ⟨items', hitems, hknown⟩ := hfound _ rfl
    cases hitems
    exact hknown
  | clear => exact absurd rfl hclear

namespace Runs

theorem remembers (h : t.Runs m s epoch) (hclear : ∀ x ∈ epoch, x.lookup ≠ .clear) :
    ∃ last, m.Within last ∧ ∀ x ∈ epoch, t.Remembers last x := by
  induction h with
  | nil m s => exact ⟨m, .refl m, by simp⟩
  | cons h _ ih =>
    rw [List.forall_mem_cons] at hclear
    obtain ⟨hwithin, hremembers⟩ := remembers_of_goes h hclear.1
    obtain ⟨last, hrest, hall⟩ := ih hclear.2
    exact ⟨last, hwithin.trans hrest, List.forall_mem_cons.2 ⟨hremembers.within hrest, hall⟩⟩

theorem recalls (h : t.Runs m s epoch) (hclear : ∀ x ∈ epoch, x.lookup ≠ .clear) {lookup : Lookup} {found : Found}
    (hgives : ∀ m', m.Within m' → ∀ s, (lookup.perform t).Gives m' s (.ok found)) : ∀ y ∈ epoch, y.Recalls lookup found := by
  induction h with
  | nil => simp
  | @cons m m' s s' lookup exchanged outcome rest h _ ih =>
    rw [List.forall_mem_cons] at hclear
    refine List.forall_mem_cons.2 ⟨?_, ih hclear.2 fun m'' hwithin => hgives m'' ?_⟩
    · rintro rfl
      obtain ⟨rfl, rfl, rfl, rfl⟩ := (hgives m (.refl m) s).goes h
      exact ⟨rfl, rfl⟩
    · exact (remembers_of_goes h hclear.1).1.trans hwithin

theorem settled {models : List Model} (hschema : Schema.ofModels models = .ok t.schema) (h : t.Runs m s epoch)
    (hclear : ∀ x ∈ epoch, x.lookup ≠ .clear) : epoch.Pairwise fun x y => ∀ key p, x.Resolves t.schema key p →
      ∀ model ∈ key.model :: (t.schema.descendants key.model).map (·.name),
        y.Recalls (.property model key.field) (.property p) := by
  induction h with
  | nil => exact .nil
  | cons h hrest ih =>
    rw [List.forall_mem_cons] at hclear
    refine List.pairwise_cons.2 ⟨fun y hy key p hresolves model hmodel => ?_, ih hclear.2⟩
    obtain ⟨hp, howner⟩ := (remembers_of_goes h hclear.1).2.property key p hresolves
    obtain ⟨_, f, hf, hdeclared, -⟩ := hresolves
    have hinherited : t.schema.field model key.field = .ok f :=
      (Schema.valid_of_ofModels hschema).field_of_descendant (Schema.nodup_of_ofModels hschema) hf (hdeclared ▸ hmodel)
    obtain rfl : f.key = key := by
      rw [key_of_field hf, hdeclared]
    refine hrest.recalls hclear.2 (fun m' hwithin s => ?_) y hy
    have hgives := gives_propertyOf (t := t) (s := s) (hwithin.fields _ _ hp) (hwithin.owners _ _ howner)
    exact ((Gives.of_except hinherited).bind hgives).map Found.property

end Runs

/--
As long as nothing is forgotten, two lookups find one property if and only if they name one field of the model that
declares it; and once the property of a field was found, it is found without a request whenever the field is named
through the model that declares it or any descendant.
-/
theorem property_found_once {models : List Model} (hschema : Schema.ofModels models = .ok t.schema)
    (hrun : t.Runs m s records) (hepoch : epoch <:+: records) (hclear : ∀ x ∈ epoch, x.lookup ≠ .clear) :
    (∀ x ∈ epoch, ∀ y ∈ epoch, ∀ key p key' p', x.Resolves t.schema key p → y.Resolves t.schema key' p' →
      (p = p' ↔ key = key')) ∧
    epoch.Pairwise fun x y => ∀ key p, x.Resolves t.schema key p →
      ∀ model ∈ key.model :: (t.schema.descendants key.model).map (·.name),
        y.Recalls (.property model key.field) (.property p) := by
  obtain ⟨m, s, hepoch⟩ := hrun.of_infix hepoch
  refine ⟨fun x hx y hy key p key' p' hresolves hresolves' => ?_, hepoch.settled hschema hclear⟩
  obtain ⟨last, -, hremembers⟩ := hepoch.remembers hclear
  obtain ⟨hp, howner⟩ := (hremembers x hx).property key p hresolves
  obtain ⟨hp', howner'⟩ := (hremembers y hy).property key' p' hresolves'
  constructor
  · rintro rfl
    exact Option.some.inj (howner.symm.trans howner')
  · rintro rfl
    exact Option.some.inj (hp.symm.trans hp')

section Scripted

def scripted (t : Tables) : Mappings → Session → List (Lookup × List ScriptedReply) → List LookupRecord
  | _, _, [] => []
  | m, s, (lookup, replies) :: rest =>
    let (((r, m'), s'), trace) := Dialogue.follow (((lookup.perform t).run.run m).run s) (.start replies 0 "") []
    ⟨lookup, trace, r⟩ :: t.scripted m' s' rest

theorem runs_scripted (t : Tables) (m : Mappings) (s : Session) (lookups : List (Lookup × List ScriptedReply)) :
    t.Runs m s (t.scripted m s lookups) := by
  induction lookups generalizing m s with
  | nil => exact .nil m s
  | cons first rest ih =>
    obtain ⟨lookup, replies⟩ := first
    exact .cons (Dialogue.goes_followed _ _) (ih _ _)

def authorTables : Tables :=
  ⟨⟨"Admin@wikigraph", "secret", 3, "en"⟩, ⟨[⟨"Author", some "Person", [⟨"pen", .text, true, false⟩]⟩,
    ⟨"Person", none, [⟨"name", .text, false, false⟩]⟩]⟩, ⟨"test"⟩, ⟨⟨1⟩, ⟨2⟩, ⟨3⟩, ⟨4⟩⟩, "https://wiki.test", false, "Item:"⟩

def namesFound : List LookupRecord :=
  authorTables.scripted .empty .fresh [(.property "Author" "name", [foundReply "P5" "Person.name in test"]),
    (.property "Person" "name", []), (.property "Author" "pen", [foundReply "P5" "Author.pen in test"])]

theorem property_found_once_author : Schema.ofModels authorTables.schema.models = .ok authorTables.schema ∧
    authorTables.Runs .empty .fresh namesFound ∧ (∀ x ∈ namesFound, x.lookup ≠ .clear) ∧
    ∃ x y z, namesFound = [x, y, z] ∧ x.Finds (.property "Author" "name") (.property ⟨5⟩) ∧
      y.Finds (.property "Person" "name") (.property ⟨5⟩) ∧ y.exchanged = [] ∧
      z.lookup = .property "Author" "pen" ∧ z.outcome ≠ .ok (.property ⟨5⟩) := by
  have hschema : Schema.ofModels authorTables.schema.models = .ok authorTables.schema := rfl
  have hrun : authorTables.Runs .empty .fresh namesFound := authorTables.runs_scripted _ _ _
  have hclear : ∀ x ∈ namesFound, x.lookup ≠ .clear := by decide +kernel
  obtain ⟨hinjective, hsettled⟩ := property_found_once hschema hrun (List.infix_refl namesFound) hclear
  have hlist : ∃ x y z, namesFound = [x, y, z] ∧ x.Finds (.property "Author" "name") (.property ⟨5⟩) ∧
      y.lookup = .property "Person" "name" ∧ z.lookup = .property "Author" "pen" :=
    ⟨_, _, _, rfl, ⟨rfl, by decide +kernel⟩, rfl, rfl⟩
  obtain ⟨x, y, z, hlist, hx, hy, hz⟩ := hlist
  rw [hlist] at hinjective hsettled
  have hresolves : x.Resolves authorTables.schema ⟨"Person", "name"⟩ ⟨5⟩ := ⟨"Author", _, rfl, rfl, hx⟩
  obtain ⟨houtcome, hnone⟩ := (List.pairwise_cons.1 hsettled).1 y (by simp) _ _ hresolves "Person" (by simp) hy
  refine ⟨hschema, hrun, hclear, x, y, z, hlist, hx, ⟨hy, houtcome⟩, hnone, hz, fun hsame => ?_⟩
  have hpen : z.Resolves authorTables.schema ⟨"Author", "pen"⟩ ⟨5⟩ := ⟨"Author", _, rfl, rfl, hz, hsame⟩
  have hkeys := (hinjective x (by simp) z (by simp) _ _ _ _ hresolves hpen).1 rfl
  exact absurd hkeys (by decide)

end Scripted

end ClaimTables.Tables
