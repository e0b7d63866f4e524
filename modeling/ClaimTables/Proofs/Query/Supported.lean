import ClaimTables.Proofs.Command.Paths
import ClaimTables.Proofs.Row.Faults
import ClaimTables.Proofs.Row.Refusals

/-!
Which queries are supported, said of the schema and of values without a word on how a query is put together. Main
statements: a query has an outline exactly if it is supported, and one that is not is refused for one of its paths.
-/

namespace ClaimTables

open Sparql (Term Test)

theorem exists_mapM_iff {ε α β : Type} {f : α → Except ε β} {l : List α} :
    (∃ out, l.mapM f = .ok out) ↔ ∀ a ∈ l, ∃ b, f a = .ok b := by
  constructor
  · rintro ⟨out, h⟩ a ha
    obtain ⟨b, -, hb⟩ := exists_of_mem_left (mapM_eq_ok h) ha
    exact ⟨b, hb⟩
  · intro h
    induction l with
    | nil => exact ⟨[], rfl⟩
    | cons a rest ih =>
      obtain ⟨⟨b, hb⟩, hrest⟩ := List.forall_mem_cons.1 h
      obtain ⟨bs, hbs⟩ := ih hrest
      exact ⟨b :: bs, by rw [List.mapM_cons, hb, hbs]; rfl⟩

theorem exists_map_iff {ε α β : Type} {r : Except ε α} {g : α → β} : (∃ b, r.map g = .ok b) ↔ ∃ a, r = .ok a := by
  cases r <;> simp [Except.map]

theorem exists_mapError_iff {ε ε' α : Type} {r : Except ε α} {g : ε → ε'} :
    (∃ a, r.mapError g = .ok a) ↔ ∃ a, r = .ok a := by
  cases r <;> simp [Except.mapError]

namespace Value

def Writable : Value → Prop
  | .null => False
  | .text _ | .boolean _ | .date _ => True
  | .number x => x.isFinite = true
  | .reference id => ∃ item, ItemId.ofText? id = some item

def Identifies : Value → Prop
  | .reference id | .text id => ∃ item, ItemId.ofText? id = some item
  | _ => False

theorem exists_ofValue_iff (v : Value) : (∃ term, Term.ofValue v = .ok term) ↔ v.Writable := by
  cases v with
  | null => simp [Term.ofValue, Writable]
  | text s | boolean b | date d => simp [Term.ofValue, Writable]
  | number x =>
    rw [Term.ofValue]
    split
    · next hx => simp [Writable, hx]
    · next hx => simp [Writable, hx]
  | reference id =>
    simp only [Term.ofValue, Writable, Claim.item]
    cases ItemId.ofText? id <;> simp [Except.map]

end Value

namespace Target

def Compares : Target → Value → Prop
  | .row, v => v.Identifies
  | .field type, v => v ≠ .null ∧ v.fits type = true ∧ v.Writable

def Ordered (target : Target) : Prop :=
  target = .field .text ∨ target = .field .number ∨ target = .field .date

theorem isOrdered_iff (target : Target) : Condition.isOrdered target = true ↔ target.Ordered := by
  cases target with
  | row => simp [Condition.isOrdered, Ordered]
  | field type => cases type <;> simp [Condition.isOrdered, FieldType.isOrdered, Ordered]

end Target

namespace Condition

def Applies (target : Target) : Condition → Prop
  | .compare .equal v | .compare .different v => target.Compares v
  | .compare .less v | .compare .atMost v | .compare .greater v | .compare .atLeast v =>
    target.Ordered ∧ target.Compares v
  | .oneOf values => ∀ v ∈ values, target.Compares v
  | .isNull _ => target ≠ .row

variable {refuse : String → Error} {target : Target}

theorem exists_term_iff (v : Value) : (∃ t, term refuse target v = .ok t) ↔ target.Compares v := by
  cases target with
  | row =>
    cases v with
    | reference id | text id => exact exists_mapError_iff.trans (Value.exists_ofValue_iff (.reference id))
    | null | boolean _ | number _ | date _ => simp [term, rowTerm, Target.Compares, Value.Identifies]
  | field type =>
    have hnull : v.isNull = true ↔ v = .null := by cases v <;> simp [Value.isNull]
    simp only [term, Bool.or_eq_true, Bool.not_eq_true', hnull, Target.Compares]
    split
    · next hrefused =>
      rcases hrefused with rfl | hfits
      · simp
      · simp [hfits]
    · next hpassed =>
      rw [not_or, Bool.not_eq_false] at hpassed
      rw [exists_mapError_iff, Value.exists_ofValue_iff]
      exact ⟨fun h => ⟨hpassed.1, hpassed.2, h⟩, fun h => h.2.2⟩

theorem applies_compare_iff (comparison : Comparison) (v : Value) :
    Applies target (.compare comparison v) ↔
      (comparison.isRange = true → target.Ordered) ∧ target.Compares v := by
  cases comparison <;> simp [Applies, Comparison.isRange]

theorem exists_test_iff (refuse : String → Error) (c : Condition) : (∃ t, c.test refuse target = .ok t) ↔ c.Applies target := by
  cases c with
  | compare comparison v =>
    rw [applies_compare_iff, test]
    split
    · next hrefused =>
      rw [Bool.and_eq_true, Bool.not_eq_true'] at hrefused
      have hunordered : ¬target.Ordered := by simp [← Target.isOrdered_iff, hrefused.2]
      simp [hrefused.1, hunordered]
    · next hpassed =>
      rw [Bool.and_eq_true, Bool.not_eq_true', not_and, Bool.not_eq_false, Target.isOrdered_iff] at hpassed
      rw [exists_map_iff, exists_term_iff]
      exact (and_iff_right hpassed).symm
  | oneOf values =>
    cases values with
    | nil => exact iff_of_true ⟨_, rfl⟩ fun v hv => absurd hv List.not_mem_nil
    | cons v rest =>
      rw [test]
      · exact exists_map_iff.trans (exists_mapM_iff.trans (forall₂_congr fun v _ => exists_term_iff v))
      · exact List.cons_ne_nil v rest
  | isNull expected =>
    cases target <;> simp [test, Applies]

end Condition

def Path.Reaches (s : Schema) (model path : String) (target : Target) : Prop :=
  ∃ steps, Walks s model steps target ∧ Path.segments path = Path.spelled steps target

def Filter.Supported (s : Schema) (model : String) (f : Filter) : Prop :=
  ∃ target, Path.Reaches s model f.path target ∧ f.condition.Applies target

def SortKey.Supported (s : Schema) (model : String) (k : SortKey) : Prop :=
  ∃ target, Path.Reaches s model k.path target

structure Query.Supported (s : Schema) (model : String) (q : Query) (counting : Bool) : Prop where
  filters : ∀ f ∈ q.filters, f.Supported s model
  order : ∀ k ∈ q.orderFor counting, k.Supported s model

section Outline

variable {s : Schema} {model : String}

theorem exists_reached_iff (hs : s.Valid) {path : String} {P : Reached → Prop} :
    (∃ r, (Path.walk s model path).reached = .ok r ∧ P r) ↔
      ∃ target steps, (Walks s model steps target ∧ Path.segments path = Path.spelled steps target) ∧ P ⟨steps, target⟩ := by
  simp only [← Path.walk_eq_ok_iff hs, Walk.reached]
  obtain ⟨steps, ending⟩ := Path.walk s model path
  cases ending with
  | error e => simp [Except.map]
  | ok target => simp [Except.map, and_assoc]

theorem Filter.exists_read_iff (hs : s.Valid) (f : Filter) : (∃ e, f.read s model = .ok e) ↔ f.Supported s model := by
  have hread : (∃ e, f.read s model = .ok e) ↔ ∃ r, (Path.walk s model f.path).reached = .ok r ∧
      f.condition.Applies r.target := by
    constructor
    · rintro ⟨e, h⟩
      obtain ⟨r, hr, h⟩ := ok_of_bind h
      obtain ⟨t, ht, -⟩ := ok_of_bind h
      exact ⟨r, hr, (Condition.exists_test_iff _ _).1 ⟨t, ht⟩⟩
    · rintro ⟨r, hr, happlies⟩
      obtain ⟨t, ht⟩ := (Condition.exists_test_iff (.unsupportedQuery model f.path) _).2 happlies
      exact ⟨(r, t), by rw [Filter.read, hr]; dsimp only [bind, Except.bind]; rw [ht]⟩
  rw [hread, exists_reached_iff hs]
  simp only [Filter.Supported, Path.Reaches, exists_and_right]

theorem SortKey.exists_read_iff (hs : s.Valid) (k : SortKey) : (∃ e, k.read s model = .ok e) ↔ k.Supported s model := by
  have hreached : (∃ r, (Path.walk s model k.path).reached = .ok r ∧ True) ↔ _ := exists_reached_iff hs
  simp only [and_true] at hreached
  exact exists_map_iff.trans hreached

theorem Query.exists_outline_iff (hs : s.Valid) (fields : List ResolvedField) (q : Query) (counting : Bool) :
    (∃ o, q.outline s model fields counting = .ok o) ↔ q.Supported s model counting := by
  have hparts : (∃ o, q.outline s model fields counting = .ok o) ↔
      (∃ filters, q.filters.mapM (Filter.read s model) = .ok filters) ∧
        ∃ order, (q.orderFor counting).mapM (SortKey.read s model) = .ok order := by
    constructor
    · rintro ⟨o, h⟩
      obtain ⟨filters, hfilters, h⟩ := ok_of_bind h
      obtain ⟨order, horder, -⟩ := ok_of_bind h
      exact ⟨⟨filters, hfilters⟩, order, horder⟩
    · rintro ⟨⟨filters, hfilters⟩, order, horder⟩
      exact ⟨_, by rw [Query.outline, hfilters]; dsimp only [bind, Except.bind]; rw [horder]⟩
  rw [hparts, exists_mapM_iff, exists_mapM_iff]
  constructor
  · exact fun h => ⟨fun f hf => (f.exists_read_iff hs).1 (h.1 f hf), fun k hk => (k.exists_read_iff hs).1 (h.2 k hk)⟩
  · exact fun h => ⟨fun f hf => (f.exists_read_iff hs).2 (h.filters f hf), fun k hk => (k.exists_read_iff hs).2 (h.order k hk)⟩

end Outline

/-! A query that is not supported is refused for one of its paths. -/

def Error.RefusesPath (model : String) (paths : List String) : Error → Prop
  | .unsupportedQuery model' path _ => model' = model ∧ path ∈ paths
  | .unmappedField _ name => ∃ path ∈ paths, name ∈ Path.segments path
  | _ => False

section Refusing

variable {s : Schema} {model current path : String} {paths : List String} {fields : List ResolvedField}

theorem Schema.field_eq_error {name : String} {e : Error} (hfields : s.fields model = .ok fields)
    (h : s.field model name = .error e) : e = .unmappedField model name := by
  rw [field, hfields] at h
  dsimp only [bind, Except.bind] at h
  split at h
  · cases h
  · exact (Except.error.inj h).symm

theorem Schema.Valid.fields_of_target (hs : s.Valid) {f : ResolvedField} {name target : String}
    (hf : s.field model name = .ok f) (htarget : f.field.type.target? = some target) :
    ∃ fields, s.fields target = .ok fields := by
  obtain ⟨fields, hfields, hmem, -⟩ := Schema.field_eq_ok hf
  cases h : s.fields target with
  | ok fields => exact ⟨fields, rfl⟩
  | error e =>
    have hdeclared := (hs.fieldValid hfields hmem).declared target htarget
    rw [Schema.declares, (hs.unknown_of_fields h).1] at hdeclared
    cases hdeclared

theorem refusesPath_follow (hs : s.Valid) (hpath : path ∈ paths) {segments : List String}
    (hsegments : segments ⊆ Path.segments path) (hcurrent : ∃ fields, s.fields current = .ok fields) :
    FailsAs (Error.RefusesPath model paths) (Path.follow s model path current segments).ending := by
  induction segments generalizing current with
  | nil => exact failsAs_error ⟨rfl, hpath⟩
  | cons segment rest ih =>
    rw [List.cons_subset] at hsegments
    obtain ⟨fields, hfields⟩ := hcurrent
    rw [Path.follow]
    split
    · exact failsAs_ok _
    · cases hf : s.field current segment with
      | error e =>
        obtain rfl := Schema.field_eq_error hfields hf
        exact failsAs_error ⟨path, hpath, hsegments.1⟩
      | ok f =>
        dsimp only
        split
        · exact failsAs_ok _
        · split
          · exact failsAs_error ⟨rfl, hpath⟩
          · next target htarget => exact ih hsegments.2 (hs.fields_of_target hf htarget)

theorem refusesPath_reached (hs : s.Valid) (hpath : path ∈ paths) (hfields : s.fields model = .ok fields) :
    FailsAs (Error.RefusesPath model paths) (Path.walk s model path).reached := by
  refine FailsAs.map ?_ _
  unfold Path.walk
  split
  · exact failsAs_ok _
  · split
    · exact failsAs_error ⟨rfl, hpath⟩
    · exact refusesPath_follow hs hpath (List.Subset.refl _) ⟨fields, hfields⟩

theorem refusesPath_outline (hs : s.Valid) (hfields : s.fields model = .ok fields) (q : Query) (counting : Bool) :
    FailsAs (Error.RefusesPath model (q.paths counting)) (q.outline s model fields counting) := by
  have hfilter : ∀ f ∈ q.filters, FailsAs (Error.RefusesPath model (q.paths counting)) (Filter.read s model f) := by
    intro f hf
    have hpath : f.path ∈ q.paths counting := List.mem_append_left _ (List.mem_map_of_mem hf)
    refine (refusesPath_reached hs hpath hfields).bind fun reached => ?_
    exact (failsAs_test (fun _ => ⟨rfl, hpath⟩) reached.target f.condition).bind fun test => failsAs_ok _
  have hsort : ∀ k ∈ q.orderFor counting, FailsAs (Error.RefusesPath model (q.paths counting)) (SortKey.read s model k) := by
    intro k hk
    exact (refusesPath_reached hs (List.mem_append_right _ (List.mem_map_of_mem hk)) hfields).map _
  exact (FailsAs.mapM_mem hfilter).bind fun filters => (FailsAs.mapM_mem hsort).bind fun order => failsAs_ok _

end Refusing

end ClaimTables
