import Mathlib.Data.List.Nodup
import ClaimTables.Proofs.Tables.Mappings
import ClaimTables.Schema.Validation

/-!
What the checks of a schema promise: no two effective fields of a model have one name, none has the name of the
identifier, and every reference leads to a model.
-/

namespace ClaimTables

theorem ok_of_bind {ε α β : Type} {x : Except ε α} {f : α → Except ε β} {b : β} (h : x >>= f = .ok b) :
    ∃ a, x = .ok a ∧ f a = .ok b := by
  cases x with
  | error e => exact nomatch h
  | ok a => exact ⟨a, rfl, h⟩

theorem forM_eq_ok {ε α : Type} {f : α → Except ε Unit} {l : List α} (h : l.forM f = .ok ()) :
    ∀ a ∈ l, f a = .ok () := by
  induction l with
  | nil => exact fun a ha => nomatch ha
  | cons b rest ih =>
    obtain ⟨_, hb, hrest⟩ := ok_of_bind h
    intro a ha
    rcases List.mem_cons.1 ha with rfl | ha
    · exact hb
    · exact ih hrest a ha

namespace Schema

theorem forall_of_isIdentifier {name : String} (h : isIdentifier name = true) :
    ∀ c ∈ name.toList, (c.isAlphanum || c = '_') = true := by
  rw [isIdentifier] at h
  split at h
  · cases h
  · next first rest hfirst =>
    rw [hfirst]
    rw [Bool.and_eq_true, List.all_eq_true] at h
    intro c hc
    rcases List.mem_cons.1 hc with rfl | hc
    · rcases Bool.or_eq_true _ _ ▸ h.1 with halpha | hunder
      · simp [Char.isAlphanum, halpha]
      · simp [hunder]
    · exact h.2 c hc

structure FieldValid (s : Schema) (f : Field) : Prop where
  identifier : isIdentifier f.name = true
  not_id : f.name ≠ idField
  declared : ∀ target, f.type.target? = some target → s.declares target = true

theorem checkFields_eq_ok {s : Schema} {model : String} {seen : List String} {fields : List ResolvedField}
    (h : s.checkFields model seen fields = .ok ()) :
    (fields.map (·.field.name)).Nodup ∧ ∀ f ∈ fields, f.field.name ∉ seen ∧ s.FieldValid f.field := by
  induction fields generalizing seen with
  | nil => exact ⟨List.nodup_nil, fun f hf => nomatch hf⟩
  | cons f rest ih =>
    rw [checkFields] at h
    split at h
    · exact nomatch h
    · next hname =>
      simp only [Bool.or_eq_true, Bool.not_eq_true', decide_eq_true_eq, not_or, Bool.not_eq_false] at hname
      split at h
      · exact nomatch h
      · next hseen =>
        have hseen : f.field.name ∉ seen := by simpa using hseen
        have htarget : s.checkFields model (f.field.name :: seen) rest = .ok () ∧
            ∀ target, f.field.type.target? = some target → s.declares target = true := by
          split at h
          · next hnone => exact ⟨h, fun target ht => nomatch hnone.symm.trans ht⟩
          · next target hsome =>
            split at h
            · next hdeclared =>
              refine ⟨h, fun target' ht => ?_⟩
              obtain rfl := Option.some.inj (hsome.symm.trans ht)
              exact hdeclared
            · exact nomatch h
        -- A name that comes again would be among those seen when its turn comes.
        obtain ⟨hnodup, hrest⟩ := ih htarget.1
        constructor
        · rw [List.map_cons, List.nodup_cons]
          refine ⟨fun hmem => ?_, hnodup⟩
          obtain ⟨g, hg, hgf⟩ := List.mem_map.1 hmem
          exact (hrest g hg).1 (hgf ▸ List.mem_cons_self)
        · intro g hg
          rcases List.mem_cons.1 hg with rfl | hg
          · exact ⟨hseen, hname.1, hname.2, htarget.2⟩
          · exact ⟨fun hmem => (hrest g hg).1 (List.mem_cons_of_mem _ hmem), (hrest g hg).2⟩

def Valid (s : Schema) : Prop :=
  ∀ m ∈ s.models, s.checkModel m = .ok ()

theorem valid_of_ofModels {models : List Model} {s : Schema} (h : ofModels models = .ok s) : s.Valid := by
  obtain ⟨entries, _, hchecked⟩ := ok_of_bind h
  obtain ⟨_, hforM, hs⟩ := ok_of_bind hchecked
  obtain rfl := Except.ok.inj hs
  exact forM_eq_ok hforM

variable {s : Schema} {model : String} {fields : List ResolvedField}

theorem ancestry_of_fields (h : s.fields model = .ok fields) :
    ∃ chain, s.ancestry model = .ok chain ∧ fields = chain.flatMap declared := by
  unfold Schema.fields at h
  cases hchain : s.ancestry model with
  | error e =>
    rw [hchain] at h
    exact nomatch h
  | ok chain =>
    rw [hchain] at h
    exact ⟨chain, rfl, (Except.ok.inj h).symm⟩

theorem model_of_ancestry {chain : List Model} (h : s.ancestry model = .ok chain) :
    ∃ m ∈ s.models, m.name = model := by
  obtain ⟨_, m, _, hm⟩ := climb_eq_ok h
  exact ⟨m, List.mem_of_find?_eq_some (model_eq_ok hm).1, (model_eq_ok hm).2⟩

theorem exists_of_fields (h : s.fields model = .ok fields) : ∃ m ∈ s.models, m.name = model := by
  obtain ⟨chain, hchain, -⟩ := ancestry_of_fields h
  exact model_of_ancestry hchain

theorem Valid.checkFields (hs : s.Valid) (h : s.fields model = .ok fields) :
    s.checkFields model [] fields = .ok () := by
  obtain ⟨m, hm, rfl⟩ := exists_of_fields h
  obtain ⟨_, _, hrest⟩ := ok_of_bind (hs m hm)
  obtain ⟨fields', hfields', hchecked⟩ := ok_of_bind hrest
  obtain rfl := Except.ok.inj (h.symm.trans hfields')
  exact hchecked

theorem Valid.nodup (hs : s.Valid) (h : s.fields model = .ok fields) : (fields.map (·.field.name)).Nodup :=
  (checkFields_eq_ok (hs.checkFields h)).1

theorem Valid.fieldValid (hs : s.Valid) (h : s.fields model = .ok fields) {f : ResolvedField} (hf : f ∈ fields) :
    s.FieldValid f.field :=
  ((checkFields_eq_ok (hs.checkFields h)).2 f hf).2

theorem model_of_mem_climb {fuel : Nat} {chain out : List Model} {name : String}
    (h : s.climb fuel chain name = .ok out) {m : Model} (hm : m ∈ out) : m ∈ chain ∨ s.model m.name = .ok m := by
  induction fuel generalizing chain name with
  | zero => cases h
  | succ fuel ih =>
    rw [climb] at h
    split at h
    · cases h
    · next found hfound =>
      have hname : s.model found.name = .ok found := by rw [(model_eq_ok hfound).2, hfound]
      have hhere : m ∈ found :: chain → m ∈ chain ∨ s.model m.name = .ok m := by
        intro hm
        rcases List.mem_cons.1 hm with rfl | hm
        · exact .inr hname
        · exact .inl hm
      split at h
      · cases h
      · split at h
        · obtain rfl := Except.ok.inj h
          exact hhere hm
        · rcases ih h with hm | hm
          · exact hhere hm
          · exact .inr hm

theorem model_of_mem_ancestry {chain : List Model} (h : s.ancestry model = .ok chain) {m : Model} (hm : m ∈ chain) :
    s.model m.name = .ok m :=
  (model_of_mem_climb h hm).resolve_left List.not_mem_nil

def Effective (s : Schema) (f : ResolvedField) : Prop :=
  ∃ model fields, s.fields model = .ok fields ∧ f ∈ fields

theorem Effective.declared {f : ResolvedField} (h : s.Effective f) : ∃ m ∈ s.models, f ∈ declared m := by
  obtain ⟨model, fields, hfields, hf⟩ := h
  obtain ⟨chain, hchain, rfl⟩ := ancestry_of_fields hfields
  obtain ⟨m, hm, hfm⟩ := List.mem_flatMap.1 hf
  exact ⟨m, List.mem_of_find?_eq_some (model_eq_ok (model_of_mem_ancestry hchain hm)).1, hfm⟩

theorem Valid.eq_of_key_eq (hs : s.Valid) {f g : ResolvedField} (hf : s.Effective f) (hg : s.Effective g)
    (h : f.key = g.key) : f = g := by
  have hdeclared : ∀ {f}, s.Effective f → ∃ m, s.model f.declaredBy = .ok m ∧ f ∈ declared m ∧
      ∃ model fields, s.fields model = .ok fields ∧ declared m ⊆ fields := by
    rintro f ⟨model, fields, hfields, hf⟩
    obtain ⟨chain, hchain, rfl⟩ := ancestry_of_fields hfields
    obtain ⟨m, hm, hfm⟩ := List.mem_flatMap.1 hf
    obtain ⟨field, -, rfl⟩ := List.mem_map.1 hfm
    exact ⟨m, model_of_mem_ancestry hchain hm, hfm, model, _, hfields, fun g hg => List.mem_flatMap.2 ⟨m, hm, hg⟩⟩
  obtain ⟨m, hm, hfm, model, fields, hfields, hsub⟩ := hdeclared hf
  obtain ⟨m', hm', hgm, -⟩ := hdeclared hg
  have hname : f.declaredBy = g.declaredBy := congrArg FieldKey.model h
  obtain rfl : m = m' := Except.ok.inj (hm.symm.trans (hname ▸ hm'))
  exact List.inj_on_of_nodup_map (hs.nodup hfields) (hsub hfm) (hsub hgm) (congrArg FieldKey.field h)

theorem declare_eq_ok {seen entries : List (String × Model)} {models : List Model}
    (h : declare seen models = .ok entries) {e : String × Model} (he : e ∈ entries) :
    e ∈ seen ∨ isIdentifier e.2.name = true := by
  induction models generalizing seen with
  | nil =>
    obtain rfl := Except.ok.inj h
    exact .inl he
  | cons m rest ih =>
    rw [declare] at h
    split at h
    · cases h
    · next hname =>
      split at h
      · cases h
      · rcases ih h with he | he
        · rcases Keyed.mem_insert he with rfl | he
          · exact .inr (by simpa using hname)
          · exact .inl he
        · exact .inr he

theorem isIdentifier_of_ofModels {models : List Model} (h : ofModels models = .ok s) {m : Model} (hm : m ∈ s.models) :
    isIdentifier m.name = true := by
  obtain ⟨entries, hentries, hchecked⟩ := ok_of_bind h
  obtain ⟨_, -, hs⟩ := ok_of_bind hchecked
  obtain rfl := Except.ok.inj hs
  obtain ⟨e, he, rfl⟩ := List.mem_map.1 hm
  exact (declare_eq_ok hentries he).resolve_left List.not_mem_nil

end Schema

end ClaimTables
