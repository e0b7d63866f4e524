import ClaimTables.Command.Filter
import ClaimTables.Proofs.Query.Outline
import ClaimTables.Proofs.Row.Encodable
import ClaimTables.Proofs.Schema.Acceptance
import ClaimTables.Proofs.Text.Pieces

/-!
Which paths there are, for queries and for the command line. A path leads through references to a field, or with the name
of the identifier behind them to a row. Main statement: the command line finds a type for a path exactly if a query can
follow it, and then that of the field at its end, or none for a row.
-/

namespace ClaimTables

open Joins (names)

theorem Target.type?_inj {target other : Target} : target.type? = other.type? ↔ target = other := by
  cases target <;> cases other <;> simp [Target.type?]

theorem exists_error_iff {ε α : Type} {x : Except ε α} : (∃ e, x = .error e) ↔ ∀ a, x ≠ .ok a := by
  cases x <;> simp

namespace Path

def spelled (steps : List ResolvedField) : Target → List String
  | .row => names steps ++ [Schema.idField]
  | .field _ => names steps

variable {s : Schema} {model current path : String} {steps : List ResolvedField} {target : Target} {segments : List String}

theorem spelled_cons (f : ResolvedField) (steps : List ResolvedField) (target : Target) :
    spelled (f :: steps) target = f.field.name :: spelled steps target := by
  cases target <;> rfl

theorem spelled_ne_nil (h : Walks s model steps target) : spelled steps target ≠ [] := by
  cases h with
  | row => exact List.cons_ne_nil _ _
  | field => exact List.cons_ne_nil _ _
  | follow =>
    rw [spelled_cons]
    exact List.cons_ne_nil _ _

theorem not_id_of_field (hs : s.Valid) {f : ResolvedField} (hf : s.field model f.field.name = .ok f) :
    f.field.name ≠ Schema.idField := by
  obtain ⟨fields, hfields, hmem, -⟩ := Schema.field_eq_ok hf
  exact (hs.fieldValid hfields hmem).not_id

theorem follow_of_walks (hs : s.Valid) (h : Walks s current steps target) :
    follow s model path current (spelled steps target) = ⟨steps, .ok target⟩ := by
  induction h with
  | row => exact if_pos ⟨rfl, rfl⟩
  | field hf =>
    rw [spelled_cons, follow, if_neg fun h => not_id_of_field hs hf h.1, hf]
    exact if_pos rfl
  | follow hf hnext hrest ih =>
    rw [spelled_cons, follow, if_neg fun h => not_id_of_field hs hf h.1, hf]
    dsimp only
    rw [if_neg (spelled_ne_nil hrest), hnext]
    dsimp only
    rw [ih]

theorem spelled_of_follow (h : follow s model path current segments = ⟨steps, .ok target⟩) :
    segments = spelled steps target := by
  induction segments generalizing current steps with
  | nil => exact nomatch (Walk.mk.inj h).2
  | cons segment rest ih =>
    rcases follow_eq_ok h with ⟨rfl, rfl, rfl, rfl⟩ | ⟨f, -, -, rfl, ⟨rfl, rfl, rfl⟩ | ⟨next, later, -, -, rfl, hlater⟩⟩
    · rfl
    · rfl
    · rw [spelled_cons, ← ih hlater]

theorem isIdentifier_of_mem_spelled (hs : s.Valid) (h : Walks s model steps target) :
    ∀ segment ∈ spelled steps target, Schema.isIdentifier segment = true := by
  cases target with
  | field type => exact h.isIdentifier hs
  | row =>
    intro segment hsegment
    rcases List.mem_append.1 hsegment with hsegment | hsegment
    · exact h.isIdentifier hs segment hsegment
    · rw [List.mem_singleton.1 hsegment]
      rfl

theorem ne_empty_of_mem_spelled (hs : s.Valid) (h : Walks s model steps target) :
    ∀ segment ∈ spelled steps target, segment.isEmpty = false := fun segment hsegment =>
  (segments_of_isIdentifier (isIdentifier_of_mem_spelled hs h segment hsegment)).2

theorem walk_eq_ok_iff (hs : s.Valid) : walk s model path = ⟨steps, .ok target⟩ ↔
    Walks s model steps target ∧ Path.segments path = spelled steps target := by
  constructor
  · intro h
    have hfollow := follow_of_walk h
    exact ⟨walks_of_follow hfollow, spelled_of_follow hfollow⟩
  · rintro ⟨h, hsegments⟩
    have hfollow : follow s model path model (Path.segments path) = ⟨steps, .ok target⟩ := by
      rw [hsegments]
      exact follow_of_walks hs h
    rw [walk]
    split
    · next hpath =>
      rw [← hfollow, hpath]
      exact (if_pos ⟨rfl, rfl⟩ : follow s model Schema.idField model [Schema.idField] = _).symm
    · have hnonempty : ¬(Path.segments path).any (·.isEmpty) = true := by
        rw [hsegments, List.any_eq_true]
        rintro ⟨segment, hsegment, hempty⟩
        exact Bool.false_ne_true ((ne_empty_of_mem_spelled hs h segment hsegment).symm.trans hempty)
      rw [if_neg hnonempty]
      exact hfollow

theorem ending_eq_ok_iff (hs : s.Valid) : (walk s model path).ending = .ok target ↔
    ∃ steps, Walks s model steps target ∧ Path.segments path = spelled steps target := by
  constructor
  · exact fun h => ⟨_, (walk_eq_ok_iff hs).1 (congrArg (Walk.mk (walk s model path).steps) h)⟩
  · rintro ⟨steps, h⟩
    rw [(walk_eq_ok_iff hs).2 h]

def Character (c : Char) : Prop :=
  (Schema.Letter c ∨ ('0' ≤ c ∧ c ≤ '9') ∨ c = '_') ∨ c = '.'

theorem Character.toNat {c : Char} (h : Character c) : 46 ≤ c.toNat ∧ c.toNat ≤ 57 ∨ 65 ≤ c.toNat ∧ c.toNat ≤ 122 := by
  simp only [Character, Schema.Letter, Char.le_def, UInt32.le_iff_toNat_le] at h
  rcases h with (((⟨hlower, hupper⟩ | ⟨hlower, hupper⟩) | ⟨hlower, hupper⟩ | rfl) | rfl)
  · exact .inr ⟨hlower, hupper.trans (by decide)⟩
  · exact .inr ⟨Nat.le_trans (by decide) hlower, hupper⟩
  · exact .inl ⟨Nat.le_trans (by decide) hlower, hupper⟩
  · exact .inr (by decide)
  · exact .inl (by decide)

theorem Character.not_blank {c : Char} (h : Character c) : Text.isBlank c = false := by
  have hrange := h.toNat
  simp only [Text.isBlank, Bool.or_eq_false_iff, Bool.and_eq_false_iff, beq_eq_false_iff_ne, decide_eq_false_iff_not]
  omega

theorem character_of_spelled (hs : s.Valid) (h : Walks s model steps target) (hpath : Path.segments path = spelled steps target) :
    path.toList ≠ [] ∧ ∀ c ∈ path.toList, Character c := by
  constructor
  · intro hempty
    have hmem : "" ∈ spelled steps target := by
      rw [← hpath, Path.segments, hempty]
      exact List.mem_singleton_self _
    exact Bool.false_ne_true ((ne_empty_of_mem_spelled hs h "" hmem).symm.trans rfl)
  · intro c hc
    by_cases hdot : c = '.'
    · exact .inr hdot
    · have hjoined : ['.'].intercalate (path.toList.splitOn '.') = path.toList := List.intercalate_splitOn '.'
      rw [← hjoined, mem_intercalate (by simpa using hdot)] at hc
      obtain ⟨segment, hsegment, hc⟩ := hc
      have hmem : String.ofList segment ∈ spelled steps target := hpath ▸ List.mem_map_of_mem hsegment
      have hname := Schema.forall_of_isIdentifier (isIdentifier_of_mem_spelled hs h _ hmem) c
      rw [String.toList_ofList] at hname
      exact .inl (Schema.follows_iff.1 (hname hc))

end Path

namespace Command

variable {s : Schema} {model current path : String} {steps : List ResolvedField} {target : Target}
  {segments : List String} {type : Option FieldType}

theorem typeAlong_of_walks (hs : s.Valid) (h : Walks s current steps target) :
    typeAlong s path current (Path.spelled steps target) = .ok target.type? := by
  induction h with
  | row =>
    rw [Path.spelled, names, List.map_nil, List.nil_append, typeAlong, if_pos ⟨rfl, rfl⟩]
    rfl
  | field hf =>
    rw [Path.spelled_cons, typeAlong, if_neg fun h => Path.not_id_of_field hs hf h.1, hf]
    rfl
  | @follow model next f rest target hf hnext hrest ih =>
    rw [Path.spelled_cons, typeAlong, if_neg fun h => Path.not_id_of_field hs hf h.1, hf]
    obtain ⟨segment, more, hspelled⟩ := List.exists_cons_of_ne_nil (Path.spelled_ne_nil hrest)
    rw [hspelled] at ih ⊢
    cases htype : f.field.type with
    | reference other =>
      rw [htype] at hnext
      obtain rfl := Option.some.inj hnext
      dsimp only
      rw [htype]
      exact ih
    | text | number | boolean | date =>
      rw [htype] at hnext
      cases hnext

theorem typeAlong_eq_ok {segment : String} {rest : List String}
    (h : typeAlong s path current (segment :: rest) = .ok type) :
    (segment = Schema.idField ∧ rest = [] ∧ type = none) ∨
    ∃ f, s.field current segment = .ok f ∧ f.field.name = segment ∧ ((rest = [] ∧ type = some f.field.type) ∨
      ∃ next, f.field.type.target? = some next ∧ typeAlong s path next rest = .ok type) := by
  rw [typeAlong] at h
  split at h
  · next hid => exact .inl ⟨hid.1, hid.2, (Except.ok.inj h).symm⟩
  · split at h
    · cases h
    · next f hf =>
      obtain ⟨-, -, -, hname⟩ := Schema.field_eq_ok hf
      refine .inr ⟨f, hf, hname, ?_⟩
      split at h
      · exact .inl ⟨rfl, (Except.ok.inj h).symm⟩
      · next target _ htype _ => exact .inr ⟨target, by rw [htype]; rfl, h⟩
      · cases h

theorem walks_of_typeAlong (h : typeAlong s path current segments = .ok type) :
    ∃ steps target, Walks s current steps target ∧ segments = Path.spelled steps target ∧ target.type? = type := by
  induction segments generalizing current with
  | nil => cases h
  | cons segment rest ih =>
    rcases typeAlong_eq_ok h with ⟨rfl, rfl, rfl⟩ | ⟨f, hf, rfl, ⟨rfl, rfl⟩ | ⟨next, hnext, hrest⟩⟩
    · exact ⟨[], .row, .row current, rfl, rfl⟩
    · exact ⟨[f], .field f.field.type, .field hf, rfl, rfl⟩
    · obtain ⟨steps, target, hwalks, rfl, htype⟩ := ih hrest
      exact ⟨f :: steps, target, .follow hf hnext hwalks, (Path.spelled_cons f steps target).symm, htype⟩

theorem pathType_eq_ok_iff (hs : s.Valid) : pathType s model path = .ok type ↔
    ∃ steps target, Walks s model steps target ∧ Path.segments path = Path.spelled steps target ∧ target.type? = type := by
  constructor
  · exact walks_of_typeAlong
  · rintro ⟨steps, target, hwalks, hsegments, rfl⟩
    rw [pathType, ← Path.segments, hsegments]
    exact typeAlong_of_walks hs hwalks

theorem character_of_pathType (hs : s.Valid) (h : pathType s model path = .ok type) :
    path.toList ≠ [] ∧ ∀ c ∈ path.toList, Path.Character c := by
  obtain ⟨steps, target, hwalks, hpath, -⟩ := (pathType_eq_ok_iff hs).1 h
  exact Path.character_of_spelled hs hwalks hpath

theorem pathType_eq_iff_ending (hs : s.Valid) (target : Target) :
    pathType s model path = .ok target.type? ↔ (Path.walk s model path).ending = .ok target := by
  rw [pathType_eq_ok_iff hs, Path.ending_eq_ok_iff hs]
  constructor
  · rintro ⟨steps, other, hwalks, hsegments, hsame⟩
    obtain rfl := Target.type?_inj.1 hsame
    exact ⟨steps, hwalks, hsegments⟩
  · rintro ⟨steps, hwalks, hsegments⟩
    exact ⟨steps, target, hwalks, hsegments, rfl⟩

/--
The command line and queries agree on paths. A path has no type for the command line exactly if a query reaches a row by it,
it has a type exactly if a query reaches a field of that type, and it fails exactly if it does so in a query; and the paths
that do not fail are those that are spelled by the fields on the way, with the identifier's name behind them for a row.
-/
theorem pathType_agrees {models : List Model} (hschema : Schema.ofModels models = .ok s) (model path : String) :
    (pathType s model path = .ok none ↔ (Path.walk s model path).ending = .ok .row) ∧
    (∀ type, pathType s model path = .ok (some type) ↔ (Path.walk s model path).ending = .ok (.field type)) ∧
    ((∃ fault, pathType s model path = .error fault) ↔ ∃ e, (Path.walk s model path).ending = .error e) ∧
    ∀ target, (Path.walk s model path).ending = .ok target ↔
      ∃ steps, Walks s model steps target ∧ Path.segments path = Path.spelled steps target := by
  have hs := Schema.valid_of_ofModels hschema
  have hagree (target : Target) : pathType s model path = .ok target.type? ↔ (Path.walk s model path).ending = .ok target :=
    pathType_eq_iff_ending hs target
  refine ⟨hagree .row, fun type => hagree (.field type), ?_, fun target => Path.ending_eq_ok_iff hs⟩
  rw [exists_error_iff, exists_error_iff]
  constructor
  · exact fun h target hending => h _ ((hagree target).2 hending)
  · intro h type htype
    cases type with
    | none => exact h .row ((hagree .row).1 htype)
    | some type => exact h (.field type) ((hagree (.field type)).1 htype)

section Scripted

def chiefSchema : Schema :=
  ⟨[⟨"Person", none, [⟨"name", .text, false, false⟩, ⟨"boss", .reference "Person", true, false⟩]⟩]⟩

/-- The references go round; a name is no reference, and the identifier has no place before the end. -/
theorem pathType_agrees_chief : Schema.ofModels chiefSchema.models = .ok chiefSchema ∧
    (Path.walk chiefSchema "Person" "boss.boss.boss.id").ending = .ok .row ∧
    (Path.walk chiefSchema "Person" "boss.boss.name").ending = .ok (.field .text) ∧
    ∀ path ∈ ["", "boss..name", "id.name", "boss.id.name", "name.id"],
      ∃ e, (Path.walk chiefSchema "Person" path).ending = .error e := by
  have hschema : Schema.ofModels chiefSchema.models = .ok chiefSchema := rfl
  have hagree := pathType_agrees hschema "Person"
  refine ⟨hschema, (hagree _).1.1 (by decide +kernel), ((hagree _).2.1 .text).1 (by decide +kernel), fun path hpath => ?_⟩
  have hfails : ∀ path ∈ ["", "boss..name", "id.name", "boss.id.name", "name.id"],
      (pathType chiefSchema "Person" path).isOk = false := by decide +kernel
  refine (hagree path).2.2.1.1 (exists_error_iff.2 fun type htype => ?_)
  have hnone := hfails path hpath
  rw [htype] at hnone
  cases hnone

end Scripted

end Command

end ClaimTables
