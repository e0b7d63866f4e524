import ClaimTables.Command.Run
import ClaimTables.Proofs.Binary64.RoundTrip
import ClaimTables.Proofs.Calendar.Typed
import ClaimTables.Proofs.Query.Translation
import ClaimTables.Proofs.Schema.Acceptance
import ClaimTables.Proofs.Text.Pieces

/-!
Values as they are shown and typed. Main statement: the text of a value is read as that value exactly if it fits the type, is
no number without end and is not spelled like null, and assignments of such values to the fields of a model, in any order, are
read as the values by field.
-/

namespace ClaimTables

theorem mapM_map_eq_ok {ε α β γ : Type} {f : β → Except ε γ} {g : α → β} {k : α → γ} {l : List α}
    (h : ∀ a ∈ l, f (g a) = .ok (k a)) : (l.map g).mapM f = .ok (l.map k) := by
  induction l with
  | nil => rfl
  | cons a rest ih =>
    rw [List.forall_mem_cons] at h
    rw [List.map_cons, List.mapM_cons, h.1, ih h.2]
    rfl

theorem Keyed.ofList_of_perm {α : Type} {entries sorted : List (String × α)} (hsorted : (sorted.map (·.1)).Pairwise (· < ·))
    (h : entries.Perm sorted) : ofList entries = sorted := by
  have hnodup : (entries.map (·.1)).Nodup := (h.map _).nodup_iff.2 (hsorted.imp ne_of_lt)
  refine List.Perm.eq_of_pairwise (fun _ _ _ _ hlt hgt => absurd hgt (lt_asymm hlt)) ?_ (List.pairwise_map.1 hsorted)
    ((perm_ofList hnodup).trans h)
  exact List.pairwise_map.1 (sorted_ofList entries)

namespace Value

/-- That the text of a value is no other value's: a number is finite, and a text or an identifier is not the word for null. -/
def Typable : Value → Prop
  | .number x => x.isFinite = true
  | .text s | .reference s => s ≠ "null"
  | .null | .boolean _ | .date _ => True

theorem typable_of_ofText? {type : FieldType} {v : Value} (h : ofText? type v.toText = some v) : v.Typable := by
  have hfits := fits_of_ofText? h
  cases v with
  | null | boolean _ | date _ => exact True.intro
  | text s | reference s =>
    rintro rfl
    cases h
  | number x =>
    cases type with
    | number =>
      unfold ofText? at h
      split at h
      · cases h
      · obtain ⟨y, hy, heq⟩ := Option.map_eq_some_iff.1 h
        cases heq
        exact Binary64.isFinite_of_finite? hy
    | text | boolean | date | reference _ => cases hfits

theorem toText_ne_null {v : Value} (h : v.Typable) (hnull : v ≠ .null) : v.toText ≠ "null" := by
  cases v with
  | null => exact absurd rfl hnull
  | text s | reference s => exact h
  | boolean b => cases b <;> decide
  | number x =>
    intro htext
    have hread := Binary64.ofList?_toList x
    have hchars : x.toList = "null".toList := by rw [← String.ofList_inj, String.ofList_toList]; exact htext
    rw [hchars] at hread
    cases hread
  | date d =>
    intro htext
    have hread := Date.ofText?_text d
    have hchars : d.text = "null" := htext
    rw [hchars] at hread
    cases hread

theorem ofText?_toText {type : FieldType} {v : Value} (hfits : v.fits type = true) (h : v.Typable) :
    ofText? type v.toText = some v := by
  by_cases hnull : v = .null
  · rw [hnull]
    rfl
  · unfold ofText?
    rw [if_neg (toText_ne_null h hnull)]
    cases suits_of_fits hfits with
    | null => exact absurd rfl hnull
    | text | reference => rfl
    | boolean b => cases b <;> rfl
    | number x =>
      have hread : Binary64.finite? x.text.toList = some x := by
        rw [Binary64.text, String.toList_ofList, Binary64.finite?, Binary64.ofList?_toList]
        exact if_pos h
      exact congrArg (Option.map _) hread
    | date d => exact congrArg (Option.map _) (Date.ofText?_text d)

theorem ofText?_toText_iff {type : FieldType} {v : Value} :
    ofText? type v.toText = some v ↔ v.fits type = true ∧ v.Typable :=
  ⟨fun h => ⟨fits_of_ofText? h, typable_of_ofText? h⟩, fun h => ofText?_toText h.1 h.2⟩

end Value

namespace Command

variable {s : Schema} {model : String}

def assignment (e : String × Value) : String :=
  e.1 ++ "=" ++ e.2.toText

theorem parseValue_eq_ok {type : FieldType} {raw : String} {v : Value} :
    parseValue type raw = .ok v ↔ Value.ofText? type raw = some v := by
  unfold parseValue
  split
  · next h => rw [h, Except.ok.injEq, Option.some.injEq]
  · next h => simp [h]

theorem parseAssignment_append {name : String} (h : '=' ∉ name.toList) (raw : String) :
    parseAssignment (name ++ "=" ++ raw) = .ok (name, raw) := by
  have hcut : Text.cut? ['='] (name ++ "=" ++ raw).toList = some (name.toList, raw.toList) := by
    rw [String.toList_append, String.toList_append]
    exact Text.cut?_of_not_mem h
  rw [parseAssignment, hcut]
  dsimp only
  rw [String.ofList_toList, String.ofList_toList]

def Assignable (s : Schema) (model : String) (e : String × Value) : Prop :=
  ∃ f, s.field model e.1 = .ok f ∧ e.2.fits f.field.type = true ∧ e.2.Typable

theorem Assignable.not_mem (hs : s.Valid) {e : String × Value} (h : Assignable s model e) : '=' ∉ e.1.toList := by
  obtain ⟨f, hf, -⟩ := h
  obtain ⟨fields, hfields, hmem, hname⟩ := Schema.field_eq_ok hf
  have hidentifier := (hs.fieldValid hfields hmem).identifier
  rw [hname] at hidentifier
  exact fun hsign => absurd (Schema.forall_of_isIdentifier hidentifier _ hsign) (by decide)

theorem parseValues_toText {entries : Values} (h : ∀ e ∈ entries, Assignable s model e) :
    parseValues s model (entries.map fun e => (e.1, e.2.toText)) = .ok (Keyed.ofList entries) := by
  unfold parseValues
  rw [mapM_map_eq_ok (k := id) fun e he => ?_, List.map_id]
  · rfl
  · obtain ⟨f, hf, hfits, htypable⟩ := h e he
    dsimp only
    rw [hf]
    change ((parseValue f.field.type e.2.toText).mapError _).bind _ = _
    rw [parseValue_eq_ok.2 (Value.ofText?_toText hfits htypable)]
    rfl

/--
What is shown can be typed. The text of a value is read as that value exactly if the value fits the type, is not a number
without end, and is no text or identifier spelled like null; so it is for every day, years before 0 and above 9999 having a
sign. An assignment is divided at its first equals sign, whatever follows it. Assignments of such values to fields of a
model, in any order, are read as the values by field, and the values are what a command goes on with.
-/
theorem assigned_as_shown :
    (∀ (type : FieldType) (v : Value), parseValue type v.toText = .ok v ↔ v.fits type = true ∧ v.Typable) ∧
    (∀ d : Date, parseValue .date d.text = .ok (.date d) ∧
      (d.text.toList.head? = some '-' ↔ d.year < 0) ∧ (d.text.toList.head? = some '+' ↔ 9999 < d.year)) ∧
    (∀ name raw : String, '=' ∉ name.toList → parseAssignment (name ++ "=" ++ raw) = .ok (name, raw)) ∧
    ∀ (models : List Model) (t : Tables), Schema.ofModels models = .ok t.schema →
      ∀ (model : String) (values entries : Values), (values.map (·.1)).Pairwise (· < ·) →
        (∀ e ∈ values, Assignable t.schema model e) → entries.Perm values →
        (entries.map assignment).mapM parseAssignment = .ok (entries.map fun e => (e.1, e.2.toText)) ∧
        parseValues t.schema model (entries.map fun e => (e.1, e.2.toText)) = .ok values ∧
        assigned t model (entries.map assignment) = pure values := by
  refine ⟨fun type v => parseValue_eq_ok.trans Value.ofText?_toText_iff, fun d => ?_, fun name raw h => ?_, ?_⟩
  · have hdate : Value.ofText? .date (Value.date d).toText = some (.date d) := Value.ofText?_toText rfl True.intro
    exact ⟨parseValue_eq_ok.2 hdate, d.head?_text⟩
  · exact parseAssignment_append h raw
  · intro models t hschema model values entries hsorted hassignable hperm
    have hentries : ∀ e ∈ entries, Assignable t.schema model e := fun e he => hassignable e (hperm.mem_iff.1 he)
    have hassignments : (entries.map assignment).mapM parseAssignment = .ok (entries.map fun e => (e.1, e.2.toText)) :=
      mapM_map_eq_ok fun e he => parseAssignment_append ((hentries e he).not_mem (Schema.valid_of_ofModels hschema)) _
    have hvalues : parseValues t.schema model (entries.map fun e => (e.1, e.2.toText)) = .ok values := by
      rw [parseValues_toText hentries, Keyed.ofList_of_perm hsorted hperm]
    refine ⟨hassignments, hvalues, ?_⟩
    rw [assigned, hassignments]
    change Action.ofError (parseValues t.schema model _) = _
    rw [hvalues]
    rfl

def diaryTables : Tables :=
  ⟨⟨"bot", "secret", 1, "en"⟩, ⟨[⟨"Diary", none, [⟨"text", .text, false, false⟩, ⟨"on", .date, true, false⟩]⟩]⟩, ⟨"club"⟩,
    ⟨⟨1⟩, ⟨2⟩, ⟨3⟩, ⟨4⟩⟩, "https://wiki.test", false, "Item:"⟩

def ides : Date :=
  ⟨-43, 3, 15, rfl⟩

theorem assigned_as_shown_diary :
    assigned diaryTables "Diary" ["text=et tu=null", "on=-0043-03-15"] =
      pure [("on", .date ides), ("text", .text "et tu=null")] ∧
    parseValue .text "null" ≠ .ok (.text "null") := by
  obtain ⟨hvalue, -, -, hassigned⟩ := assigned_as_shown
  have hschema : Schema.ofModels diaryTables.schema.models = .ok diaryTables.schema := rfl
  refine ⟨?_, fun h => ((hvalue .text (.text "null")).1 h).2 rfl⟩
  have htyped : [("text", Value.text "et tu=null"), ("on", .date ides)].map assignment =
      ["text=et tu=null", "on=-0043-03-15"] := by decide
  rw [← htyped]
  refine (hassigned _ diaryTables hschema "Diary" _ _ (by decide) ?_ (.swap _ _ _)).2.2
  simp only [List.forall_mem_cons]
  exact ⟨⟨⟨"Diary", ⟨"on", .date, true, false⟩⟩, rfl, rfl, True.intro⟩,
    ⟨⟨"Diary", ⟨"text", .text, false, false⟩⟩, rfl, rfl, (by decide : "et tu=null" ≠ "null")⟩, List.forall_mem_nil _⟩

end Command

end ClaimTables
