import ClaimTables.Client.Edits
import ClaimTables.Namespace
import ClaimTables.Proofs.Claim.RoundTrip
import ClaimTables.Proofs.Schema.Valid
import ClaimTables.Query.Path

/-!
Labels tell apart what they are for. A property or an item of a model has a role, and no two roles have one label,
whatever the tags are; the label of a row is that of no role.
-/

namespace ClaimTables

theorem Schema.identifier_append_inj {a b : String} {c d : Char} {xs ys : List Char}
    (ha : isIdentifier a = true) (hb : isIdentifier b = true) (hc : (c.isAlphanum || c = '_') = false)
    (hd : (d.isAlphanum || d = '_') = false) (h : a.toList ++ c :: xs = b.toList ++ d :: ys) :
    a = b ∧ c = d ∧ xs = ys := by
  have htake : ∀ {name : String} {e : Char} {rest : List Char}, isIdentifier name = true →
      (e.isAlphanum || e = '_') = false →
      (name.toList ++ e :: rest).takeWhile (fun e => e.isAlphanum || e = '_') = name.toList := by
    intro name e rest hname he
    rw [List.takeWhile_append_of_pos (forall_of_isIdentifier hname), List.takeWhile_cons_of_neg (by simp [he]), List.append_nil]
  have hnames : a.toList = b.toList := by rw [← htake ha hc, h, htake hb hd]
  rw [hnames] at h
  exact ⟨String.toList_inj.1 hnames, List.cons.inj (List.append_cancel_left h)⟩

theorem Claim.labels_inj {language label label' : String} (h : labels language label = labels language label') :
    label = label' := by
  have hvalue := congrArg (fun j => ((j.get language).get "value").text?) h
  simpa [labels, Json.get_ofEntries, List.lookup_cons, Json.text?] using hvalue

theorem Namespace.toList_rowLabel (n : Namespace) (model name : String) :
    (n.rowLabel model name).toList = model.toList ++ ':' :: (name.toList ++ (" in ".toList ++ n.tag.toList)) := by
  simp [rowLabel]

theorem Namespace.rowLabel_inj {n : Namespace} {model model' name name' : String}
    (hmodel : Schema.isIdentifier model = true) (hmodel' : Schema.isIdentifier model' = true)
    (h : n.rowLabel model name = n.rowLabel model' name') : model = model' := by
  have hchars := congrArg String.toList h
  rw [toList_rowLabel, toList_rowLabel] at hchars
  exact (Schema.identifier_append_inj hmodel hmodel' (by decide) (by decide) hchars).1

inductive Role where
  | tag
  | deleted
  | field (space : Namespace) (key : FieldKey)
  | type (space : Namespace) (model : String)
deriving DecidableEq

namespace Role

def kind : Role → EntityKind
  | .tag | .deleted | .field _ _ => .property
  | .type _ _ => .item

def label : Role → String
  | .tag => Namespace.tagLabel
  | .deleted => Namespace.deletedLabel
  | .field n k => n.propertyLabel k.model k.field
  | .type n model => n.typeLabel model

def Named : Role → Prop
  | .tag | .deleted => True
  | .field _ k => Schema.isIdentifier k.model = true ∧ Schema.isIdentifier k.field = true
  | .type _ model => Schema.isIdentifier model = true

def parts : Role → String × Char × List Char
  | .tag => ("wikigraph", ' ', "namespace".toList)
  | .deleted => ("wikigraph", ' ', "deleted".toList)
  | .field n k => (k.model, '.', k.field.toList ++ ' ' :: ("in ".toList ++ n.tag.toList))
  | .type n model => (model, ' ', "in ".toList ++ n.tag.toList)

theorem toList_label (r : Role) : r.label.toList = r.parts.1.toList ++ r.parts.2.1 :: r.parts.2.2 := by
  cases r with
  | tag | deleted => rfl
  | field n k => simp [label, parts, Namespace.propertyLabel]
  | type n model => simp [label, parts, Namespace.typeLabel]

theorem Named.first {r : Role} (h : r.Named) : Schema.isIdentifier r.parts.1 = true := by
  cases r with
  | tag | deleted => rfl
  | field n k => exact h.1
  | type n model => exact h

theorem ends (r : Role) : (r.parts.2.1.isAlphanum || r.parts.2.1 = '_') = false := by
  cases r <;> rfl

theorem Named.eq_of_parts_eq {r r' : Role} (hr : r.Named) (hr' : r'.Named) (h : r.parts = r'.parts) : r = r' := by
  have htag : ∀ {n n' : Namespace}, "in ".toList ++ n.tag.toList = "in ".toList ++ n'.tag.toList → n = n' := by
    rintro ⟨tag⟩ ⟨tag'⟩ htags
    exact congrArg Namespace.mk (String.toList_inj.1 (List.append_cancel_left htags))
  cases r with
  | tag | deleted => cases r' <;> simp [parts] at h ⊢
  | field n k =>
    cases r' with
    | field n' k' =>
      obtain ⟨hmodel, hrest⟩ := Prod.ext_iff.1 h
      obtain ⟨hfield, -, htags⟩ :=
        Schema.identifier_append_inj hr.2 hr'.2 (by decide) (by decide) (Prod.ext_iff.1 hrest).2
      obtain ⟨model, field⟩ := k
      obtain ⟨rfl, rfl⟩ : model = k'.model ∧ field = k'.field := ⟨hmodel, hfield⟩
      rw [htag htags]
    | tag | deleted | type n' model' => simp [parts] at h
  | type n model =>
    cases r' with
    | type n' model' =>
      obtain ⟨hmodel, hrest⟩ := Prod.ext_iff.1 h
      obtain rfl : model = model' := hmodel
      rw [htag (Prod.ext_iff.1 hrest).2]
    | tag | deleted | field n' k' => simp [parts] at h

theorem Named.eq_of_label_eq {r r' : Role} (hr : r.Named) (hr' : r'.Named) (h : r.label = r'.label) : r = r' := by
  have hchars := congrArg String.toList h
  rw [toList_label, toList_label] at hchars
  obtain ⟨hfirst, hend, hrest⟩ := Schema.identifier_append_inj hr.first hr'.first r.ends r'.ends hchars
  exact hr.eq_of_parts_eq hr' (Prod.ext hfirst (Prod.ext hend hrest))

theorem Named.label_ne_rowLabel {r : Role} (hr : r.Named) {n : Namespace} {model name : String}
    (hmodel : Schema.isIdentifier model = true) : r.label ≠ n.rowLabel model name := by
  intro h
  have hchars := congrArg String.toList h
  rw [toList_label, Namespace.toList_rowLabel] at hchars
  have hend := (Schema.identifier_append_inj hr.first hmodel r.ends (by decide) hchars).2.1
  cases r <;> simp [parts] at hend

end Role

inductive LabelKind where
  | type
  | property
  | row
  | reserved

/-- That a label is of a kind, in whatever namespace, for names that schemas let pass and rows by any name. -/
inductive LabelKind.Labels : LabelKind → String → Prop
  | type (n : Namespace) {model : String} (hmodel : Schema.isIdentifier model = true) : Labels .type (n.typeLabel model)
  | property (n : Namespace) {model field : String} (hmodel : Schema.isIdentifier model = true)
    (hfield : Schema.isIdentifier field = true) : Labels .property (n.propertyLabel model field)
  | row (n : Namespace) {model : String} (hmodel : Schema.isIdentifier model = true) (name : String) :
    Labels .row (n.rowLabel model name)
  | tag : Labels .reserved Namespace.tagLabel
  | deleted : Labels .reserved Namespace.deletedLabel

def Role.labelKind : Role → LabelKind
  | .tag | .deleted => .reserved
  | .field _ _ => .property
  | .type _ _ => .type

theorem LabelKind.Labels.cases_role {kind : LabelKind} {label : String} (h : kind.Labels label) :
    (∃ r : Role, r.Named ∧ r.labelKind = kind ∧ r.label = label) ∨
    kind = .row ∧ ∃ (n : Namespace) (model name : String), Schema.isIdentifier model = true ∧ n.rowLabel model name = label := by
  cases h with
  | type n hmodel => exact .inl ⟨.type n _, hmodel, rfl, rfl⟩
  | property n hmodel hfield => exact .inl ⟨.field n ⟨_, _⟩, ⟨hmodel, hfield⟩, rfl, rfl⟩
  | row n hmodel name => exact .inr ⟨rfl, n, _, name, hmodel, rfl⟩
  | tag => exact .inl ⟨.tag, trivial, rfl, rfl⟩
  | deleted => exact .inl ⟨.deleted, trivial, rfl, rfl⟩

theorem LabelKind.Labels.kind_eq {kind kind' : LabelKind} {label : String} (h : kind.Labels label) (h' : kind'.Labels label) :
    kind = kind' := by
  rcases h.cases_role with ⟨r, hr, rfl, rfl⟩ | ⟨rfl, n, model, name, hmodel, rfl⟩
  · rcases h'.cases_role with ⟨r', hr', rfl, hlabel⟩ | ⟨-, n, model, name, hmodel, hlabel⟩
    · rw [hr'.eq_of_label_eq hr hlabel]
    · exact absurd hlabel.symm (hr.label_ne_rowLabel hmodel)
  · rcases h'.cases_role with ⟨r', hr', -, hlabel⟩ | ⟨rfl, -⟩
    · exact absurd hlabel (hr'.label_ne_rowLabel hmodel)
    · rfl

/--
Labels say what they are for, also where tags hold dots, blanks or the word between name and tag: the label of a model
says the model and the namespace, that of a field the model, the field and the namespace, and no label is of two kinds.
-/
theorem Namespace.labels_identify {model model' : String} (hmodel : Schema.isIdentifier model = true)
    (hmodel' : Schema.isIdentifier model' = true) (n n' : Namespace) :
    (n.typeLabel model = n'.typeLabel model' ↔ model = model' ∧ n = n') ∧
    (∀ field field', Schema.isIdentifier field = true → Schema.isIdentifier field' = true →
      (n.propertyLabel model field = n'.propertyLabel model' field' ↔ model = model' ∧ field = field' ∧ n = n')) ∧
    ∀ (kind kind' : LabelKind) (label : String), kind.Labels label → kind'.Labels label → kind = kind' := by
  refine ⟨⟨fun h => ?_, ?_⟩, fun field field' hfield hfield' => ⟨fun h => ?_, ?_⟩, fun _ _ _ => LabelKind.Labels.kind_eq⟩
  · have hrole : Role.type n model = .type n' model' := Role.Named.eq_of_label_eq hmodel hmodel' h
    injection hrole with hspace hname
    exact ⟨hname, hspace⟩
  · rintro ⟨rfl, rfl⟩
    rfl
  · have hrole : Role.field n ⟨model, field⟩ = .field n' ⟨model', field'⟩ :=
      Role.Named.eq_of_label_eq ⟨hmodel, hfield⟩ ⟨hmodel', hfield'⟩ h
    injection hrole with hspace hkey
    injection hkey with hname hfieldName
    exact ⟨hname, hfieldName, hspace⟩
  · rintro ⟨rfl, rfl, rfl⟩
    rfl

theorem Namespace.labels_identify_book :
    (Namespace.mk "b in a.c").typeLabel "Book" ≠ (Namespace.mk "a.c").typeLabel "Book" ∧
    (Namespace.mk " in a").propertyLabel "Book" "in" ≠ (Namespace.mk "a in a").propertyLabel "Book" "in" ∧
    ¬ LabelKind.type.Labels ((Namespace.mk "a in b").propertyLabel "Book" "title") := by
  have hbook : Schema.isIdentifier "Book" = true := by decide
  have hin : Schema.isIdentifier "in" = true := by decide
  have htitle : Schema.isIdentifier "title" = true := by decide
  refine ⟨fun h => ?_, fun h => ?_, fun h => ?_⟩
  · exact absurd ((Namespace.labels_identify hbook hbook _ _).1.1 h).2 (by decide)
  · exact absurd (((Namespace.labels_identify hbook hbook _ _).2.1 _ _ hin hin).1 h).2.2 (by decide)
  · exact nomatch (Namespace.labels_identify hbook hbook ⟨""⟩ ⟨""⟩).2.2 _ _ _ h (.property _ hbook htitle)

end ClaimTables
