import ClaimTables.Proofs.Command.Paths

/-!
Filters that compare. The first sign of comparison ends the path, and what follows it is the value, with keywords and further
signs in it. Main statement: a path, a sign and a text, with blanks around them or not, are read as the comparison of what the
path leads to with the value that the text spells.
-/

namespace ClaimTables

theorem Comparison.symbol_eq (c : Comparison) : ∃ sign more, c.symbol.toList = sign :: more ∧ Command.isSign sign = true ∧
    (sign :: more).rdropWhile Text.isBlank = sign :: more := by
  cases c <;> exact ⟨_, _, rfl, rfl, rfl⟩

namespace Command

open Text (isBlank isBlankText trimList)

variable {s : Schema} {model : String} {c : Char} {path rest raw : List Char}

theorem not_blank_of_isSign (h : isSign c = true) : isBlank c = false := by
  simp only [isSign, Bool.or_eq_true, decide_eq_true_eq] at h
  rcases h with ((rfl | rfl) | rfl) | rfl <;> rfl

theorem not_isSign_of_blank (h : isBlank c = true) : isSign c = false := by
  cases hsign : isSign c with
  | false => rfl
  | true => exact absurd (h.symm.trans (not_blank_of_isSign hsign)) nofun

theorem not_isSign_of_character (h : Path.Character c) : isSign c = false := by
  have hrange := h.toNat
  cases hsign : isSign c with
  | false => rfl
  | true =>
    simp only [isSign, Bool.or_eq_true, decide_eq_true_eq] at hsign
    rcases hsign with ((rfl | rfl) | rfl) | rfl <;> exact absurd hrange (by decide)

theorem parseFilter_of_sign {expression : String} {sign : Char} (htrim : trimList expression.toList = path ++ sign :: rest)
    (hpath : ∀ c ∈ path, isSign c = false) (hsign : isSign sign = true) :
    parseFilter s model expression = match Text.cut? " in ".toList path with
      | some (path, items) => membership s model path (items ++ sign :: rest)
      | none => comparing s model (path ++ sign :: rest) path (sign :: rest) := by
  have hbefore : ∀ c ∈ path, (!isSign c) = true := fun c hc => by rw [hpath c hc]; rfl
  have htake : (path ++ sign :: rest).takeWhile (fun c => !isSign c) = path := by
    rw [List.takeWhile_append_of_pos hbefore, List.takeWhile_cons_of_neg (by simp [hsign]), List.append_nil]
  have hdrop : (path ++ sign :: rest).dropWhile (fun c => !isSign c) = sign :: rest := by
    rw [List.dropWhile_append_of_pos hbefore, List.dropWhile_cons_of_neg (by simp [hsign])]
  rw [parseFilter, htrim, htake, hdrop]
  rfl

theorem comparison?_symbol (c : Comparison) (h : c = .less ∨ c = .greater → rest.head? ≠ some '=') :
    comparison? (c.symbol.toList ++ rest) = (some c, rest) := by
  cases c with
  | equal | different | atMost | atLeast => rfl
  | less | greater =>
    cases rest with
    | nil => rfl
    | cons first rest =>
      have hfirst : first ≠ '=' := fun heq => h (by simp) (congrArg some heq)
      simp [Comparison.symbol, comparison?, hfirst]

theorem operand_eq (type : Option FieldType) (raw : List Char) :
    operand type raw = match type with
      | none => .ok (.reference (String.ofList (trimList raw)))
      | some type => match Value.ofText? type (String.ofList (trimList raw)) with
        | some v => .ok v
        | none => .error (.tables (unreadable type (String.ofList (trimList raw)))) := by
  cases type with
  | none => rfl
  | some type =>
    rw [operand, parseValue]
    dsimp only
    cases Value.ofText? type (String.ofList (trimList raw)) <;> rfl

theorem comparing_symbol {expression : List Char} {name : String} {type : Option FieldType} (hname : pathText path = name)
    (htype : pathType s model name = .ok type) (c : Comparison) (h : c = .less ∨ c = .greater → raw.head? ≠ some '=') :
    comparing s model expression path (c.symbol.toList ++ raw) =
      (operand type raw).map fun v => ⟨name, .compare c v⟩ := by
  simp only [comparing, hname, comparison?_symbol c h, htype, bind, Except.bind]
  cases operand type raw <;> rfl

theorem cut?_word {word blanks : List Char} (hword : ∀ c ∈ word, isBlank c = false) (hblanks : ∀ c ∈ blanks, isBlank c = true) :
    Text.cut? " in ".toList (word ++ blanks) = none := by
  refine Option.eq_none_iff_forall_ne_some.2 fun ⟨front, back⟩ hcut => ?_
  have hparts : word ++ blanks = (front ++ [' ']) ++ ('i' :: 'n' :: ' ' :: back) := by
    simpa using Text.append_of_cut? hcut
  rcases List.append_eq_append_iff.1 hparts with ⟨more, hfront, hblanksEq⟩ | ⟨more, hwordEq, -⟩
  · have hmem : 'i' ∈ blanks := by simp [hblanksEq]
    exact absurd (hblanks 'i' hmem) (by decide)
  · have hmem : ' ' ∈ word := by simp [hwordEq]
    exact absurd (hword ' ' hmem) (by decide)

theorem pathText_append {p : String} {blanks : List Char} (hword : ∀ c ∈ p.toList, isBlank c = false)
    (hblanks : ∀ c ∈ blanks, isBlank c = true) : pathText (p.toList ++ blanks) = p := by
  rw [pathText, Text.trimList_append_blank hblanks, Text.trimList_word hword, String.ofList_toList]

theorem parseFilter_of_parts (hs : s.Valid) {p : String} {type : Option FieldType} (hpath : pathType s model p = .ok type)
    (c : Comparison) {before between text : List Char} (hbefore : ∀ c ∈ before, isBlank c = true)
    (hbetween : ∀ c ∈ between, isBlank c = true)
    (htext : c = .less ∨ c = .greater → (text.rdropWhile isBlank).head? ≠ some '=') {expression : String}
    (hexpression : expression.toList = before ++ ((p.toList ++ (between ++ c.symbol.toList)) ++ text)) :
    parseFilter s model expression = (operand type text).map fun v => ⟨p, .compare c v⟩ := by
  obtain ⟨hne, hchars⟩ := character_of_pathType hs hpath
  obtain ⟨sign, more, hsymbol, hsign, hlast⟩ := c.symbol_eq
  have hword : ∀ c ∈ p.toList, isBlank c = false := fun c hc => (hchars c hc).not_blank
  have hfront : trimList (p.toList ++ (between ++ sign :: more)) = p.toList ++ (between ++ sign :: more) :=
    Text.trimList_word_append hne hword (rdropWhile_append_of_ends (List.cons_ne_nil _ _) hlast)
  have htrim : trimList expression.toList = (p.toList ++ between) ++ sign :: (more ++ text.rdropWhile isBlank) := by
    rw [hexpression, hsymbol, Text.trimList_blank_append hbefore, Text.trimList_append (by simp) hfront]
    simp
  have hnosign : ∀ c ∈ p.toList ++ between, isSign c = false := by
    intro c hc
    rcases List.mem_append.1 hc with hc | hc
    · exact not_isSign_of_character (hchars c hc)
    · exact not_isSign_of_blank (hbetween c hc)
  rw [parseFilter_of_sign htrim hnosign hsign, cut?_word hword hbetween]
  dsimp only
  rw [← List.cons_append, ← hsymbol, comparing_symbol (pathText_append hword hbetween) hpath c htext, operand_eq, operand_eq,
    Text.trimList_rdropWhile]

/--
A path, a sign of comparison and any text, with blanks around the path and the sign or without, are read as the comparison of
the path by that sign. The value is that of the text without blanks around it, read as the type at the end of the path, or a
reference where the path ends at an identifier; what spells no value of the type is refused with the text and the type. It does
not matter which signs, keywords or commas are in the text, only that it does not make another sign of a lone one.
-/
theorem parseFilter_compares {models : List Model} (hschema : Schema.ofModels models = .ok s) {p : String}
    {type : Option FieldType} (hpath : pathType s model p = .ok type) (c : Comparison) {before between behind : String}
    (hbefore : isBlankText before = true) (hbetween : isBlankText between = true) (hbehind : isBlankText behind = true)
    {text : String} (htext : c = .less ∨ c = .greater → text.toList.head? ≠ some '=') :
    parseFilter s model (before ++ p ++ between ++ c.symbol ++ behind ++ text) = match type with
      | none => .ok ⟨p, .compare c (.reference (Text.trim text))⟩
      | some type => match Value.ofText? type (Text.trim text) with
        | some v => .ok ⟨p, .compare c v⟩
        | none => .error (.tables (unreadable type (Text.trim text))) := by
  have hblanks : ∀ c ∈ behind.toList, isBlank c = true := List.all_eq_true.1 hbehind
  have hfirst : c = .less ∨ c = .greater → ((behind.toList ++ text.toList).rdropWhile isBlank).head? ≠ some '=' :=
    fun hc hhead => htext hc (Text.head?_of_rdropWhile hblanks rfl hhead)
  have hparts : (before ++ p ++ between ++ c.symbol ++ behind ++ text).toList =
      before.toList ++ ((p.toList ++ (between.toList ++ c.symbol.toList)) ++ (behind.toList ++ text.toList)) := by simp
  rw [parseFilter_of_parts (Schema.valid_of_ofModels hschema) hpath c (List.all_eq_true.1 hbefore)
    (List.all_eq_true.1 hbetween) hfirst hparts, operand_eq, Text.trimList_blank_append hblanks, Text.trim]
  cases type with
  | none => rfl
  | some type =>
    dsimp only
    cases Value.ofText? type (String.ofList (trimList text.toList)) <;> rfl

section Scripted

/-- The text of the value has signs, both keywords and a comma in it, and a letter outside ASCII. -/
theorem parseFilter_compares_chief : Schema.ofModels chiefSchema.models = .ok chiefSchema ∧
    pathType chiefSchema "Person" "boss.name" = .ok (some .text) ∧
    parseFilter chiefSchema "Person" "\tboss.name  < Zoë >= a, b in c is null " =
      .ok ⟨"boss.name", .compare .less (.text "Zoë >= a, b in c is null")⟩ := by
  have hschema : Schema.ofModels chiefSchema.models = .ok chiefSchema := rfl
  have hpath : pathType chiefSchema "Person" "boss.name" = .ok (some .text) := by decide +kernel
  have htext : Text.trim "Zoë >= a, b in c is null " = "Zoë >= a, b in c is null" := by decide +kernel
  have hparse := parseFilter_compares hschema hpath .less (show isBlankText "\t" = true by decide)
    (show isBlankText "  " = true by decide) (show isBlankText " " = true by decide)
    (show _ → "Zoë >= a, b in c is null ".toList.head? ≠ some '=' by decide +kernel)
  rw [htext] at hparse
  exact ⟨hschema, hpath, hparse⟩

end Scripted

end Command

end ClaimTables
