import ClaimTables.Proofs.Command.Comparisons

/-!
Filters that list values. The keyword of lists ends the path, and the items follow it, whatever they hold, unless the
expression is taken for a test for null: that is what it is if it ends like one and no sign of comparison is in it. Main
statement: an expression with a list is read as its list exactly outside that case.
-/

namespace ClaimTables.Command

open Text (isBlank)

variable {s : Schema} {model p v : String} {path cs : List Char} {items : List String}

def nullWords (expected : Bool) : String :=
  if expected then " is null" else " is not null"

/-- That a text can be an item: it is not blank, has no blanks around it and no comma in it, and is not the word for null. -/
structure Listed (v : String) : Prop where
  nonblank : Text.isBlankText v = false
  trimmed : Text.trim v = v
  no_comma : ',' ∉ v.toList
  not_null : v ≠ "null"

namespace Listed

instance (v : String) : Decidable (Listed v) :=
  decidable_of_iff (Text.isBlankText v = false ∧ Text.trim v = v ∧ ',' ∉ v.toList ∧ v ≠ "null")
    ⟨fun ⟨hnonblank, htrimmed, hcomma, hnull⟩ => ⟨hnonblank, htrimmed, hcomma, hnull⟩,
      fun h => ⟨h.nonblank, h.trimmed, h.no_comma, h.not_null⟩⟩

theorem trimList_eq (h : Listed v) : Text.trimList v.toList = v.toList := by
  have htrimmed := congrArg String.toList h.trimmed
  rwa [Text.trim, String.toList_ofList] at htrimmed

theorem ends (h : Listed v) : v.toList ≠ [] ∧ v.toList.rdropWhile isBlank = v.toList := by
  refine ⟨fun hnil => ?_, (Text.trimList_eq_self_iff.1 h.trimList_eq).2⟩
  have hblank := h.nonblank
  rw [Text.isBlankText, hnil] at hblank
  cases hblank

theorem operand_eq (h : Listed v) : operand (some .text) v.toList = .ok (.text v) := by
  rw [Command.operand_eq, h.trimList_eq, String.ofList_toList]
  dsimp only
  rw [Value.ofText?, if_neg h.not_null]

end Listed

def listText (items : List String) : List Char :=
  [','].intercalate (items.map String.toList)

theorem mapM_operand (h : ∀ v ∈ items, Listed v) :
    (items.map String.toList).mapM (operand (some .text)) = .ok (items.map .text) := by
  induction items with
  | nil => rfl
  | cons v rest ih =>
    rw [List.forall_mem_cons] at h
    rw [List.map_cons, List.mapM_cons, h.1.operand_eq, ih h.2]
    rfl

theorem membership_listText (hname : pathText path = p) (htype : pathType s model p = .ok (some .text)) (hne : items ≠ [])
    (h : ∀ v ∈ items, Listed v) : membership s model path (listText items) = .ok ⟨p, .oneOf (items.map .text)⟩ := by
  have hsplit : (listText items).splitOn ',' = items.map String.toList := by
    refine List.splitOn_intercalate ',' (fun part hpart => ?_) (by simpa using hne)
    obtain ⟨v, hv, rfl⟩ := List.mem_map.1 hpart
    exact (h v hv).no_comma
  have hkept : (items.map String.toList).filter (fun item => !item.all isBlank) = items.map String.toList := by
    refine List.filter_eq_self.2 fun part hpart => ?_
    obtain ⟨v, hv, rfl⟩ := List.mem_map.1 hpart
    exact congrArg not (h v hv).nonblank
  simp only [membership, hname, htype, hsplit, hkept, mapM_operand h, bind, Except.bind]

theorem not_ends_both {before before' : List Char} :
    before ++ (nullWords true).toList ≠ before' ++ (nullWords false).toList := by
  intro h
  have hsuffix := List.suffix_of_suffix_length_le ⟨before, h⟩ ⟨before', rfl⟩ (by decide)
  exact absurd hsuffix (by decide)

theorem parseWords_null (before : List Char) (expected : Bool) :
    parseWords s model (before ++ (nullWords expected).toList) = .ok ⟨pathText before, .isNull expected⟩ := by
  cases expected with
  | false =>
    rw [parseWords, show " is not null" = nullWords false from rfl, Text.beforeEnd?_eq_some.2 rfl]
  | true =>
    have hnone : Text.beforeEnd? " is not null".toList (before ++ (nullWords true).toList) = none :=
      Option.eq_none_iff_forall_ne_some.2 fun before' h => not_ends_both (Text.beforeEnd?_eq_some.1 h)
    rw [parseWords, hnone]
    dsimp only
    rw [show " is null" = nullWords true from rfl, Text.beforeEnd?_eq_some.2 rfl]

theorem parseWords_list {items : List Char} (hnull : ∀ before expected, cs ≠ before ++ (nullWords expected).toList)
    (hcut : Text.cut? " in ".toList cs = some (path, items)) : parseWords s model cs = membership s model path items := by
  have hnone (expected : Bool) : Text.beforeEnd? (nullWords expected).toList cs = none :=
    Option.eq_none_iff_forall_ne_some.2 fun before h => hnull before expected (Text.beforeEnd?_eq_some.1 h)
  rw [parseWords, show " is not null" = nullWords false from rfl, hnone]
  dsimp only
  rw [show " is null" = nullWords true from rfl, hnone]
  dsimp only
  rw [hcut]

theorem parseFilter_of_no_sign {expression : String} (htrim : Text.trimList expression.toList = cs)
    (h : ∀ c ∈ cs, isSign c = false) : parseFilter s model expression = parseWords s model cs := by
  have hdrop : cs.dropWhile (fun c => !isSign c) = [] := List.dropWhile_eq_nil_iff.2 fun c hc => by simp [h c hc]
  rw [parseFilter, htrim, hdrop]
  rfl

def listing (p : String) (items : List String) : List Char :=
  p.toList ++ (" in ".toList ++ listText items)

theorem toList_listing (p : String) (items : List String) :
    (p ++ " in " ++ ",".intercalate items).toList = listing p items := by
  simp [listing, listText, String.toList_append, String.toList_intercalate]

theorem exists_sign_iff : (∃ c ∈ listText items, isSign c = true) ↔ ∃ v ∈ items, v.toList.any isSign = true := by
  have hmem {c : Char} (hc : isSign c = true) : c ∈ listText items ↔ ∃ part ∈ items.map String.toList, c ∈ part := by
    refine mem_intercalate fun hcomma => ?_
    rw [List.mem_singleton.1 hcomma] at hc
    cases hc
  constructor
  · rintro ⟨c, hc, hsign⟩
    obtain ⟨part, hpart, hc⟩ := (hmem hsign).1 hc
    obtain ⟨v, hv, rfl⟩ := List.mem_map.1 hpart
    exact ⟨v, hv, List.any_eq_true.2 ⟨c, hc, hsign⟩⟩
  · rintro ⟨v, hv, hany⟩
    obtain ⟨c, hc, hsign⟩ := List.any_eq_true.1 hany
    exact ⟨c, (hmem hsign).2 ⟨_, List.mem_map_of_mem hv, hc⟩, hsign⟩

theorem trimList_listing (hnonempty : p.toList ≠ []) (hword : ∀ c ∈ p.toList, Path.Character c) (hne : items ≠ [])
    (hitems : ∀ v ∈ items, Listed v) : Text.trimList (listing p items) = listing p items := by
  obtain ⟨hlist, hends⟩ : listText items ≠ [] ∧ (listText items).rdropWhile isBlank = listText items := by
    refine rdropWhile_intercalate (by simpa using hne) fun part hpart => ?_
    obtain ⟨v, hv, rfl⟩ := List.mem_map.1 hpart
    exact (hitems v hv).ends
  exact Text.trimList_word_append hnonempty (fun c hc => (hword c hc).not_blank) (rdropWhile_append_of_ends hlist hends)

theorem cut?_in (hword : ∀ c ∈ p.toList, Path.Character c) (items : List Char) :
    Text.cut? " in ".toList (p.toList ++ (" in ".toList ++ items)) = some (p.toList, items) := by
  have hblank : ' ' ∉ p.toList := fun hmem => absurd (hword ' ' hmem).not_blank (by decide)
  rw [← List.append_assoc]
  exact Text.cut?_of_not_mem hblank

theorem forall_not_isSign (hword : ∀ c ∈ p.toList, Path.Character c) (h : ∀ c ∈ cs, isSign c = false) :
    ∀ c ∈ p.toList ++ (" in ".toList ++ cs), isSign c = false := by
  have hkeyword : " in ".toList.all (fun c => !isSign c) = true := rfl
  intro c hc
  rcases List.mem_append.1 hc with hc | hc
  · exact not_isSign_of_character (hword c hc)
  · rcases List.mem_append.1 hc with hc | hc
    · simpa using List.all_eq_true.1 hkeyword c hc
    · exact h c hc

theorem not_isSign_listing (hword : ∀ c ∈ p.toList, Path.Character c) (h : ¬∃ c ∈ listText items, isSign c = true) :
    ∀ c ∈ listing p items, isSign c = false :=
  forall_not_isSign hword fun c hc => Bool.eq_false_iff.2 fun hsign => h ⟨c, hc, hsign⟩

/-- A list is read as its items if a sign in one of them, or how it ends, keeps it from being taken for a test for null. -/
theorem parseFilter_listing (hs : s.Valid) (hpath : pathType s model p = .ok (some .text)) (hne : items ≠ [])
    (hitems : ∀ v ∈ items, Listed v) {expression : String} (hexpression : expression.toList = listing p items)
    (h : (∃ c ∈ listText items, isSign c = true) ∨ ∀ before expected, listing p items ≠ before ++ (nullWords expected).toList) :
    parseFilter s model expression = .ok ⟨p, .oneOf (items.map .text)⟩ := by
  obtain ⟨hnonempty, hword⟩ := character_of_pathType hs hpath
  have htrim : Text.trimList expression.toList = listing p items := by
    rw [hexpression, trimList_listing hnonempty hword hne hitems]
  have hname : pathText p.toList = p := by
    simpa using pathText_append (fun c hc => (hword c hc).not_blank) (List.forall_mem_nil _)
  by_cases hsign : ∃ c ∈ listText items, isSign c = true
  · -- The keyword stands before the first sign, which is in one of the items.
    obtain ⟨sign, hfind⟩ := Option.isSome_iff_exists.1 (List.find?_isSome.2 hsign)
    obtain ⟨hsign, front, rest, hlist, hfront⟩ := List.find?_eq_some_iff_append.1 hfind
    have hdivided : listing p items = (p.toList ++ (" in ".toList ++ front)) ++ sign :: rest := by
      rw [listing, hlist]
      simp
    have hbefore := forall_not_isSign hword fun c hc => by simpa using hfront c hc
    rw [parseFilter_of_sign (htrim.trans hdivided) hbefore hsign, cut?_in hword]
    dsimp only
    rw [← hlist]
    exact membership_listText hname hpath hne hitems
  · rw [parseFilter_of_no_sign htrim (not_isSign_listing hword hsign), parseWords_list (h.resolve_left hsign) (cut?_in hword _)]
    exact membership_listText hname hpath hne hitems

/--
A path to a text field, the keyword and texts with commas between them are read as the list of these texts, whatever signs and
keywords are in them, if there is a sign of comparison in one of them or the whole does not end like a test for null. Where it
does end like one and there is no sign, it is read as that test, of all that stands before.
-/
theorem parseFilter_lists {models : List Model} (hschema : Schema.ofModels models = .ok s)
    (hpath : pathType s model p = .ok (some .text)) (hne : items ≠ []) (hitems : ∀ v ∈ items, Listed v) :
    ((∃ v ∈ items, v.toList.any isSign = true) ∨
        (∀ before expected, p ++ " in " ++ ",".intercalate items ≠ before ++ nullWords expected) →
      parseFilter s model (p ++ " in " ++ ",".intercalate items) = .ok ⟨p, .oneOf (items.map .text)⟩) ∧
    ∀ before expected, (∀ v ∈ items, v.toList.any isSign = false) →
      p ++ " in " ++ ",".intercalate items = before ++ nullWords expected →
      parseFilter s model (p ++ " in " ++ ",".intercalate items) = .ok ⟨Text.trim before, .isNull expected⟩ := by
  have hs := Schema.valid_of_ofModels hschema
  refine ⟨fun h => parseFilter_listing hs hpath hne hitems (toList_listing p items) (h.imp exists_sign_iff.2 ?_), ?_⟩
  · intro hnull before expected heq
    refine hnull (String.ofList before) expected (String.toList_injective ?_)
    rw [toList_listing, heq, String.toList_append, String.toList_ofList]
  · intro before expected hsigns heq
    obtain ⟨hnonempty, hword⟩ := character_of_pathType hs hpath
    have hlist : listing p items = before.toList ++ (nullWords expected).toList := by
      rw [← toList_listing, heq, String.toList_append]
    have htrim : Text.trimList (p ++ " in " ++ ",".intercalate items).toList = listing p items := by
      rw [toList_listing, trimList_listing hnonempty hword hne hitems]
    have hno : ¬∃ c ∈ listText items, isSign c = true := by
      intro hsign
      obtain ⟨v, hv, hany⟩ := exists_sign_iff.1 hsign
      exact Bool.false_ne_true ((hsigns v hv).symm.trans hany)
    rw [parseFilter_of_no_sign htrim (not_isSign_listing hword hno), hlist]
    exact parseWords_null before.toList expected

section Scripted

def workSchema : Schema :=
  ⟨[⟨"Work", none, [⟨"title", .text, false, false⟩]⟩]⟩

theorem parseFilter_lists_works : Schema.ofModels workSchema.models = .ok workSchema ∧
    pathType workSchema "Work" "title" = .ok (some .text) ∧ (∀ v ∈ ["1 < 2 in x", "Emma is null"], Listed v) ∧
    parseFilter workSchema "Work" "title in 1 < 2 in x,Emma is null" =
      .ok ⟨"title", .oneOf [.text "1 < 2 in x", .text "Emma is null"]⟩ := by
  have hschema : Schema.ofModels workSchema.models = .ok workSchema := rfl
  have hpath : pathType workSchema "Work" "title" = .ok (some .text) := by decide +kernel
  have hitems : ∀ v ∈ ["1 < 2 in x", "Emma is null"], Listed v := by decide +kernel
  exact ⟨hschema, hpath, hitems, (parseFilter_lists hschema hpath (List.cons_ne_nil _ _) hitems).1
    (.inl ⟨"1 < 2 in x", List.mem_cons_self, by decide +kernel⟩)⟩

theorem parseFilter_lists_tail : Schema.ofModels workSchema.models = .ok workSchema ∧
    pathType workSchema "Work" "title" = .ok (some .text) ∧ (∀ v ∈ ["Dune", "Emma is null"], Listed v) ∧
    "title" ++ " in " ++ ",".intercalate ["Dune", "Emma is null"] = "title in Dune,Emma is null" ∧
    parseFilter workSchema "Work" "title in Dune,Emma is null" = .ok ⟨"title in Dune,Emma", .isNull true⟩ ∧
    parseFilter workSchema "Work" "title in Dune,Emma is null" ≠ .ok ⟨"title", .oneOf [.text "Dune", .text "Emma is null"]⟩ :=
  ⟨rfl, by decide +kernel, by decide +kernel, by decide +kernel, by decide +kernel, by decide +kernel⟩

end Scripted

end ClaimTables.Command
