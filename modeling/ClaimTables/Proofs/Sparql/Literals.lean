import ClaimTables.Proofs.Query.Outline

/-!
Literals in a text. Main statement: where a literal is written, the grammar's rule for string literals takes off that
literal and nothing else and gives back its text, whatever follows; and no line end stands in a literal, so each pattern
and condition of a query stays on its line.
-/

namespace ClaimTables

namespace Text

def OneLine (s : String) : Prop :=
  ∀ c ∈ s.toList, c ≠ '\n' ∧ c ≠ '\r'

instance (s : String) : Decidable (OneLine s) :=
  List.decidableBAll (fun c => c ≠ '\n' ∧ c ≠ '\r') s.toList

theorem oneLine_append {s t : String} : OneLine (s ++ t) ↔ OneLine s ∧ OneLine t := by
  simp only [OneLine, String.toList_append, List.forall_mem_append]

theorem oneLine_intercalate {sep : String} (hsep : OneLine sep) {texts : List String} (h : ∀ s ∈ texts, OneLine s) :
    OneLine (sep.intercalate texts) := by
  induction texts with
  | nil => exact List.forall_mem_nil _
  | cons s rest ih =>
    rw [List.forall_mem_cons] at h
    cases rest with
    | nil => simpa using h.1
    | cons t rest =>
      rw [String.intercalate_cons_cons, oneLine_append, oneLine_append]
      exact ⟨⟨h.1, hsep⟩, ih h.2⟩

theorem oneLine_of_forall {p : Char → Bool} (hp : p '\n' = false ∧ p '\r' = false) {s : String}
    (h : ∀ c ∈ s.toList, p c = true) : OneLine s := by
  intro c hc
  constructor
  · rintro rfl
    exact Bool.false_ne_true (hp.1.symm.trans (h _ hc))
  · rintro rfl
    exact Bool.false_ne_true (hp.2.symm.trans (h _ hc))

end Text

namespace Sparql.Literal

/-- What may follow a backslash by the rule `ECHAR`, and what the two stand for. -/
def escapes : List (Char × Char) :=
  [('t', '\t'), ('b', '\x08'), ('n', '\n'), ('r', '\r'), ('f', '\x0c'), ('"', '"'), ('\'', '\''), ('\\', '\\')]

/-- What may stand between quotes by the rule `STRING_LITERAL2`, and the text that it stands for. -/
inductive Inside : List Char → List Char → Prop
  | nil : Inside [] []
  | char {c : Char} {raw text : List Char} (hc : c ∉ ['"', '\\', '\n', '\r']) (h : Inside raw text) :
    Inside (c :: raw) (c :: text)
  | escape {e c : Char} {raw text : List Char} (he : (e, c) ∈ escapes) (h : Inside raw text) :
    Inside ('\\' :: e :: raw) (c :: text)

/-- A literal of the rule, with its quotes, and the text that it stands for. -/
def IsLiteral (raw text : List Char) : Prop :=
  ∃ inside, raw = '"' :: (inside ++ ['"']) ∧ Inside inside text

theorem unescape?_eq_some {e c : Char} : unescape? e = some c ↔ (e, c) ∈ escapes := by
  unfold unescape?
  split <;> simp_all [escapes, eq_comm]

theorem rest?_complete {inside text : List Char} (h : Inside inside text) (rest : List Char) :
    rest? (inside ++ '"' :: rest) = some (text, rest) := by
  induction h with
  | nil => rfl
  | @char c raw text hc _ ih =>
    simp only [List.mem_cons, List.not_mem_nil, or_false, not_or] at hc
    obtain ⟨hquote, hback, hline, hreturn⟩ := hc
    rw [List.cons_append, rest?, if_neg (by simp [hback, hline, hreturn]), ih]
    · rfl
    · exact fun h => hquote h
    · exact fun _ _ h _ => hback h
  | @escape e c raw text he _ ih =>
    rw [List.cons_append, List.cons_append, rest?, unescape?_eq_some.2 he]
    simp [ih]

theorem rest?_sound {cs text rest : List Char} (h : rest? cs = some (text, rest)) :
    ∃ inside, cs = inside ++ '"' :: rest ∧ Inside inside text := by
  fun_induction rest? cs generalizing text with
  | case1 => cases h
  | case2 cs =>
    cases h
    exact ⟨[], rfl, .nil⟩
  | case3 e cs c he ih =>
    obtain ⟨⟨text, _⟩, hrest, heq⟩ := Option.map_eq_some_iff.1 h
    cases heq
    obtain ⟨inside, rfl, hinside⟩ := ih hrest
    exact ⟨'\\' :: e :: inside, rfl, .escape (unescape?_eq_some.1 he) hinside⟩
  | case4 => cases h
  | case5 => cases h
  | case6 c cs hquote _ hplain ih =>
    obtain ⟨⟨text, _⟩, hrest, heq⟩ := Option.map_eq_some_iff.1 h
    cases heq
    obtain ⟨inside, rfl, hinside⟩ := ih hrest
    refine ⟨c :: inside, rfl, .char ?_ hinside⟩
    simp only [List.mem_cons, List.not_mem_nil, or_false, not_or] at hplain ⊢
    exact ⟨fun h => hquote h, hplain⟩

/-- Scanning takes a literal of the grammar's rule off the front of a text, in the one way that there is. -/
theorem scan?_eq_some {cs text rest : List Char} :
    scan? cs = some (text, rest) ↔ ∃ raw, cs = raw ++ rest ∧ IsLiteral raw text := by
  constructor
  · intro h
    unfold scan? at h
    split at h
    · obtain ⟨inside, rfl, hinside⟩ := rest?_sound h
      exact ⟨'"' :: (inside ++ ['"']), by simp, inside, rfl, hinside⟩
    · cases h
  · rintro ⟨_, rfl, inside, rfl, hinside⟩
    simpa [scan?] using rest?_complete hinside rest

theorem toList_encode (s : String) : (encode s).toList = '"' :: (body s.toList ++ ['"']) := by
  simp [encode]

theorem scan?_encode (s : String) (rest : List Char) : scan? ((encode s).toList ++ rest) = some (s.toList, rest) := by
  simpa [toList_encode, scan?] using rest?_body s.toList rest

theorem oneLine_encode (s : String) : Text.OneLine (encode s) := by
  have hescaped : ∀ c, ∀ d ∈ escaped c, d ≠ '\n' ∧ d ≠ '\r' := by
    intro c
    unfold escaped
    split <;> simp_all
  intro d hd
  rw [toList_encode, List.mem_cons, List.mem_append, List.mem_singleton] at hd
  rcases hd with rfl | hd | rfl
  · decide
  · obtain ⟨c, -, hc⟩ := List.mem_flatMap.1 hd
    exact hescaped c d hc
  · decide

end Sparql.Literal

section Lines

open Text

theorem oneLine_numbered {c : Char} (hc : c.isAlphanum = true) (n : Nat) : OneLine (String.ofList (c :: digits n)) := by
  refine oneLine_of_forall (p := Char.isAlphanum) (by decide) fun d hd => ?_
  rw [String.toList_ofList, List.mem_cons] at hd
  rcases hd with rfl | hd
  · exact hc
  · exact Bool.or_eq_true _ _ ▸ .inr (isDigit_of_mem_digits hd)

theorem Binary64.oneLine_text (x : Binary64) : OneLine x.text := by
  have hsigned : ∀ negative (body : List Char), OneLine (String.ofList body) →
      OneLine (String.ofList (signed [] negative body)) := by
    intro negative body hbody
    rw [signed, String.ofList_append, oneLine_append]
    exact ⟨by cases negative <;> decide, hbody⟩
  cases x with
  | finite negative m =>
    refine hsigned negative _ (oneLine_of_forall (p := Service.isNumberChar) (by decide) fun c hc => ?_)
    rw [String.toList_ofList] at hc
    exact (Service.plainDigits_spec m).1 c hc
  | infinite negative => exact hsigned negative _ (by decide)
  | nan => decide

namespace Sparql

theorem Variable.Proper.oneLine_text {v : Variable} (hv : v.Proper) : OneLine v.text :=
  oneLine_append.2 ⟨by decide, oneLine_of_forall (by decide) hv⟩

theorem Term.oneLine_render (t : Term) : OneLine t.render := by
  cases t with
  | text s => exact Literal.oneLine_encode s
  | number x => exact x.oneLine_text
  | date d =>
    have hform : (Term.date d).render = Literal.encode (Timestamp.queried d) ++ "^^xsd:dateTime" := by
      apply String.toList_inj.1
      simp [render, Literal.encode, Service.body_queried]
    rw [hform, oneLine_append]
    exact ⟨Literal.oneLine_encode _, by decide⟩
  | item i => exact oneLine_append.2 ⟨by decide, oneLine_numbered (by decide) _⟩

theorem oneLine_tripleText {v : Variable} (hv : v.Proper) (p : PropertyId) {object : String} (h : OneLine object) :
    OneLine (tripleText v p object) := by
  simp only [tripleText, oneLine_append, and_assoc]
  exact ⟨hv.oneLine_text, by decide, oneLine_numbered (by decide) _, by decide, h, by decide⟩

theorem Pattern.oneLine_text {p : Pattern} (hp : ∀ v ∈ p.occurring, v.Proper) : OneLine p.text := by
  have hbraced : ∀ {front inner : String}, OneLine front → OneLine inner → OneLine (front ++ inner ++ " \x7d") :=
    fun hfront hinner => oneLine_append.2 ⟨oneLine_append.2 ⟨hfront, hinner⟩, by decide⟩
  cases p with
  | «instance» v instanceOf subclassOf type =>
    simp only [text, oneLine_append, and_assoc]
    exact ⟨(hp v List.mem_cons_self).oneLine_text, by decide, oneLine_numbered (by decide) _, by decide,
      oneLine_numbered (by decide) _, by decide, oneLine_numbered (by decide) _, by decide⟩
  | tagged v p tag => exact oneLine_tripleText (hp v List.mem_cons_self) p (Literal.oneLine_encode tag)
  | untagged v p tag =>
    exact hbraced (by decide) (oneLine_tripleText (hp v List.mem_cons_self) p (Literal.oneLine_encode tag))
  | triple v p o => exact oneLine_tripleText (hp v List.mem_cons_self) p (hp o (by simp [occurring])).oneLine_text
  | optional v p o =>
    exact hbraced (by decide) (oneLine_tripleText (hp v List.mem_cons_self) p (hp o (by simp [occurring])).oneLine_text)

theorem Constraint.oneLine_text {c : Constraint} (hc : c.subject.Proper) : OneLine c.text := by
  obtain ⟨v, test⟩ := c
  cases test with
  | compare comparison term =>
    simp only [text, oneLine_append, and_assoc]
    exact ⟨by decide, hc.oneLine_text, by decide, by cases comparison <;> decide, by decide, term.oneLine_render, by decide⟩
  | oneOf terms =>
    simp only [text, oneLine_append, and_assoc]
    refine ⟨by decide, hc.oneLine_text, by decide, oneLine_intercalate (by decide) fun s hs => ?_, by decide⟩
    obtain ⟨term, -, rfl⟩ := List.mem_map.1 hs
    exact term.oneLine_render
  | bound expected =>
    cases expected <;> simp only [text, oneLine_append] <;> exact ⟨⟨by decide, hc.oneLine_text⟩, by decide⟩
  | never =>
    have hnever : OneLine "FILTER(false)" := by decide
    exact hnever

theorem Select.splitOn_block {lines : List String} (h : ∀ line ∈ lines, OneLine line) :
    (String.join (lines.map fun line => "  " ++ line ++ "\n")).toList.splitOn '\n' =
      lines.map (fun line => ' ' :: ' ' :: line.toList) ++ [[]] := by
  induction lines with
  | nil => rfl
  | cons line rest ih =>
    rw [List.forall_mem_cons] at h
    have hline : '\n' ∉ ' ' :: ' ' :: line.toList := by
      simp only [List.mem_cons, not_or]
      exact ⟨by decide, by decide, fun hmem => (h.1 _ hmem).1 rfl⟩
    rw [toList_block_cons, ← List.cons_append, ← List.cons_append, List.splitOn_append_cons_self_of_not_mem hline, ih h.2]
    rfl

theorem Select.not_mem_block {lines : List String} (h : ∀ line ∈ lines, OneLine line) :
    '\r' ∉ (String.join (lines.map fun line => "  " ++ line ++ "\n")).toList := by
  induction lines with
  | nil => exact List.not_mem_nil
  | cons line rest ih =>
    rw [List.forall_mem_cons] at h
    rw [toList_block_cons]
    simp only [List.mem_cons, List.mem_append, not_or]
    exact ⟨by decide, by decide, fun hmem => (h.1 _ hmem).2 rfl, by decide, ih h.2⟩

theorem Select.Readable.oneLine {s : Select} (h : s.Readable) : ∀ line ∈ s.lines, OneLine line := by
  intro line hline
  rcases List.mem_append.1 hline with hline | hline
  · obtain ⟨p, hp, rfl⟩ := List.mem_map.1 hline
    exact Pattern.oneLine_text (h.patterns p hp)
  · obtain ⟨c, hc, rfl⟩ := List.mem_map.1 hline
    exact Constraint.oneLine_text (h.constraints c hc).1

end Sparql

end Lines

/--
A literal ends where it ends, and says what it says. Whatever follows it, the rule for literals takes off the literal and
nothing else, which stands for the text that it was made of, and scanning does so; two texts have two literals. No line
ends in a literal, so of every query each pattern and condition, with whatever texts in them, is a line between the braces.
-/
theorem Sparql.Literal.self_delimiting :
    (∀ (s : String) (rest raw text rest' : List Char),
      (encode s).toList ++ rest = raw ++ rest' ∧ IsLiteral raw text ↔
        raw = (encode s).toList ∧ text = s.toList ∧ rest' = rest) ∧
    (∀ (s : String) (rest : List Char), scan? ((encode s).toList ++ rest) = some (s.toList, rest)) ∧
    (∀ s t, encode s = encode t ↔ s = t) ∧
    (∀ s, '\n' ∉ (encode s).toList ∧ '\r' ∉ (encode s).toList) ∧
    ∀ (models : List Model) (schema : Schema), Schema.ofModels models = .ok schema →
      ∀ (model : String) (q : Query) (counting : Bool) (fields : List ResolvedField) (o : Outline),
        schema.fields model = .ok fields → q.outline schema model fields counting = .ok o →
        ∀ (v : Vocabulary), ∀ select ∈ [o.rows v q.limit q.offset, o.count v],
          select.block.toList.splitOn '\n' = select.lines.map (fun line => ' ' :: ' ' :: line.toList) ++ [[]] ∧
          '\r' ∉ select.block.toList := by
  have hinj : ∀ s t, encode s = encode t → s = t := by
    intro s t h
    have hscan := scan?_encode s []
    rw [h, scan?_encode t []] at hscan
    exact (String.toList_inj.1 (Prod.ext_iff.1 (Option.some.inj hscan)).1).symm
  refine ⟨fun s rest raw text rest' => ⟨?_, ?_⟩, scan?_encode, fun s t => ⟨hinj s t, congrArg encode⟩, fun s => ⟨?_, ?_⟩,
    ?_⟩
  · rintro ⟨happend, hliteral⟩
    have hscan := scan?_eq_some.2 ⟨raw, happend, hliteral⟩
    obtain ⟨rfl, rfl⟩ := Prod.ext_iff.1 (Option.some.inj ((scan?_encode s rest).symm.trans hscan))
    exact ⟨(List.append_cancel_right happend).symm, rfl, rfl⟩
  · rintro ⟨rfl, rfl, rfl⟩
    obtain ⟨raw, happend, hliteral⟩ := scan?_eq_some.1 (scan?_encode s rest')
    obtain rfl : raw = (encode s).toList := (List.append_cancel_right happend).symm
    exact ⟨rfl, hliteral⟩
  · exact fun hmem => (oneLine_encode s _ hmem).1 rfl
  · exact fun hmem => (oneLine_encode s _ hmem).2 rfl
  · intro models schema hschema model q counting fields o hfields ho v select hselect
    have hparts : select.patterns = o.patterns v ∧ select.constraints = o.constraints := by
      rw [List.mem_cons, List.mem_singleton] at hselect
      rcases hselect with rfl | rfl <;> exact ⟨rfl, rfl⟩
    have hlines := (readable_outline (Schema.valid_of_ofModels hschema) hfields ho hparts.1 hparts.2).oneLine
    exact ⟨Select.splitOn_block hlines, Select.not_mem_block hlines⟩

def noteModel : Model :=
  ⟨"Note", none, [⟨"text", .text, false, false⟩]⟩

def broken : Query :=
  { Query.all with filters := [⟨"text", .compare .equal (.text "\"\n\\")⟩] }

def noteVocabulary : Vocabulary :=
  ⟨"https://wiki.test", "a\\", ⟨⟨1⟩, ⟨2⟩, ⟨3⟩, ⟨4⟩⟩, ⟨1⟩, fun _ => ⟨5⟩⟩

theorem Sparql.Literal.self_delimiting_note : ∃ o : Outline,
    broken.outline ⟨[noteModel]⟩ "Note" (Schema.declared noteModel) false = .ok o ∧
    o.constraints.map Sparql.Constraint.text = ["FILTER(?f_text = \"\\\"\\n\\\\\")"] ∧
    Sparql.Literal.scan? ((Sparql.Literal.encode "\"\n\\").toList ++ [')']) = some (['"', '\n', '\\'], [')']) ∧
    ((o.rows noteVocabulary none none).block.toList.splitOn '\n').length = 6 := by
  obtain ⟨-, hscan, -, -, hlines⟩ := Sparql.Literal.self_delimiting
  have hschema : Schema.ofModels [noteModel] = .ok ⟨[noteModel]⟩ := rfl
  refine ⟨_, rfl, by decide, hscan _ _, ?_⟩
  have hblock := (hlines _ _ hschema "Note" broken false _ _ rfl rfl noteVocabulary _ List.mem_cons_self).1
  exact (congrArg List.length hblock).trans rfl

end ClaimTables
