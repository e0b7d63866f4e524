import ClaimTables.Proofs.Sparql.Reading

/-!
The tokens of a query's text, as far as literals go: a literal from quote to quote, and each character outside of
literals. Two texts are twins if they differ in literals only, each of which holds a tag or one of a list of texts.
-/

namespace ClaimTables.Sparql

inductive Token where
  | literal (raw : List Char)
  | char (c : Char)
deriving DecidableEq

/-- The tokens of a text, or of the rest of one that is inside a literal, behind its characters so far in reverse. -/
def tokensFrom? : (inside : Option (List Char)) → List Char → Option (List Token)
  | none, [] => some []
  | none, '"' :: cs => tokensFrom? (some []) cs
  | none, c :: cs => (tokensFrom? none cs).map (.char c :: ·)
  | some _, [] => none
  | some raw, '"' :: cs => (tokensFrom? none cs).map (.literal raw.reverse :: ·)
  | some raw, '\\' :: e :: cs =>
    if (Literal.unescape? e).isSome then tokensFrom? (some (e :: '\\' :: raw)) cs else none
  | some raw, c :: cs => if c = '\\' ∨ c = '\n' ∨ c = '\r' then none else tokensFrom? (some (c :: raw)) cs

def tokens? (s : String) : Option (List Token) :=
  tokensFrom? none s.toList

def Literal.text? (raw : List Char) : Option String :=
  match Literal.rest? (raw ++ ['"']) with
  | some (text, []) => some (String.ofList text)
  | _ => none

theorem Literal.text?_body (s : String) : Literal.text? (Literal.body s.toList) = some s := by
  rw [text?, rest?_body]
  exact congrArg some String.ofList_toList

def Reads (s : String) (tokens : List Token) : Prop :=
  ∀ rest, tokensFrom? none (s.toList ++ rest) = (tokensFrom? none rest).map (tokens ++ ·)

theorem Reads.tokens? {s : String} {tokens : List Token} (h : Reads s tokens) : tokens? s = some tokens := by
  have hread := h []
  rwa [List.append_nil, tokensFrom?, Option.map_some, List.append_nil] at hread

theorem Reads.append {s t : String} {first second : List Token} (hs : Reads s first) (ht : Reads t second) :
    Reads (s ++ t) (first ++ second) := by
  intro rest
  rw [String.toList_append, List.append_assoc, hs, ht, Option.map_map]
  exact congrArg (Option.map · _) (funext fun tokens => (List.append_assoc _ _ _).symm)

theorem tokensFrom?_char {c : Char} (hc : c ≠ '"') (cs : List Char) :
    tokensFrom? none (c :: cs) = (tokensFrom? none cs).map (.char c :: ·) := by
  rw [tokensFrom?]
  exact fun h => hc h

theorem reads_plain {s : String} (h : '"' ∉ s.toList) : Reads s (s.toList.map .char) := by
  intro rest
  generalize s.toList = cs at h
  induction cs with
  | nil => simp
  | cons c cs ih =>
    rw [List.mem_cons, not_or] at h
    rw [List.cons_append, tokensFrom?_char (Ne.symm h.1), ih h.2, Option.map_map]
    rfl

theorem tokensFrom?_escaped (raw : List Char) (c : Char) (cs : List Char) :
    tokensFrom? (some raw) (Literal.escaped c ++ cs) = tokensFrom? (some ((Literal.escaped c).reverse ++ raw)) cs := by
  unfold Literal.escaped
  split
  · rfl
  · rfl
  · rfl
  · rfl
  · rfl
  · next h1 h2 h3 h4 h5 =>
    have hplain : ¬(c = '\\' ∨ c = '\n' ∨ c = '\r') := by
      rintro (h | h | h)
      · exact h2 h
      · exact h3 h
      · exact h4 h
    rw [List.singleton_append, tokensFrom?, if_neg hplain]
    · rfl
    · exact fun h => h1 h
    · exact fun _ _ h _ => h2 h

theorem tokensFrom?_body (raw cs rest : List Char) : tokensFrom? (some raw) (Literal.body cs ++ '"' :: rest) =
    (tokensFrom? none rest).map (.literal (raw.reverse ++ Literal.body cs) :: ·) := by
  induction cs generalizing raw with
  | nil => simp [Literal.body, tokensFrom?]
  | cons c cs ih =>
    have hbody : Literal.body (c :: cs) = Literal.escaped c ++ Literal.body cs := rfl
    rw [hbody, List.append_assoc, tokensFrom?_escaped, ih]
    simp

theorem reads_encode (s : String) : Reads (Literal.encode s) [.literal (Literal.body s.toList)] := by
  intro rest
  have htext : (Literal.encode s).toList ++ rest = '"' :: (Literal.body s.toList ++ '"' :: rest) := by
    simp [Literal.encode]
  rw [htext, tokensFrom?, tokensFrom?_body]
  rfl

/-- Tokens that differ in literals only: these hold the two tags, or the texts of two lists in turn. -/
inductive Twin (tag tag' : String) : List String → List String → List Token → List Token → Prop
  | nil : Twin tag tag' [] [] [] []
  | same {vs ws ts us} (t : Token) : Twin tag tag' vs ws ts us → Twin tag tag' vs ws (t :: ts) (t :: us)
  | tag {vs ws ts us} {raw raw' : List Char} : Literal.text? raw = some tag → Literal.text? raw' = some tag' →
    Twin tag tag' vs ws ts us → Twin tag tag' vs ws (.literal raw :: ts) (.literal raw' :: us)
  | value {vs ws ts us} {v w : String} {raw raw' : List Char} : Literal.text? raw = some v →
    Literal.text? raw' = some w → Twin tag tag' vs ws ts us →
    Twin tag tag' (v :: vs) (w :: ws) (.literal raw :: ts) (.literal raw' :: us)

variable {tag tag' : String} {vs ws vs' ws' : List String}

theorem Twin.refl (tokens : List Token) : Twin tag tag' [] [] tokens tokens := by
  induction tokens with
  | nil => exact .nil
  | cons t tokens ih => exact .same t ih

theorem Twin.append {ts us ts' us' : List Token} (h : Twin tag tag' vs ws ts us) (h' : Twin tag tag' vs' ws' ts' us') :
    Twin tag tag' (vs ++ vs') (ws ++ ws') (ts ++ ts') (us ++ us') := by
  induction h with
  | nil => exact h'
  | same t _ ih => exact .same t ih
  | tag hraw hraw' _ ih => exact .tag hraw hraw' ih
  | value hraw hraw' _ ih => exact .value hraw hraw' ih

theorem Twin.length_eq {ts us : List Token} (h : Twin tag tag' vs ws ts us) : ts.length = us.length := by
  induction h with
  | nil => rfl
  | same _ _ ih | tag _ _ _ ih | value _ _ _ ih => exact congrArg (· + 1) ih

def Alike (tag tag' : String) (vs ws : List String) (s t : String) : Prop :=
  ∃ tokens tokens', Reads s tokens ∧ Reads t tokens' ∧ Twin tag tag' vs ws tokens tokens'

theorem Alike.append {s t s' t' : String} (h : Alike tag tag' vs ws s t) (h' : Alike tag tag' vs' ws' s' t') :
    Alike tag tag' (vs ++ vs') (ws ++ ws') (s ++ s') (t ++ t') := by
  obtain ⟨ts, us, hs, ht, htwin⟩ := h
  obtain ⟨ts', us', hs', ht', htwin'⟩ := h'
  exact ⟨_, _, hs.append hs', ht.append ht', htwin.append htwin'⟩

theorem alike_of_reads {s : String} {tokens : List Token} (h : Reads s tokens) : Alike tag tag' [] [] s s :=
  ⟨tokens, tokens, h, h, .refl tokens⟩

theorem alike_plain {s : String} (h : '"' ∉ s.toList) : Alike tag tag' [] [] s s :=
  alike_of_reads (reads_plain h)

theorem alike_tag : Alike tag tag' [] [] (Literal.encode tag) (Literal.encode tag') :=
  ⟨_, _, reads_encode tag, reads_encode tag', .tag (Literal.text?_body tag) (Literal.text?_body tag') .nil⟩

theorem alike_value (v w : String) : Alike tag tag' [v] [w] (Literal.encode v) (Literal.encode w) :=
  ⟨_, _, reads_encode v, reads_encode w, .value (Literal.text?_body v) (Literal.text?_body w) .nil⟩

end ClaimTables.Sparql
