import ClaimTables.Proofs.Binary64.RoundTrip
import ClaimTables.Proofs.Calendar.RoundTrip
import ClaimTables.Proofs.Service.Syntax
import ClaimTables.Sparql.Select

/-!
The lines of a query are read by the query service as what their patterns and conditions say, whatever the tag
and the texts in them.
-/

namespace ClaimTables

def Magnitude.written (m : Magnitude) : ℚ :=
  if m = .zero then 0 else (m.shortest .upper).value

def Binary64.written : Binary64 → ℚ
  | .finite true m => -m.written
  | .finite false m => m.written
  | _ => 0

namespace Sparql

open Service (Edge Element Expression Node Slot)

namespace Term

def node : Term → Node
  | .text s => .text s
  | .number x => .number x.written
  | .date d => .date d
  | .item i => .item i

def Proper : Term → Prop
  | .number x => x.isFinite = true
  | _ => True

end Term

namespace Variable

def slot (v : Variable) : Slot :=
  .variable v.name

def Proper (v : Variable) : Prop :=
  ∀ c ∈ v.name.toList, Service.isNameChar c = true

end Variable

namespace Pattern

def element : Pattern → Element
  | .instance v instanceOf subclassOf type => .path v.slot instanceOf subclassOf (.item type)
  | .tagged v p tag => .edge ⟨v.slot, p, .constant (.text tag)⟩
  | .untagged v p tag => .notExists ⟨v.slot, p, .constant (.text tag)⟩
  | .triple v p o => .edge ⟨v.slot, p, o.slot⟩
  | .optional v p o => .optional ⟨v.slot, p, o.slot⟩

def occurring : Pattern → List Variable
  | .instance v _ _ _ | .tagged v _ _ | .untagged v _ _ => [v]
  | .triple v _ o | .optional v _ o => [v, o]

end Pattern

namespace Constraint

def expression (c : Constraint) : Expression :=
  match c.test with
  | .compare comparison term => .compare comparison c.subject.slot (.constant term.node)
  | .oneOf terms => .isIn c.subject.slot (terms.map fun t => .constant t.node)
  | .bound true => .bound c.subject.name
  | .bound false => .not (.bound c.subject.name)
  | .never => .truth false

def element (c : Constraint) : Element :=
  .filter c.expression

def terms (c : Constraint) : List Term :=
  match c.test with
  | .compare _ term => [term]
  | .oneOf terms => terms
  | _ => []

end Constraint

end Sparql

namespace Service

open Sparql (Constraint Pattern Term Variable)

variable {c : Char} (rest : List Char)

theorem takeWhile_stop {p : Char → Bool} {cs : List Char} (hcs : ∀ d ∈ cs, p d = true) (hc : p c = false) :
    (cs ++ c :: rest).takeWhile p = cs := by
  rw [List.takeWhile_append_of_pos hcs, List.takeWhile_cons_of_neg (Bool.not_eq_true _ ▸ hc), List.append_nil]

theorem dropWhile_stop {p : Char → Bool} {cs : List Char} (hcs : ∀ d ∈ cs, p d = true) (hc : p c = false) :
    (cs ++ c :: rest).dropWhile p = c :: rest := by
  rw [List.dropWhile_append_of_pos hcs, List.dropWhile_cons_of_neg (Bool.not_eq_true _ ▸ hc)]

theorem name?_text {v : Variable} (hv : v.Proper) (hc : isNameChar c = false) :
    name? (v.text.toList ++ c :: rest) = some (v.name, c :: rest) := by
  have htext : v.text.toList = '?' :: v.name.toList := by simp [Variable.text]
  rw [htext, List.cons_append, name?, takeWhile_stop rest hv hc, dropWhile_stop rest hv hc, String.ofList_toList]

theorem slot?_variable {v : Variable} (hv : v.Proper) (hc : isNameChar c = false) :
    slot? (v.text.toList ++ c :: rest) = some (v.slot, c :: rest) := by
  have hname := name?_text rest hv hc
  have htext : v.text.toList = '?' :: v.name.toList := by simp [Variable.text]
  rw [htext, List.cons_append] at hname ⊢
  rw [slot?, hname]
  rfl

theorem word?_digits (n : UInt64) (hc : c.isDigit = false) :
    word? (Text.digits n.toNat ++ c :: rest) = some (n, c :: rest) := by
  have hdigits : ∀ d ∈ Text.digits n.toNat, d.isDigit = true := fun d hd => Text.isDigit_of_mem_digits hd
  rw [word?, takeWhile_stop rest hdigits hc, dropWhile_stop rest hdigits hc, Text.word?_digits]
  rfl

theorem property?_text (p : PropertyId) (hc : c.isDigit = false) :
    property? ("wdt:".toList ++ (p.text.toList ++ c :: rest)) = some (p, c :: rest) := by
  have htext : "wdt:".toList ++ (p.text.toList ++ c :: rest) =
      "wdt:P".toList ++ (Text.digits p.number.toNat ++ c :: rest) := by simp [PropertyId.text]
  rw [htext, property?, Text.afterFront?_eq_some.2 rfl]
  simp only [Option.bind_eq_bind, Option.bind_some, word?_digits rest p.number hc]

theorem item?_text (i : ItemId) (hc : c.isDigit = false) :
    item? ("wd:".toList ++ (i.text.toList ++ c :: rest)) = some (i, c :: rest) := by
  have htext : "wd:".toList ++ (i.text.toList ++ c :: rest) =
      "wd:Q".toList ++ (Text.digits i.number.toNat ++ c :: rest) := by simp [ItemId.text]
  rw [htext, item?, Text.afterFront?_eq_some.2 rfl]
  simp only [Option.bind_eq_bind, Option.bind_some, word?_digits rest i.number hc]

theorem plainDigits_spec (m : Magnitude) : (∀ d ∈ Binary64.plainDigits m, isNumberChar d = true) ∧
    (Decimal.ofList? (Binary64.plainDigits m)).map Decimal.value = some m.written := by
  unfold Binary64.plainDigits Magnitude.written
  split
  · refine ⟨List.all_eq_true.1 rfl, ?_⟩
    have hzero : Decimal.ofList? ['0'] = some ⟨0, 0⟩ := rfl
    rw [hzero, Option.map_some, Decimal.value, Nat.cast_zero, zero_mul]
  · have hdigits : ∀ c ∈ (Numeral.ofDecimal (m.shortest .upper)).digits, c.isDigit = true :=
      fun c hc => Numeral.isDigit_of_mem_ofDecimal hc
    have hvalue := (Numeral.value_positional _).trans (Numeral.value_ofDecimal (m.shortest .upper))
    generalize Numeral.ofDecimal (m.shortest .upper) = n at hdigits hvalue ⊢
    have hread := Decimal.ofList?_pointed n.whole_ne_nil fun c => Numeral.isDigit_of_mem_positional hdigits
    have hall : ∀ d ∈ n.positional.1 ++ n.positional.2, isNumberChar d = true := fun d hd =>
      Bool.or_eq_true _ _ ▸ .inl (Numeral.isDigit_of_mem_positional hdigits hd)
    refine ⟨fun d hd => ?_, ?_⟩
    · dsimp only at hd
      unfold Binary64.pointed at hd
      split at hd
      · exact hall d (List.mem_append_left _ hd)
      · rcases List.mem_append.1 hd with hd | hd
        · exact hall d (List.mem_append_left _ hd)
        · rcases List.mem_cons.1 hd with rfl | hd
          · rfl
          · exact hall d (List.mem_append_right _ hd)
    · dsimp only
      rw [hread, Option.map_some, hvalue]

theorem unsigned?_plainDigits (m : Magnitude) (hc : isNumberChar c = false) :
    unsigned? (Binary64.plainDigits m ++ c :: rest) = some (m.written, c :: rest) := by
  obtain ⟨hparts, hvalue⟩ := plainDigits_spec m
  obtain ⟨d, hread, hd⟩ := Option.map_eq_some_iff.1 hvalue
  rw [unsigned?, takeWhile_stop rest hparts hc, dropWhile_stop rest hparts hc, hread, Option.map_some, hd]

theorem number?_text {x : Binary64} (hx : x.isFinite = true) (hc : isNumberChar c = false) :
    number? (x.text.toList ++ c :: rest) = some (x.written, c :: rest) := by
  cases x with
  | nan | infinite _ => exact nomatch hx
  | finite negative m =>
    have hread := unsigned?_plainDigits rest m hc
    cases negative with
    | true =>
      have htext : (Binary64.finite true m).text.toList = '-' :: Binary64.plainDigits m := by
        simp [Binary64.text, Binary64.toList, Binary64.signed]
      rw [htext, List.cons_append, number?, hread]
      rfl
    | false =>
      have htext : (Binary64.finite false m).text.toList = Binary64.plainDigits m := by
        simp [Binary64.text, Binary64.toList, Binary64.signed]
      obtain ⟨d, cs, heq, hd⟩ := Binary64.plainDigits_eq_cons m
      rw [htext, heq, List.cons_append]
      rw [heq, List.cons_append] at hread
      unfold number?
      split
      · next h =>
        obtain ⟨rfl, _⟩ := List.cons.inj h
        exact absurd hd (by decide)
      · exact hread

theorem text_eq_cons {x : Binary64} (hx : x.isFinite = true) :
    ∃ d cs, x.text.toList = d :: cs ∧ (d = '-' ∨ d.isDigit = true) := by
  cases x with
  | nan | infinite _ => exact nomatch hx
  | finite negative m =>
    obtain ⟨d, cs, heq, hd⟩ := Binary64.plainDigits_eq_cons m
    cases negative with
    | true => exact ⟨'-', d :: cs, by simp [Binary64.text, Binary64.toList, Binary64.signed, heq], .inl rfl⟩
    | false => exact ⟨d, cs, by simp [Binary64.text, Binary64.toList, Binary64.signed, heq], .inr hd⟩

theorem constant?_number {d : Char} (hd : d = '-' ∨ d.isDigit = true) (cs : List Char) :
    constant? (d :: cs) = (number? (d :: cs)).map fun (q, rest) => (.number q, rest) := by
  unfold constant?
  split
  · next h =>
    obtain ⟨rfl, _⟩ := List.cons.inj h
    exact absurd hd (by decide)
  · next h =>
    obtain ⟨rfl, _⟩ := List.cons.inj h
    exact absurd hd (by decide)
  · rfl

theorem body_queried (d : Date) :
    Sparql.Literal.body (Timestamp.queried d).toList = (Timestamp.queried d).toList := by
  have hplain : ∀ e ∈ (Timestamp.queried d).toList, Sparql.Literal.escaped e = [e] := by
    have hdigit : ∀ e : Char, e.isDigit = true → Sparql.Literal.escaped e = [e] := by
      intro e he
      unfold Sparql.Literal.escaped
      split
      all_goals first | rfl | exact absurd he (by decide)
    have hall : Timestamp.midnight.all (fun e => Sparql.Literal.escaped e = [e]) = true := rfl
    have hend : ∀ e ∈ Timestamp.midnight, Sparql.Literal.escaped e = [e] :=
      fun e he => of_decide_eq_true (List.all_eq_true.1 hall e he)
    intro e he
    simp only [Timestamp.queried, Date.monthDay, String.toList_ofList, List.mem_append, List.mem_cons] at he
    rcases he with ((he | he) | (rfl | he) | rfl | he) | he
    · split at he
      · rw [List.mem_singleton.1 he]
        rfl
      · exact absurd he List.not_mem_nil
    · exact hdigit e (Text.isDigit_of_mem_padded he)
    · rfl
    · exact hdigit e (Text.isDigit_of_mem_padded he)
    · rfl
    · exact hdigit e (Text.isDigit_of_mem_padded he)
    · exact hend e he
  rw [Sparql.Literal.body, List.flatMap_congr hplain, List.flatMap_singleton']

def Ends (c : Char) : Prop :=
  c = ' ' ∨ c = ')' ∨ c = ','

theorem constant?_render {t : Term} (ht : t.Proper) (hc : Ends c) :
    constant? (t.render.toList ++ c :: rest) = some (t.node, c :: rest) := by
  -- What follows a term ends it: a blank, a bracket or a comma.
  cases t with
  | text s =>
    have htext : (Term.text s).render.toList ++ c :: rest =
        '"' :: (Sparql.Literal.body s.toList ++ '"' :: c :: rest) := by
      simp [Term.render, Sparql.Literal.encode]
    have hno : Text.afterFront? "^^xsd:dateTime".toList (c :: rest) = none := by
      rcases hc with rfl | rfl | rfl <;> rfl
    rw [htext, constant?, literal?, Sparql.Literal.rest?_body]
    simp only [Option.bind_eq_bind, Option.bind_some, hno, String.ofList_toList, Term.node]
  | number x =>
    have hend : isNumberChar c = false := by rcases hc with rfl | rfl | rfl <;> rfl
    have hread := number?_text rest ht hend
    obtain ⟨d, cs, htext, hd⟩ := text_eq_cons ht
    rw [htext, List.cons_append] at hread
    rw [Term.render, htext, List.cons_append, constant?_number hd, hread]
    rfl
  | date d =>
    have htext : (Term.date d).render.toList ++ c :: rest =
        '"' :: (Sparql.Literal.body (Timestamp.queried d).toList ++ '"' ::
          ("^^xsd:dateTime".toList ++ c :: rest)) := by
      rw [body_queried]
      simp [Term.render]
    rw [htext, constant?, literal?, Sparql.Literal.rest?_body]
    simp only [Option.bind_eq_bind, Option.bind_some, Text.afterFront?_eq_some.2 rfl, String.ofList_toList,
      Timestamp.ofQueried?_queried, Option.map_some, Term.node]
  | item i =>
    have hend : c.isDigit = false := by rcases hc with rfl | rfl | rfl <;> rfl
    have hread := item?_text rest i hend
    have htext : (Term.item i).render.toList ++ c :: rest = "wd:".toList ++ (i.text.toList ++ c :: rest) := by
      simp [Term.render]
    rw [htext]
    exact congrArg (Option.map _) hread

theorem slot?_render {t : Term} (ht : t.Proper) (hc : Ends c) :
    slot? (t.render.toList ++ c :: rest) = some (.constant t.node, c :: rest) := by
  have hread := constant?_render rest ht hc
  unfold slot?
  split
  · next cs h =>
    rw [h] at hread
    exact nomatch hread
  · rw [hread]
    rfl

theorem afterFront?_append (piece cs : List Char) : Text.afterFront? piece (piece ++ cs) = some cs :=
  Text.afterFront?_eq_some.2 rfl

theorem afterFront?_blank (cs : List Char) : Text.afterFront? " ".toList (' ' :: cs) = some cs :=
  rfl

theorem object?_text {s : Slot} {text : List Char}
    (h : ∀ rest, slot? (text ++ ' ' :: rest) = some (s, ' ' :: rest)) :
    object? (' ' :: (text ++ ' ' :: '.' :: rest)) = some (s, rest) := by
  have hpoint : Text.afterFront? " .".toList (' ' :: '.' :: rest) = some rest := rfl
  simp only [object?, afterFront?_blank, h, hpoint, Option.bind_eq_bind, Option.bind_some]

theorem tripleText_append (v : Variable) (p : PropertyId) (object : String) (rest : List Char) :
    (Sparql.tripleText v p object).toList ++ rest =
      v.text.toList ++ ' ' :: ("wdt:".toList ++ (p.text.toList ++ ' ' :: (object.toList ++ ' ' :: '.' :: rest))) := by
  simp [Sparql.tripleText]

theorem edge?_text {v : Variable} (hv : v.Proper) (p : PropertyId) {s : Slot} {object : String}
    (h : ∀ rest, slot? (object.toList ++ ' ' :: rest) = some (s, ' ' :: rest)) :
    edge? ((Sparql.tripleText v p object).toList ++ rest) = some (⟨v.slot, p, s⟩, rest) := by
  have hsubject := fun cs => slot?_variable (c := ' ') cs hv rfl
  have hproperty := fun cs => property?_text (c := ' ') cs p rfl
  simp only [tripleText_append, edge?, hsubject, afterFront?_blank, hproperty, object?_text rest h, Option.bind_eq_bind,
    Option.bind_some]

theorem path?_tripleText {v : Variable} (hv : v.Proper) (p : PropertyId) (object : String) :
    path? ((Sparql.tripleText v p object).toList ++ rest) = none := by
  have hsubject := fun cs => slot?_variable (c := ' ') cs hv rfl
  have hproperty := fun cs => property?_text (c := ' ') cs p rfl
  have hslash : ∀ cs, Text.afterFront? "/".toList (' ' :: cs) = none := fun _ => rfl
  simp only [tripleText_append, path?, hsubject, afterFront?_blank, hproperty, hslash, Option.bind_eq_bind, Option.bind_some,
    Option.bind_none]

theorem braced?_text {v : Variable} (hv : v.Proper) (p : PropertyId) {s : Slot} {object : String}
    (h : ∀ rest, slot? (object.toList ++ ' ' :: rest) = some (s, ' ' :: rest)) :
    braced? (" \x7b ".toList ++ ((Sparql.tripleText v p object).toList ++ (" \x7d".toList ++ rest))) =
      some (⟨v.slot, p, s⟩, rest) := by
  simp only [braced?, afterFront?_append, edge?_text _ hv p h, Option.bind_eq_bind, Option.bind_some]

theorem text_eq_question (v : Variable) (cs : List Char) : v.text.toList ++ cs = '?' :: (v.name.toList ++ cs) := by
  simp [Variable.text]

theorem element?_edge {v : Variable} (hv : v.Proper) (p : PropertyId) {s : Slot} {object : String}
    (h : ∀ rest, slot? (object.toList ++ ' ' :: rest) = some (s, ' ' :: rest)) :
    element? ((Sparql.tripleText v p object).toList ++ rest) = some (.edge ⟨v.slot, p, s⟩, rest) := by
  have hpath := path?_tripleText rest hv p object
  have hedge := edge?_text rest hv p h
  have hhead : ∃ cs, (Sparql.tripleText v p object).toList ++ rest = '?' :: cs :=
    ⟨_, by simp [Sparql.tripleText, Variable.text]; rfl⟩
  obtain ⟨cs, hcs⟩ := hhead
  rw [hcs] at hpath hedge ⊢
  rw [element?, hpath, hedge]
  · rfl
  · exact fun _ hc => by simp at hc
  · exact fun _ hc => by simp at hc

theorem slot?_encode (tag : String) (rest : List Char) :
    slot? ((Sparql.Literal.encode tag).toList ++ ' ' :: rest) = some (.constant (.text tag), ' ' :: rest) :=
  slot?_render (t := .text tag) rest trivial (.inl rfl)

theorem element?_path {v : Variable} (hv : v.Proper) (p q : PropertyId) (i : ItemId) :
    element? ((Pattern.instance v p q i).text.toList ++ rest) = some (.path v.slot p q (.item i), rest) := by
  have htext : (Pattern.instance v p q i).text.toList ++ rest =
      v.text.toList ++ ' ' :: ("wdt:".toList ++ (p.text.toList ++ '/' :: ("wdt:".toList ++ (q.text.toList ++
        '*' :: ' ' :: ((Term.item i).render.toList ++ ' ' :: '.' :: rest))))) := by
    simp [Pattern.text, Term.render]
  have hsubject := fun cs => slot?_variable (c := ' ') cs hv rfl
  have hfirst := fun cs => property?_text (c := '/') cs p rfl
  have hthen := fun cs => property?_text (c := '*') cs q rfl
  have hslash : ∀ cs, Text.afterFront? "/".toList ('/' :: cs) = some cs := fun _ => rfl
  have hstar : ∀ cs, Text.afterFront? "* ".toList ('*' :: ' ' :: cs) = some cs := fun _ => rfl
  have hgoal := fun cs => constant?_render (c := ' ') (t := .item i) cs trivial (.inl rfl)
  have hpoint : Text.afterFront? " .".toList (' ' :: '.' :: rest) = some rest := rfl
  have hpath : path? ((Pattern.instance v p q i).text.toList ++ rest) = some (.path v.slot p q (.item i), rest) := by
    simp only [htext, path?, hsubject, afterFront?_blank, hfirst, hslash, hthen, hstar, hgoal, hpoint,
      Option.bind_eq_bind, Option.bind_some, Term.node]
  rw [htext, text_eq_question] at hpath ⊢
  rw [element?, hpath]
  · rfl
  · exact fun _ hc => by simp at hc
  · exact fun _ hc => by simp at hc

theorem element?_pattern {p : Pattern} (hp : ∀ v ∈ p.occurring, v.Proper) :
    element? (p.text.toList ++ rest) = some (p.element, rest) := by
  cases p with
  | «instance» v instanceOf subclassOf type => exact element?_path rest (hp v (by simp [Pattern.occurring])) _ _ _
  | tagged v p tag => exact element?_edge rest (hp v (by simp [Pattern.occurring])) p (slot?_encode tag)
  | untagged v p tag =>
    have hv := hp v (by simp [Pattern.occurring])
    have htext : (Pattern.untagged v p tag).text.toList ++ rest =
        'F' :: ("ILTER".toList ++ (" NOT EXISTS".toList ++ (" \x7b ".toList ++
          ((Sparql.tripleText v p (Sparql.Literal.encode tag)).toList ++ (" \x7d".toList ++ rest))))) := by
      have hfront : "FILTER NOT EXISTS \x7b ".toList =
          'F' :: ("ILTER".toList ++ (" NOT EXISTS".toList ++ " \x7b ".toList)) := rfl
      have hline : (Pattern.untagged v p tag).text =
          "FILTER NOT EXISTS \x7b " ++ Sparql.tripleText v p (Sparql.Literal.encode tag) ++ " \x7d" := rfl
      rw [hline, String.toList_append, String.toList_append, hfront]
      simp only [List.append_assoc, List.cons_append]
    have hbracket : ∀ cs, Text.afterFront? "(".toList (" NOT EXISTS".toList ++ cs) = none := fun _ => rfl
    simp only [htext, element?, filter?, afterFront?_append, hbracket, braced?_text rest hv p (slot?_encode tag),
      Option.bind_eq_bind, Option.bind_some, Pattern.element]
  | triple v p o =>
    have hv := hp v (by simp [Pattern.occurring])
    have ho := hp o (by simp [Pattern.occurring])
    exact element?_edge rest hv p fun rest => slot?_variable rest ho rfl
  | optional v p o =>
    have hv := hp v (by simp [Pattern.occurring])
    have ho := hp o (by simp [Pattern.occurring])
    have htext : (Pattern.optional v p o).text.toList ++ rest =
        'O' :: ("PTIONAL".toList ++ (" \x7b ".toList ++
          ((Sparql.tripleText v p o.text).toList ++ (" \x7d".toList ++ rest)))) := by
      simp [Pattern.text, Sparql.tripleText]
    have hobject := fun rest => slot?_variable (c := ' ') rest ho rfl
    simp only [htext, element?, afterFront?_append, braced?_text rest hv p hobject, Option.bind_eq_bind,
      Option.bind_some, Pattern.element]

theorem comparison?_symbol (c : Comparison) : comparison? c.symbol = some c := by
  cases c <;> rfl

theorem symbol_takeWhile (c : Comparison) : c.symbol.toList.all (· ≠ ' ') = true := by
  cases c <;> rfl

def listed (terms : List Term) : List Char :=
  terms.flatMap fun t => ", ".toList ++ t.render.toList

theorem listed_cons (t : Term) (terms : List Term) :
    listed (t :: terms) = ", ".toList ++ (t.render.toList ++ listed terms) := by
  rw [listed, List.flatMap_cons, List.append_assoc]
  rfl

theorem length_le_listed (terms : List Term) : terms.length ≤ (listed terms).length := by
  induction terms with
  | nil => exact Nat.le_refl 0
  | cons t terms ih =>
    have hcomma : ", ".toList.length = 2 := rfl
    rw [listed_cons, List.length_append, List.length_append, List.length_cons, hcomma]
    omega

theorem toList_intercalate (t : Term) (terms : List Term) :
    (", ".intercalate ((t :: terms).map Term.render)).toList = t.render.toList ++ listed terms := by
  induction terms generalizing t with
  | nil => simp [listed]
  | cons u terms ih =>
    have ih := ih u
    rw [List.map_cons] at ih
    rw [List.map_cons, List.map_cons, String.intercalate_cons_cons, String.toList_append, String.toList_append, ih,
      listed_cons, List.append_assoc]

theorem ends_listed (terms : List Term) : ∃ c cs, listed terms ++ ')' :: rest = c :: cs ∧ Ends c := by
  cases terms with
  | nil => exact ⟨')', rest, rfl, .inr (.inl rfl)⟩
  | cons t terms =>
    rw [listed_cons]
    exact ⟨',', ' ' :: _, rfl, .inr (.inr rfl)⟩

theorem more?_listed {terms : List Term} (hterms : ∀ t ∈ terms, t.Proper) {fuel : Nat} (hfuel : terms.length < fuel) :
    more? fuel (listed terms ++ ')' :: rest) = some (terms.map fun t => .constant t.node, ')' :: rest) := by
  induction terms generalizing fuel with
  | nil =>
    obtain ⟨fuel, rfl⟩ := Nat.exists_eq_succ_of_ne_zero hfuel.ne'
    rfl
  | cons t terms ih =>
    obtain ⟨fuel, rfl⟩ := Nat.exists_eq_succ_of_ne_zero (Nat.ne_zero_of_lt hfuel)
    obtain ⟨c, cs, hcs, hc⟩ := ends_listed rest terms
    have hmore := ih (fun u hu => hterms u (List.mem_cons_of_mem _ hu)) (Nat.lt_of_succ_lt_succ hfuel)
    rw [hcs] at hmore
    rw [listed_cons, List.append_assoc, List.append_assoc, more?, afterFront?_append, hcs]
    simp only [slot?_render cs (hterms t List.mem_cons_self) hc, hmore, Option.bind_eq_bind, Option.bind_some,
      List.map_cons]

theorem terms?_intercalate {t : Term} {terms : List Term} (hterms : ∀ u ∈ t :: terms, u.Proper) :
    terms? ((", ".intercalate ((t :: terms).map Term.render)).toList ++ ')' :: rest) =
      some ((t :: terms).map fun u => .constant u.node, ')' :: rest) := by
  obtain ⟨c, cs, hcs, hc⟩ := ends_listed rest terms
  have hfuel : terms.length < (listed terms ++ ')' :: rest).length := by
    have hle := length_le_listed terms
    rw [List.length_append, List.length_cons]
    omega
  have hmore := more?_listed rest (fun u hu => hterms u (List.mem_cons_of_mem _ hu)) hfuel
  rw [hcs] at hmore
  rw [toList_intercalate, List.append_assoc, hcs]
  simp only [terms?, slot?_render cs (hterms t List.mem_cons_self) hc, hmore, Option.bind_eq_bind, Option.bind_some,
    List.map_cons]

theorem relation?_compare {v : Variable} (hv : v.Proper) (comparison : Comparison) {t : Term} (ht : t.Proper) :
    relation? (v.text.toList ++ ' ' :: (comparison.symbol.toList ++ ' ' :: (t.render.toList ++ ')' :: rest))) =
      some (.compare comparison v.slot (.constant t.node), ')' :: rest) := by
  have hsubject := fun cs => slot?_variable (c := ' ') cs hv rfl
  have hin : ∀ cs, Text.afterFront? "IN (".toList (comparison.symbol.toList ++ cs) = none := by
    intro cs
    cases comparison <;> rfl
  have hsymbol : ∀ d ∈ comparison.symbol.toList, decide (d ≠ ' ') = true :=
    List.all_eq_true.1 (symbol_takeWhile comparison)
  have htake := fun cs => takeWhile_stop (c := ' ') cs hsymbol rfl
  have hdrop := fun cs => dropWhile_stop (c := ' ') cs hsymbol rfl
  simp only [relation?, hsubject, afterFront?_blank, hin, htake, hdrop, String.ofList_toList, comparison?_symbol,
    slot?_render _ ht (.inr (.inl rfl)), Option.bind_eq_bind, Option.bind_some]

theorem relation?_isIn {v : Variable} (hv : v.Proper) {t : Term} {terms : List Term}
    (hterms : ∀ u ∈ t :: terms, u.Proper) :
    relation? (v.text.toList ++ ' ' :: ("IN (".toList ++
        ((", ".intercalate ((t :: terms).map Term.render)).toList ++ ')' :: rest))) =
      some (.isIn v.slot ((t :: terms).map fun u => .constant u.node), rest) := by
  have hsubject := fun cs => slot?_variable (c := ' ') cs hv rfl
  have hclose : Text.afterFront? ")".toList (')' :: rest) = some rest := rfl
  simp only [relation?, hsubject, afterFront?_blank, afterFront?_append, terms?_intercalate rest hterms, hclose,
    Option.bind_eq_bind, Option.bind_some]

theorem expression?_relation (v : Variable) (cs : List Char) :
    expression? (v.text.toList ++ cs) = relation? (v.text.toList ++ cs) := by
  rw [text_eq_question]
  unfold expression?
  split
  · next h => exact absurd (List.cons.inj h).1 (by decide)
  · next h => exact absurd (List.cons.inj h).1 (by decide)
  · next h => exact absurd (List.cons.inj h).1 (by decide)
  · rfl

theorem bound?_text {v : Variable} (hv : v.Proper) :
    bound? ("BOUND(".toList ++ (v.text.toList ++ ')' :: rest)) = some (.bound v.name, rest) := by
  have hname := name?_text (c := ')') rest hv rfl
  have hclose : Text.afterFront? ")".toList (')' :: rest) = some rest := rfl
  simp only [bound?, afterFront?_append, hname, hclose, Option.bind_eq_bind, Option.bind_some]

def Readable (c : Constraint) : Prop :=
  c.subject.Proper ∧ (∀ t ∈ c.terms, t.Proper) ∧ c.test ≠ .oneOf []

theorem expression?_constraint {c : Constraint} (h : Readable c) :
    ∃ text, c.text.toList = "FILTER(".toList ++ text ++ [')'] ∧
      ∀ rest, expression? (text ++ ')' :: rest) = some (c.expression, ')' :: rest) := by
  obtain ⟨v, test⟩ := c
  obtain ⟨hv, hterms, hne⟩ := h
  -- For each test: its text between the brackets, and the expression that is read of it.
  cases test with
  | compare comparison t =>
    refine ⟨v.text.toList ++ ' ' :: (comparison.symbol.toList ++ ' ' :: t.render.toList), ?_, fun rest => ?_⟩
    · simp [Constraint.text]
    · have hread := relation?_compare rest hv comparison (hterms t (by simp [Constraint.terms]))
      simp only [List.append_assoc, List.cons_append]
      rw [expression?_relation, hread]
      rfl
  | oneOf terms =>
    cases terms with
    | nil => exact absurd rfl hne
    | cons t terms =>
      refine ⟨v.text.toList ++ ' ' :: ("IN (".toList ++
        ((", ".intercalate ((t :: terms).map Term.render)).toList ++ [')'])), ?_, fun rest => ?_⟩
      · simp [Constraint.text]
      · have hread := relation?_isIn (')' :: rest) hv hterms
        simp only [List.append_assoc, List.cons_append, List.nil_append]
        rw [expression?_relation, hread]
        rfl
  | bound expected =>
    cases expected with
    | true =>
      refine ⟨"BOUND(".toList ++ (v.text.toList ++ [')']), ?_, fun rest => ?_⟩
      · simp [Constraint.text]
      · have hread := bound?_text (')' :: rest) hv
        simp only [List.append_assoc, List.cons_append, List.nil_append]
        exact hread
    | false =>
      refine ⟨'!' :: ("BOUND(".toList ++ (v.text.toList ++ [')'])), ?_, fun rest => ?_⟩
      · simp [Constraint.text]
      · have hread := bound?_text (')' :: rest) hv
        simp only [List.append_assoc, List.cons_append, List.nil_append]
        exact congrArg (Option.map _) hread
  | never => exact ⟨"false".toList, by simp [Constraint.text], fun rest => rfl⟩

theorem element?_constraint {c : Constraint} (h : Readable c) :
    element? (c.text.toList ++ rest) = some (c.element, rest) := by
  obtain ⟨text, htext, hread⟩ := expression?_constraint h
  have hline : c.text.toList ++ rest = 'F' :: ("ILTER".toList ++ ("(".toList ++ (text ++ ')' :: rest))) := by
    rw [htext]
    simp
  have hclose : Text.afterFront? ")".toList (')' :: rest) = some rest := rfl
  simp only [hline, element?, filter?, afterFront?_append, hread, hclose, Option.bind_eq_bind, Option.bind_some,
    Constraint.element]

end Service

namespace Sparql.Select

open Service

def group (s : Select) : List Element :=
  s.patterns.map Pattern.element ++ s.constraints.map Constraint.element

def block (s : Select) : String :=
  String.join (s.lines.map fun line => "  " ++ line ++ "\n")

structure Readable (s : Select) : Prop where
  patterns : ∀ p ∈ s.patterns, ∀ v ∈ p.occurring, v.Proper
  constraints : ∀ c ∈ s.constraints, Service.Readable c

theorem toList_block_cons (line : String) (lines : List String) :
    (String.join ((line :: lines).map fun line => "  " ++ line ++ "\n")).toList =
      ' ' :: ' ' :: (line.toList ++ '\n' :: (String.join (lines.map fun line => "  " ++ line ++ "\n")).toList) := by
  rw [List.map_cons, String.join_cons]
  simp

theorem length_le_block (lines : List String) :
    lines.length ≤ (String.join (lines.map fun line => "  " ++ line ++ "\n")).toList.length := by
  induction lines with
  | nil => exact Nat.zero_le _
  | cons line lines ih =>
    rw [toList_block_cons]
    simp only [List.length_cons, List.length_append]
    omega

theorem lines?_join {lines : List String} {elements : List Element} {fuel : Nat} (hfuel : lines.length ≤ fuel)
    (h : List.Forall₂ (fun line e => ∀ rest, element? (line.toList ++ rest) = some (e, rest)) lines elements) :
    lines? fuel (String.join (lines.map fun line => "  " ++ line ++ "\n")).toList = some elements := by
  induction h generalizing fuel with
  | nil => cases fuel <;> rfl
  | @cons line e lines elements hline _ ih =>
    cases fuel with
    | zero => exact absurd hfuel (Nat.not_succ_le_zero _)
    | succ fuel =>
      have hrest := ih (Nat.le_of_succ_le_succ hfuel)
      have hblanks : ∀ cs, Text.afterFront? "  ".toList (' ' :: ' ' :: cs) = some cs := fun _ => rfl
      have hend : ∀ cs, Text.afterFront? "\n".toList ('\n' :: cs) = some cs := fun _ => rfl
      rw [toList_block_cons]
      simp only [lines?, hblanks, hline, hend, hrest, Option.bind_eq_bind, Option.bind_some]

theorem group?_block {s : Select} (h : s.Readable) : group? s.block = some s.group := by
  refine lines?_join (length_le_block s.lines) (List.rel_append ?_ ?_)
  · refine List.forall₂_map_left_iff.2 (List.forall₂_map_right_iff.2 (List.forall₂_same.2 fun p hp rest => ?_))
    exact element?_pattern rest (h.patterns p hp)
  · refine List.forall₂_map_left_iff.2 (List.forall₂_map_right_iff.2 (List.forall₂_same.2 fun c hc rest => ?_))
    exact element?_constraint rest (h.constraints c hc)

end Sparql.Select

end ClaimTables
