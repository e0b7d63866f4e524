import ClaimTables.Proofs.Calendar.Spelling
import ClaimTables.Proofs.Query.Meaning
import ClaimTables.Proofs.Service.Export

/-!
What terms denote in RDF. The text of a term in a query and what the service binds a variable to are both read as an IRI or a
literal, by the grammar of the language: short names are written out by the prefixes of the query, and a bare number is an
integer or, with a point, a decimal. A literal denotes a value if its form is one of its datatype's. Main statements: the term
of a value and the export of the same value, once stored, denote the same.
-/

namespace ClaimTables

open Service (Node)
open Sparql (Binding)

namespace Text

theorem le_length_padded (width n : Nat) : width ≤ (padded width n).length := by
  rw [padded, List.length_append, List.length_replicate]
  omega

theorem pow_le_of_lt_length_padded {width n : Nat} (hwidth : 0 < width) (h : width < (padded width n).length) :
    10 ^ ((padded width n).length - 1) ≤ n := by
  have hlength : (padded width n).length = (digits n).length := by
    rw [padded, List.length_append, List.length_replicate] at h ⊢
    omega
  rw [hlength] at h ⊢
  refine Decimal.ten_pow_length_le ?_
  rintro rfl
  exact absurd h (Nat.not_lt.2 hwidth)

end Text

namespace Rdf

open Export (address xsd)

inductive Term where
  | iri (iri : String)
  | literal (form datatype : String)
deriving DecidableEq

section Values

def decimal? (cs : List Char) : Option ℚ :=
  match cs with
  | '-' :: cs => (unsigned? cs).map (-·)
  | '+' :: cs => unsigned? cs
  | cs => unsigned? cs
where
  unsigned? (cs : List Char) : Option ℚ :=
    if cs.all Service.isNumberChar then (Decimal.ofList? cs).map Decimal.value else none

/--
Year, month and day of a day whose beginning, universal time, is written as a dateTime, but for the sign. A year has four
digits at least, and no zero in front of more; month and day have two.
-/
def numbers? (cs : List Char) : Option (Nat × Nat × Nat) := do
  let digits := cs.takeWhile Char.isDigit
  let rest := cs.dropWhile Char.isDigit
  let year ← Text.numeral? digits
  let month ← Text.numeral? ((rest.drop 1).take 2)
  let day ← Text.numeral? ((rest.drop 4).take 2)
  if 4 ≤ digits.length ∧ (4 < digits.length → 10 ^ (digits.length - 1) ≤ year) ∧
      rest[0]? = some '-' ∧ rest[3]? = some '-' ∧ rest.drop 6 = "T00:00:00Z".toList then
    some (year, month, day)
  else none

def day? : List Char → Option Date
  | '-' :: cs => (numbers? cs).bind fun (year, month, day) => Date.of? (-(year : Int)) month day
  | cs => (numbers? cs).bind fun (year, month, day) => Date.of? year month day

def value? (form datatype : String) : Option Node :=
  if datatype = xsd "string" then some (.text form)
  else if datatype = xsd "integer" then
    if '.' ∈ form.toList then none else (decimal? form.toList).map .number
  else if datatype = xsd "decimal" then (decimal? form.toList).map .number
  else if datatype = xsd "dateTime" then (day? form.toList).map .date
  else none

def item? (base iri : String) : Option ItemId :=
  (ItemId.ofIri? iri).filter fun i => address base i.text = iri

def Term.node (base : String) : Term → Node
  | .iri s =>
    match item? base s with
    | some i => .item i
    | none => .resource s
  | .literal form datatype => (value? form datatype).getD (.literal form datatype)

end Values

section Reading

/-- The term that a variable is bound to, unless that is a blank node or a text in some language. -/
def ofBinding? (b : Binding) : Option Term :=
  if b.kind = "uri" then some (.iri b.value)
  else if b.kind = "literal" ∧ b.language = none then some (.literal b.value (b.datatype.getD (xsd "string")))
  else none

def prefixes (base : String) : List (String × String) :=
  [("wd", base ++ "/entity/"), ("wdt", base ++ "/prop/direct/"), ("xsd", xsd "")]

def declaration (short iri : String) : String :=
  "PREFIX " ++ short ++ ": <" ++ iri ++ ">\n"

def named? (base : String) (cs : List Char) : Option String :=
  match cs.splitOn ':' with
  | [short, name] =>
    if name.all Service.isNameChar then
      ((prefixes base).lookup (String.ofList short)).map (· ++ String.ofList name)
    else none
  | _ => none

def ofText? (base : String) (s : String) : Option Term :=
  match s.toList with
  | '"' :: cs =>
    match Sparql.Literal.rest? cs with
    | some (form, []) => some (.literal (String.ofList form) (xsd "string"))
    | some (form, '^' :: '^' :: cs) => (named? base cs).map (.literal (String.ofList form))
    | _ => none
  | cs =>
    if (decimal? cs).isSome ∧ cs.getLast? ≠ some '.' then
      some (.literal s (xsd (if '.' ∈ cs then "decimal" else "integer")))
    else (named? base cs).map .iri

def queried? (base s : String) : Option Node :=
  (ofText? base s).map (Term.node base)

def shown? (base : String) (b : Binding) : Option Node :=
  (ofBinding? b).map (Term.node base)

end Reading

theorem declaration_append (short front back : String) :
    declaration short (front ++ back) = "PREFIX " ++ short ++ ": <" ++ front ++ (back ++ ">\n") := by
  simp only [declaration, String.append_assoc]

theorem header_eq (base : String) : Sparql.Select.header base =
    String.join ((prefixes base).map fun (short, iri) => declaration short iri) := by
  have hitem : declaration "wd" (base ++ "/entity/") = "PREFIX wd: <" ++ base ++ "/entity/>\n" := by
    rw [declaration_append]
    rfl
  have hproperty : declaration "wdt" (base ++ "/prop/direct/") = "PREFIX wdt: <" ++ base ++ "/prop/direct/>\n" := by
    rw [declaration_append]
    rfl
  have hdatatype : declaration "xsd" (xsd "") = "PREFIX xsd: <http://www.w3.org/2001/XMLSchema#>\n" := rfl
  have hassoc (a b c d e : String) : a ++ base ++ b ++ c ++ base ++ d ++ e = a ++ base ++ b ++ (c ++ base ++ d ++ e) := by
    simp only [String.append_assoc]
  simp only [prefixes, List.map_cons, List.map_nil, String.join_cons, String.join_nil, String.append_empty, hitem, hproperty,
    hdatatype]
  exact hassoc _ _ _ _ _

theorem xsd_inj {name name' : String} : xsd name = xsd name' ↔ name = name' := by
  unfold xsd
  exact String.append_right_inj _

section Numbers

variable {x : Binary64}

theorem isDigit_getLast?_pointed {whole part : List Char} (h : ∀ c ∈ whole ++ part, c.isDigit = true) :
    ∀ c ∈ (Binary64.pointed whole part).getLast?, c.isDigit = true := by
  intro c hc
  unfold Binary64.pointed at hc
  split at hc
  · exact h c (List.mem_append_left _ (List.mem_of_getLast? hc))
  · next hpart =>
    obtain ⟨d, rest, rfl⟩ := List.exists_cons_of_ne_nil (mt List.isEmpty_iff.2 hpart)
    rw [Option.mem_def, List.getLast?_append_cons, List.getLast?_cons_cons] at hc
    exact h c (List.mem_append_right _ (List.mem_of_getLast? hc))

theorem isDigit_getLast?_plainDigits (m : Magnitude) : ∀ c ∈ (Binary64.plainDigits m).getLast?, c.isDigit = true := by
  unfold Binary64.plainDigits
  split
  · intro c hc
    obtain rfl := Option.some.inj hc
    decide
  · generalize m.shortest .upper = d
    exact isDigit_getLast?_pointed fun c hc =>
      Numeral.isDigit_of_mem_positional (fun d hd => Numeral.isDigit_of_mem_ofDecimal hd) hc

theorem unsigned?_plainDigits (m : Magnitude) : decimal?.unsigned? (Binary64.plainDigits m) = some m.written := by
  obtain ⟨hparts, hvalue⟩ := Service.plainDigits_spec m
  rw [decimal?.unsigned?, if_pos (List.all_eq_true.2 hparts), hvalue]

theorem decimal?_toList (hx : x.isFinite = true) : decimal? x.toList = some x.written := by
  cases x with
  | nan | infinite _ => exact nomatch hx
  | finite negative m =>
    have hdigits := unsigned?_plainDigits m
    cases negative with
    | true =>
      have htext : (Binary64.finite true m).toList = '-' :: Binary64.plainDigits m := rfl
      rw [htext, decimal?, hdigits]
      rfl
    | false =>
      obtain ⟨c, cs, heq, hc⟩ := Binary64.plainDigits_eq_cons m
      have htext : (Binary64.finite false m).toList = c :: cs := heq
      rw [htext]
      rw [heq] at hdigits
      unfold decimal?
      split
      · next h =>
        obtain ⟨rfl, -⟩ := List.cons.inj h
        exact absurd hc (by decide)
      · next h =>
        obtain ⟨rfl, -⟩ := List.cons.inj h
        exact absurd hc (by decide)
      · exact hdigits

theorem getLast?_toList (hx : x.isFinite = true) : x.toList.getLast? ≠ some '.' := by
  cases x with
  | nan | infinite _ => exact nomatch hx
  | finite negative m =>
    obtain ⟨c, cs, heq, -⟩ := Binary64.plainDigits_eq_cons m
    have hlast : (Binary64.finite negative m).toList.getLast? = (Binary64.plainDigits m).getLast? := by
      rw [Binary64.toList, Binary64.signed, heq, List.getLast?_append_cons]
    rw [hlast]
    exact fun h => absurd (isDigit_getLast?_plainDigits m '.' h) (by decide)

def numberType (x : Binary64) : String :=
  xsd (if '.' ∈ x.toList then "decimal" else "integer")

theorem ofText?_number (base : String) (hx : x.isFinite = true) :
    ofText? base x.text = some (.literal x.text (numberType x)) := by
  have htext : x.text.toList = x.toList := String.toList_ofList
  have hread : (decimal? x.toList).isSome ∧ x.toList.getLast? ≠ some '.' := by
    rw [decimal?_toList hx]
    exact ⟨rfl, getLast?_toList hx⟩
  unfold ofText?
  rw [htext]
  split
  · next cs h =>
    obtain ⟨c, cs', heq, hc⟩ := Service.text_eq_cons hx
    rw [htext, h] at heq
    obtain ⟨rfl, -⟩ := List.cons.inj heq
    exact absurd hc (by decide)
  · exact if_pos hread

theorem node_number (base : String) (hx : x.isFinite = true) {datatype : String}
    (h : datatype = numberType x ∨ datatype = xsd "decimal") :
    (Term.literal x.text datatype).node base = .number x.written := by
  have htext : x.text.toList = x.toList := String.toList_ofList
  have hdecimal : value? x.text (xsd "decimal") = some (.number x.written) := by
    simp [value?, xsd_inj, htext, decimal?_toList hx]
  have hvalue : value? x.text datatype = some (.number x.written) := by
    rcases h with rfl | rfl
    · unfold numberType
      split
      · exact hdecimal
      · next hpoint => simp [value?, xsd_inj, htext, hpoint, decimal?_toList hx]
    · exact hdecimal
  rw [Term.node, hvalue]
  rfl

end Numbers

section Days

theorem numbers?_spelled (year : Nat) (d : Date) : numbers? (Timestamp.spelled year d) = some (year, d.month, d.day) := by
  obtain ⟨-, hmonth, hday⟩ := d.bounds
  obtain ⟨a, b, hab⟩ := List.length_eq_two.1 (Text.length_padded (by decide) (show d.month < 10 ^ 2 by omega))
  obtain ⟨a', b', hab'⟩ := List.length_eq_two.1 (Text.length_padded (by decide) (show d.day < 10 ^ 2 by omega))
  have hnumbers := And.intro (Text.numeral?_padded 2 d.month) (Text.numeral?_padded 2 d.day)
  rw [hab, hab'] at hnumbers
  have hspelled : Timestamp.spelled year d =
      Text.padded 4 year ++ '-' :: [a, b, '-', a', b', 'T', '0', '0', ':', '0', '0', ':', '0', '0', 'Z'] := by
    rw [Timestamp.spelled, Date.monthDay, hab, hab', List.append_assoc]
    rfl
  have hdigits : ∀ c ∈ Text.padded 4 year, c.isDigit = true := fun c hc => Text.isDigit_of_mem_padded hc
  unfold numbers?
  rw [hspelled, Service.takeWhile_stop _ hdigits rfl, Service.dropWhile_stop _ hdigits rfl]
  simp only [Text.numeral?_padded, List.drop_succ_cons, List.drop_zero, List.take_succ_cons, List.take_zero, hnumbers,
    Option.bind_eq_bind, Option.bind_some]
  refine if_pos ⟨?_, ?_, rfl, rfl, rfl⟩
  · exact Text.le_length_padded 4 year
  · exact Text.pow_le_of_lt_length_padded (by decide)

theorem day?_queried (d : Date) : day? (Timestamp.queried d).toList = some d := by
  have hnumbers := numbers?_spelled d.year.natAbs d
  by_cases hneg : d.year < 0
  · have htext : (Timestamp.queried d).toList = '-' :: Timestamp.spelled d.year.natAbs d := by
      simp [Timestamp.queried, if_pos hneg, Timestamp.spelled]
    rw [htext, day?, hnumbers]
    exact Date.of?_eq_some.2 ⟨by omega, rfl, rfl⟩
  · have htext : (Timestamp.queried d).toList = Timestamp.spelled d.year.natAbs d := by
      simp [Timestamp.queried, if_neg hneg, Timestamp.spelled]
    obtain ⟨c, cs, hcs, hc⟩ := Text.padded_eq_cons 4 d.year.natAbs
    rw [htext]
    unfold day?
    split
    · next h =>
      rw [Timestamp.spelled, hcs] at h
      obtain ⟨rfl, -⟩ := List.cons.inj h
      exact absurd hc (by decide)
    · rw [hnumbers]
      exact Date.of?_eq_some.2 ⟨by omega, rfl, rfl⟩

end Days

section Names

theorem named?_append {base short iri : String} (hshort : (prefixes base).lookup short = some iri)
    (hcolon : ':' ∉ short.toList) {name : List Char} (hname : ∀ c ∈ name, Service.isNameChar c = true) :
    named? base (short.toList ++ ':' :: name) = some (iri ++ String.ofList name) := by
  have hplain : ':' ∉ name := fun hmem => absurd (hname ':' hmem) (by decide)
  rw [named?, List.splitOn_append_cons_self_of_not_mem hcolon, List.splitOn_eq_singleton hplain]
  dsimp only
  rw [if_pos (List.all_eq_true.2 hname), String.ofList_toList, hshort, Option.map_some]

theorem item?_eq_some {base iri : String} {i : ItemId} : item? base iri = some i ↔ iri = address base i.text := by
  rw [item?, Option.filter_eq_some_iff, decide_eq_true_eq]
  refine ⟨fun h => h.2.symm, ?_⟩
  rintro rfl
  exact ⟨Export.ofIri?_address base i, rfl⟩

theorem node_item (base : String) (i : ItemId) : (Term.iri (address base i.text)).node base = .item i := by
  rw [Term.node, item?_eq_some.2 rfl]

theorem ofText?_item (base : String) (i : ItemId) :
    ofText? base (Sparql.Term.item i).render = some (.iri (address base i.text)) := by
  have htext : (Sparql.Term.item i).render.toList = "wd".toList ++ ':' :: i.text.toList := by
    simp [Sparql.Term.render]
  have hname : ∀ c ∈ i.text.toList, Service.isNameChar c = true := by
    intro c hc
    rw [ItemId.text, String.toList_ofList] at hc
    rcases List.mem_cons.1 hc with rfl | hc
    · rfl
    · rw [Service.isNameChar, Char.isAlphanum, Text.isDigit_of_mem_digits hc, Bool.or_true, Bool.true_or]
  have hnumber : decimal? ("wd".toList ++ ':' :: i.text.toList) = none := rfl
  have hshort : (prefixes base).lookup "wd" = some (base ++ "/entity/") := rfl
  have hnamed : named? base ("wd".toList ++ ':' :: i.text.toList) = some (address base i.text) := by
    rw [named?_append hshort (by decide) hname, String.ofList_toList]
    rfl
  unfold ofText?
  rw [htext]
  split
  · next h => exact absurd (List.cons.inj h).1 (by decide)
  · rw [hnumber, if_neg fun h => Bool.false_ne_true h.1, hnamed, Option.map_some]

end Names

section Texts

variable (base : String)

theorem ofText?_encode (s : String) : ofText? base (Sparql.Literal.encode s) = some (.literal s (xsd "string")) := by
  have htext : (Sparql.Literal.encode s).toList = '"' :: (Sparql.Literal.body s.toList ++ ['"']) := by
    rw [Sparql.Literal.encode, String.toList_ofList, List.cons_append]
  simp only [ofText?, htext, Sparql.Literal.rest?_body, String.ofList_toList]

theorem ofText?_date (d : Date) :
    ofText? base (Sparql.Term.date d).render = some (.literal (Timestamp.queried d) (xsd "dateTime")) := by
  have htext : (Sparql.Term.date d).render.toList =
      '"' :: (Sparql.Literal.body (Timestamp.queried d).toList ++
        '"' :: '^' :: '^' :: ("xsd".toList ++ ':' :: "dateTime".toList)) := by
    rw [Service.body_queried]
    simp [Sparql.Term.render]
  have hshort : (prefixes base).lookup "xsd" = some (xsd "") := rfl
  have hnamed : named? base ("xsd".toList ++ ':' :: "dateTime".toList) = some (xsd "dateTime") := by
    rw [named?_append hshort (by decide) (List.all_eq_true.1 rfl)]
    rfl
  simp only [ofText?, htext, Sparql.Literal.rest?_body, hnamed, Option.map_some, String.ofList_toList]

end Texts

theorem node_date (base : String) (d : Date) :
    (Term.literal (Timestamp.queried d) (xsd "dateTime")).node base = .date d := by
  have hvalue : value? (Timestamp.queried d) (xsd "dateTime") = some (.date d) := by
    simp [value?, xsd_inj, day?_queried]
  rw [Term.node, hvalue]
  rfl

theorem node_text (base s : String) : (Term.literal s (xsd "string")).node base = .text s := by
  rw [Term.node, value?, if_pos rfl]
  rfl

variable {base : String} {t : Term} {n : Node}

theorem queried?_of_ofText? {s : String} (h : ofText? base s = some t) (hn : t.node base = n) : queried? base s = some n := by
  rw [queried?, h, Option.map_some, hn]

theorem shown?_of_ofBinding? {b : Binding} (h : ofBinding? b = some t) (hn : t.node base = n) : shown? base b = some n := by
  rw [shown?, h, Option.map_some, hn]

theorem queried?_render (base : String) {t : Sparql.Term} (ht : t.Proper) : queried? base t.render = some t.node := by
  cases t with
  | text s => exact queried?_of_ofText? (ofText?_encode base s) (node_text base s)
  | number x => exact queried?_of_ofText? (ofText?_number base ht) (node_number base ht (.inl rfl))
  | date d => exact queried?_of_ofText? (ofText?_date base d) (node_date base d)
  | item i => exact queried?_of_ofText? (ofText?_item base i) (node_item base i)

theorem shown?_binding? (base : String) {v : Value} {stored : Json} (h : Claim.datavalue v = .ok stored) :
    ∃ b x, Export.binding? base stored = some b ∧ shown? base b = some x ∧ v.node? = some x := by
  cases v with
  | null => exact nomatch h
  | text s =>
    obtain rfl := Except.ok.inj h
    exact ⟨_, _, Export.binding?_string base s, shown?_of_ofBinding? rfl (node_text base s), rfl⟩
  | boolean b =>
    obtain rfl := Except.ok.inj h
    exact ⟨_, _, Export.binding?_string base _, shown?_of_ofBinding? rfl (node_text base _), rfl⟩
  | number x =>
    obtain ⟨_, hvalue, rfl⟩ := Claim.datavalue_eq_ok h
    obtain ⟨hx, rfl⟩ := Claim.snak_number hvalue
    have hamount : String.ofList (x.toSignedList.dropWhile (· = '+')) = x.text :=
      congrArg String.ofList (Claim.dropWhile_toSignedList hx)
    refine ⟨_, _, Export.binding?_quantity base x, ?_, if_pos hx⟩
    rw [hamount]
    exact shown?_of_ofBinding? rfl (node_number base hx (.inr rfl))
  | date d =>
    obtain rfl := Except.ok.inj h
    exact ⟨_, _, Export.binding?_time base d, shown?_of_ofBinding? rfl (node_date base d), rfl⟩
  | reference id =>
    obtain ⟨_, hvalue, rfl⟩ := Claim.datavalue_eq_ok h
    obtain ⟨i, hitem, rfl⟩ := Claim.snak_reference hvalue
    exact ⟨_, _, Export.binding?_item base i, shown?_of_ofBinding? rfl (node_item base i), congrArg (Option.map Node.item) hitem⟩

end Rdf

end ClaimTables
