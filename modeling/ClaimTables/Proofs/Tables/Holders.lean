import ClaimTables.Proofs.Client.Noting
import ClaimTables.Proofs.Sparql.Evaluation
import ClaimTables.Proofs.Tables.Outcome
import ClaimTables.Proofs.Tables.Scoping

/-!
What the check for unique values sees. It looks at the first two solutions for a value and then leaves out those of the
row itself; so it finds another row if it is among these two, and if it is anywhere as long as the row itself comes but
once.
-/

namespace ClaimTables

def Error.IsViolation : Error → Prop
  | .uniqueViolation _ _ _ => True
  | _ => False

theorem Error.OfStore.not_violation {e : Error} (h : e.OfStore) : ¬e.IsViolation := by
  cases e <;> first | exact id | exact h.elim

theorem Error.OfSchema.not_violation {e : Error} (h : e.OfSchema) : ¬e.IsViolation := by
  cases e <;> first | exact id | exact h.elim

namespace Sparql

namespace Solution

def item? (found : Solution) : Option ItemId :=
  (found.lookup Variable.item.name).bind fun b => ItemId.ofIri? b.value

def IsOther (own : ItemId) (found : Solution) : Prop :=
  ∃ i, found.item? = some i ∧ i ≠ own

end Solution

def limited (body : String) (n : UInt64) : String :=
  body ++ "LIMIT " ++ Text.decimal n.toNat ++ "\n"

theorem limited_inj {body body' : String} {n n' : UInt64} (h : limited body n = limited body' n') :
    body = body' ∧ n = n' := by
  have hread : ∀ body n, ((limited body n).toList.reverse.drop 1).takeWhile Char.isDigit = (Text.digits n.toNat).reverse := by
    intro body n
    have hdigits : ∀ c ∈ (Text.digits n.toNat).reverse, c.isDigit = true := fun c hc =>
      Text.isDigit_of_mem_digits (List.mem_reverse.1 hc)
    have htext : (limited body n).toList.reverse.drop 1 =
        (Text.digits n.toNat).reverse ++ ("LIMIT ".toList.reverse ++ body.toList.reverse) := by
      simp [limited, Text.decimal]
    rw [htext, List.takeWhile_append_of_pos hdigits]
    simp
  have hn : n = n' := by
    have hdigits := hread body n
    rw [h, hread body' n'] at hdigits
    exact (UInt64.toNat_inj.1 (Text.digits_injective (List.reverse_injective hdigits))).symm
  subst hn
  rw [limited, limited] at h
  simpa using h

theorem Select.text_limited {s : Select} (hlimit : s.limit = none) (hoffset : s.offset = none) (n : UInt64) :
    { s with limit := some n }.text = limited s.text n := by
  simp [text, modifiers, lines, limited, hlimit, hoffset, String.append_assoc]

end Sparql

open Sparql (Solution limited)

namespace Exchange

/--
That a query which is held to a number of solutions was answered with so many of all that there are, the first ones, and
that no request was refused for a value which is taken.
-/
def Serves (all : String → List Solution) : Exchange → Prop
  | ⟨.query text, answer⟩ => FailsAs (¬·.IsViolation) answer ∧
    ∀ body n, text = limited body n → ∃ names, answer = .ok ⟨names, (all body).take n.toNat⟩
  | ⟨_, answer⟩ => FailsAs (¬·.IsViolation) answer

theorem Serves.failsAs {all : String → List Solution} {x : Exchange} (h : x.Serves all) :
    FailsAs (¬·.IsViolation) x.reply := by
  obtain ⟨r, answer⟩ := x
  cases r with
  | query text => exact h.1
  | get ps | post ps => exact h

def answered? : Exchange → Option (String × List Solution)
  | ⟨.query text, .ok found⟩ => some (text, found.solutions)
  | _ => none

theorem serves_of_answered {all : String → List Solution} {x : Exchange} (hok : x.reply.isOk = true)
    (hquery : ∀ q, answered? x = some q → ∃ body n, q = (limited body n, (all body).take n.toNat)) : x.Serves all := by
  obtain ⟨r, _ | answer⟩ := x
  · cases hok
  · cases r with
    | get | post => exact failsAs_ok answer
    | query text =>
      obtain ⟨body, n, hq⟩ := hquery _ rfl
      obtain ⟨rfl, hfound⟩ := Prod.mk.inj hq
      refine ⟨failsAs_ok answer, fun body' n' hsame => ⟨answer.names, ?_⟩⟩
      obtain ⟨rfl, rfl⟩ := Sparql.limited_inj hsame
      rw [← hfound]

end Exchange

namespace Tables

open Tables.Action

variable {m : Mappings} {s : Session} {trace : List Exchange} {all : String → List Solution}

theorem itemsOf_eq (found : Sparql.Solutions) : itemsOf found = found.solutions.filterMap Solution.item? := by
  rw [itemsOf, Sparql.Solutions.bindingsOf, List.filterMap_filterMap]
  rfl

def Asks (t : Tables) (f : ResolvedField) (v : Value) (body : String) : Prop :=
  ∃ fields o vocabulary, t.schema.fields f.declaredBy = .ok fields ∧
    (Query.havingValue f.field.name v).outline t.schema f.declaredBy fields false = .ok o ∧
    vocabulary.reserved = t.reserved ∧ vocabulary.tag = t.space.tag ∧ body = (o.rows vocabulary none none).text

theorem fails_holders (t : Tables) (f : ResolvedField) (v : Value) : (t.holders f v).Fails (¬·.IsViolation) := by
  have hselect : (t.select f.declaredBy (.havingValue f.field.name v) false).Fails (¬·.IsViolation) :=
    (resolving_fails (fun _ h => h.not_violation) fun _ h => h.not_violation).select _ _ _
  have htext : (t.rowsText f.declaredBy (.havingValue f.field.name v)).Fails (¬·.IsViolation) := by
    rw [rowsText, map_eq_pure_bind]
    exact hselect.bind fun _ => fails_pure _
  refine htext.bind fun text => ?_
  rw [map_eq_pure_bind]
  exact (fails_ofClient (Client.fails_query t.client text)).bind fun _ => fails_pure _

theorem holders_found (t : Tables) (f : ResolvedField) (v : Value) :
    (t.holders f v).Ensures .noting m s trace fun r m' _ later => ∀ items, r = .ok items →
      ∃ fields o vocabulary text found, t.schema.fields f.declaredBy = .ok fields ∧
        (Query.havingValue f.field.name v).outline t.schema f.declaredBy fields false = .ok o ∧
        vocabulary.reserved = t.reserved ∧ vocabulary.tag = t.space.tag ∧
        m'.types.lookup f.declaredBy = some vocabulary.type ∧ text = (o.rows vocabulary (some 2) none).text ∧
        ⟨.query text, .ok found⟩ ∈ later ∧ items = found.solutions.filterMap Solution.item? := by
  have hselect : (t.select f.declaredBy (.havingValue f.field.name v) false).Gains .noting m s trace _ :=
    t.gains_worded _ _ _
  refine Ensures.bind (hselect.map Sparql.Select.text) (fun text m' s' trace' h => ?_) fun e _ _ _ _ => nofun
  obtain ⟨select, rfl, fields, o, vocabulary, hfields, ho, hreserved, htag, htype, rfl⟩ := h.2 text rfl
  refine ensures_map.2 (ensures_ofClient.2 ?_)
  refine (Client.answer_noted t.client (.query _) s' trace').mono fun r _ later hr items hitems => ?_
  cases r with
  | error e => exact nomatch hitems
  | ok found =>
    obtain rfl := Except.ok.inj hitems
    exact ⟨fields, o, vocabulary, _, found, hfields, ho, hreserved, htag, htype, rfl, hr, itemsOf_eq found⟩

theorem holders_noted (t : Tables) (f : ResolvedField) (v : Value) :
    (t.holders f v).Ensures .noting m s trace fun r _ _ later => ∀ items, r = .ok items →
      ∃ body found, t.Asks f v body ∧ ⟨.query (limited body 2), .ok found⟩ ∈ later ∧
        items = found.solutions.filterMap Solution.item? := by
  refine (t.holders_found f v).mono fun r _ _ later h items hitems => ?_
  obtain ⟨fields, o, vocabulary, text, found, hfields, ho, hreserved, htag, -, htext, hfound, hitems⟩ := h items hitems
  have hlimited : (o.rows vocabulary (some 2) none).text = limited (o.rows vocabulary none none).text 2 :=
    Sparql.Select.text_limited (s := o.rows vocabulary none none) rfl rfl 2
  obtain rfl := htext.trans hlimited
  exact ⟨_, found, ⟨fields, o, vocabulary, hfields, ho, hreserved, htag, rfl⟩, hfound, hitems⟩

theorem holders_serving (all : String → List Solution) (t : Tables) (f : ResolvedField) (v : Value) :
    (t.holders f v).Ensures .noting m s trace fun r _ _ later => trace <+: later ∧ ((∀ x ∈ later, x.Serves all) →
      FailsAs (¬·.IsViolation) r ∧ ∀ items, r = .ok items → ∃ body, t.Asks f v body ∧
        (∃ x ∈ later, x.request = .query (limited body 2)) ∧ items = ((all body).take 2).filterMap Solution.item?) := by
  refine (((t.fails_holders f v).ensures m s trace).and (t.holders_noted f v)).mono ?_
  rintro r _ _ later ⟨⟨more, rfl, hfails⟩, hnoted⟩
  refine ⟨List.prefix_append _ _, fun hserves => ⟨hfails fun x hx => (hserves x (List.mem_append_right _ hx)).failsAs, ?_⟩⟩
  intro items hitems
  obtain ⟨body, found, hasks, hfound, rfl⟩ := hnoted items hitems
  obtain ⟨names, hanswer⟩ := (hserves _ hfound).2 body 2 rfl
  obtain rfl := Except.ok.inj hanswer
  exact ⟨body, hasks, ⟨_, hfound, rfl⟩, rfl⟩

def Violates {α : Type} (r : Except Error α) : Prop :=
  ∃ e, r = .error e ∧ e.IsViolation

/--
How a check of values goes on behalf of an item: the values that were looked up, each with what was asked for it, and
the result, which is a violation if one of the first two solutions for one of them is for another item, and names it.
-/
structure LooksUp (t : Tables) (all : String → List Solution) (own : ItemId) (values : CheckedValues)
    (looked : List ((ResolvedField × Value) × String)) (r : Except Error Unit) (trace : List Exchange) : Prop where
  inTurn : looked.map (·.1) <+: values
  asked : ∀ l ∈ looked, t.Asks l.1.1 l.1.2 l.2 ∧ ∃ x ∈ trace, x.request = .query (limited l.2 2)
  passed : r = .ok () → looked.map (·.1) = values
  violates_iff : Violates r ↔ ∃ l ∈ looked, ∃ found ∈ (all l.2).take 2, found.IsOther own
  names : ∀ e, r = .error e → e.IsViolation → ∃ l ∈ looked, ∃ i ∈ ((all l.2).take 2).filterMap Solution.item?,
    i ≠ own ∧ e = .uniqueViolation l.1.1.declaredBy l.1.1.field.name i.text

namespace LooksUp

variable {t : Tables} {own : ItemId} {values : CheckedValues} {looked : List ((ResolvedField × Value) × String)}
  {r : Except Error Unit} {e : ResolvedField × Value} {body : String}

theorem nil : t.LooksUp all own [] [] (.ok ()) trace :=
  ⟨List.prefix_rfl, by simp, fun _ => rfl, by simp [Violates], nofun⟩

theorem failed {error : Error} (h : ¬error.IsViolation) : t.LooksUp all own values [] (.error error) trace where
  inTurn := List.nil_prefix
  asked := List.forall_mem_nil _
  passed := nofun
  violates_iff := by simpa [Violates] using h
  names := by
    rintro _ ⟨⟩ he
    exact absurd he h

variable (hasks : t.Asks e.1 e.2 body) (hqueried : ∃ x ∈ trace, x.request = .query (limited body 2))

include hasks hqueried

theorem taken {i : ItemId} (hi : i ∈ ((all body).take 2).filterMap Solution.item?) (hother : i ≠ own) :
    t.LooksUp all own (e :: values) [(e, body)] (.error (.uniqueViolation e.1.declaredBy e.1.field.name i.text)) trace where
  inTurn := ⟨values, rfl⟩
  asked := by simpa using ⟨hasks, hqueried⟩
  passed := nofun
  violates_iff := by
    obtain ⟨found, hfound, hitem⟩ := List.mem_filterMap.1 hi
    exact iff_of_true ⟨_, rfl, trivial⟩ ⟨_, List.mem_cons_self, found, hfound, i, hitem, hother⟩
  names := by
    rintro _ ⟨⟩ -
    exact ⟨_, List.mem_cons_self, i, hi, hother, rfl⟩

theorem cons (hfree : ∀ i ∈ ((all body).take 2).filterMap Solution.item?, i = own)
    (h : t.LooksUp all own values looked r trace) : t.LooksUp all own (e :: values) ((e, body) :: looked) r trace where
  inTurn := (List.prefix_cons_inj e).2 h.inTurn
  asked := List.forall_mem_cons.2 ⟨⟨hasks, hqueried⟩, h.asked⟩
  passed hr := congrArg (e :: ·) (h.passed hr)
  violates_iff := by
    rw [h.violates_iff, List.exists_mem_cons_iff]
    refine (or_iff_right ?_).symm
    rintro ⟨found, hfound, i, hitem, hother⟩
    exact hother (hfree i (List.mem_filterMap.2 ⟨found, hfound, hitem⟩))
  names error hr he := by
    obtain ⟨l, hl, hnamed⟩ := h.names error hr he
    exact ⟨l, List.mem_cons_of_mem _ hl, hnamed⟩

end LooksUp

theorem checkHolders_looksUp (t : Tables) (all : String → List Solution) (own : ItemId) (values : CheckedValues) :
    (t.checkHolders (some own.text) values).Ensures .noting m s trace fun r _ _ later =>
      trace <+: later ∧ ((∀ x ∈ later, x.Serves all) → ∃ looked, t.LooksUp all own values looked r later) := by
  induction values generalizing m s trace with
  | nil => exact ⟨List.prefix_rfl, fun _ => ⟨[], .nil⟩⟩
  | cons e rest ih =>
    obtain ⟨f, v⟩ := e
    refine (t.holders_serving all f v).bind (fun items m' s' trace' h => ?_) fun e m' s' later h =>
      ⟨h.1, fun hserves => ⟨[], .failed ((h.2 hserves).1 e rfl)⟩⟩
    -- What the service does is known of all that is noted in the end, so also of what was noted by now.
    have hfirst (later : List Exchange) (hstart : trace' <+: later) (hserves : ∀ x ∈ later, x.Serves all) :=
      (h.2 fun x hx => hserves x (hstart.subset hx)).2 items rfl
    split
    · next other hother =>
      refine ⟨h.1, fun hserves => ?_⟩
      obtain ⟨body, hasks, hqueried, rfl⟩ := hfirst _ List.prefix_rfl hserves
      have hne : other ≠ own := by
        rintro rfl
        simpa using List.find?_some hother
      exact ⟨_, .taken hasks hqueried (List.mem_of_find?_eq_some hother) hne⟩
    · next hnone =>
      refine Ensures.mono ih ?_
      rintro r _ _ later ⟨hstart, hrest⟩
      refine ⟨h.1.trans hstart, fun hserves => ?_⟩
      obtain ⟨body, hasks, ⟨x, hx, hqueried⟩, rfl⟩ := hfirst later hstart hserves
      obtain ⟨looked, hlooked⟩ := hrest hserves
      have hfree : ∀ i ∈ ((all body).take 2).filterMap Solution.item?, i = own := fun i hi =>
        ItemId.text_injective (by simpa using List.find?_eq_none.1 hnone i hi)
      exact ⟨_, .cons hasks ⟨x, hstart.subset hx, hqueried⟩ hfree hlooked⟩

theorem seen_of_once {own : ItemId} {found : List Solution} (hitems : ∀ one ∈ found, one.item?.isSome = true)
    (honce : found.countP (·.item? = some own) ≤ 1) :
    (∃ one ∈ found.take 2, one.IsOther own) ↔ ∃ one ∈ found, one.IsOther own := by
  refine ⟨fun ⟨one, hone, hother⟩ => ⟨one, List.mem_of_mem_take hone, hother⟩, fun hany => ?_⟩
  by_contra hnone
  have hown : ∀ one ∈ found.take 2, one.item? = some own := by
    intro one hone
    obtain ⟨i, hi⟩ := Option.isSome_iff_exists.1 (hitems one (List.mem_of_mem_take hone))
    by_contra hne
    exact hnone ⟨one, hone, i, hi, fun hsame => hne (hsame ▸ hi)⟩
  match found with
  | [] | [_] => exact hnone hany
  | a :: b :: rest =>
    have ha : a.item? = some own := hown a (by simp)
    have hb : b.item? = some own := hown b (by simp)
    simp [ha, hb] at honce

/--
The check for unique values on behalf of a row, in a service that gives as many of the solutions it has as it is asked
for: the values are looked up in turn, and a violation is reported exactly if one of the first two solutions for one of
them is for another item. So it is reported exactly if any solution is, where the row itself comes but once.
-/
theorem checkUnique_sees (t : Tables) (all : String → List Solution) (own : ItemId) (values : CheckedValues) (m : Mappings)
    (s : Session) :
    (t.checkUnique (some own.text) values).Ensures .noting m s [] fun r _ _ trace => (∀ x ∈ trace, x.Serves all) →
      ∃ looked, t.LooksUp all own values.unique looked r trace ∧
        ((∀ l ∈ looked, (∀ found ∈ all l.2, found.item?.isSome = true) ∧ (all l.2).countP (·.item? = some own) ≤ 1) →
          (Violates r ↔ ∃ l ∈ looked, ∃ found ∈ all l.2, found.IsOther own)) := by
  refine (t.checkHolders_looksUp all own values.unique).mono fun r _ _ trace h hserves => ?_
  obtain ⟨looked, hlooked⟩ := h.2 hserves
  refine ⟨looked, hlooked, fun honce => hlooked.violates_iff.trans (exists_congr fun l => and_congr_right fun hl => ?_)⟩
  exact seen_of_once (honce l hl).1 (honce l hl).2

/-! A person with two nicknames has two solutions, and is not alone in having its name. -/

section Scripted

def nicknamed : Tables :=
  personTables [⟨"name", .text, false, true⟩, ⟨"nick", .text, true, false⟩]

def checkAda : Action Unit :=
  nicknamed.checkUnique (some "Q7") [(⟨"Person", ⟨"name", .text, false, true⟩⟩, .text "Ada")]

def calledAda : Sparql.Select :=
  ⟨"https://wiki.test", .rows [.item, .field "name", .field "nick"],
    [.instance .item ⟨1⟩ ⟨2⟩ ⟨10⟩, .tagged .item ⟨3⟩ "test", .untagged .item ⟨4⟩ "test",
      .optional .item ⟨5⟩ (.field "name"), .optional .item ⟨6⟩ (.field "nick")],
    [⟨.field "name", .compare .equal (.text "Ada")⟩], [], none, none⟩

def adaSolution (id nick : String) : Solution :=
  [("f_name", .literal "Ada"), ("f_nick", .literal nick), ("item", ⟨"uri", "https://wiki.test/entity/" ++ id, none, none⟩)]

def adas : List Solution :=
  [adaSolution "Q7" "Countess", adaSolution "Q7" "Lovelace", adaSolution "Q8" "Adele"]

def firstTwo : Conversation :=
  .start [foundReply "Q10" "Person in test", foundReply "P5" "Person.name in test", foundReply "P6" "Person.nick in test",
    .document (Sparql.Solutions.toJson ⟨["item", "f_name", "f_nick"], adas.take 2⟩)] 0 ""

/-- The check lets a name pass that another row has: the row's own two solutions are all that it looks at. -/
theorem checkUnique_overlooks :
    (checkAda.follow .empty .fresh firstTwo).1 = .ok () ∧
      (∀ x ∈ (checkAda.follow .empty .fresh firstTwo).2, x.Serves fun _ => adas) ∧
      (∀ found ∈ adas, found.item?.isSome = true) ∧ (∃ found ∈ adas, found.IsOther ⟨7⟩) ∧
      ¬checkAda.Ensures .noting .empty .fresh [] fun r _ _ trace => (∀ x ∈ trace, x.Serves fun _ => adas) →
        (Violates r ↔ ∃ found ∈ adas, found.IsOther ⟨7⟩) := by
  have hresult : (checkAda.follow .empty .fresh firstTwo).1 = .ok () := by decide +kernel
  have hserves : ∀ x ∈ (checkAda.follow .empty .fresh firstTwo).2, x.Serves fun _ => adas := by
    have hok : ∀ x ∈ (checkAda.follow .empty .fresh firstTwo).2, x.reply.isOk = true := by decide +kernel
    have hqueries : (checkAda.follow .empty .fresh firstTwo).2.filterMap Exchange.answered? =
        [(limited calledAda.text 2, adas.take 2)] := by decide +kernel
    refine fun x hx => Exchange.serves_of_answered (hok x hx) fun q hq => ⟨calledAda.text, 2, ?_⟩
    have hmem := List.mem_filterMap.2 ⟨x, hx, hq⟩
    rw [hqueries] at hmem
    exact List.mem_singleton.1 hmem
  have hother : ∃ found ∈ adas, found.IsOther ⟨7⟩ :=
    ⟨adaSolution "Q8" "Adele", by simp [adas], ⟨8⟩, by decide +kernel, by decide⟩
  refine ⟨hresult, hserves, by decide +kernel, hother, fun h => ?_⟩
  obtain ⟨e, he, -⟩ := (h.follow firstTwo hserves).2 hother
  exact nomatch hresult.symm.trans he

end Scripted

end Tables

end ClaimTables
