import ClaimTables.Proofs.Tables.Batches
import ClaimTables.Proofs.Tables.Lineage

/-!
What a batch stores in fields that have to be unique. Its rows are compared by the values that were given, while the store
keeps a reference by the number of its item. Main statement: in a batch that passes the check, two rows are stored with one
value only if they refer to one item whose identifier is written in two ways, and then they are.
-/

namespace ClaimTables

namespace Value

def Respells (v w : Value) : Prop :=
  ∃ id id' i, v = .reference id ∧ w = .reference id' ∧ id ≠ id' ∧ ItemId.ofText? id = some i ∧ ItemId.ofText? id' = some i

end Value

namespace Claim

variable {v w : Value} {type : FieldType} {stored stored' : Json}

theorem datavalue_item {id : String} {i : ItemId} (h : ItemId.ofText? id = some i) :
    datavalue (.reference id) = .ok (itemDatavalue i) := by
  rw [datavalue, snak, item, h]
  rfl

theorem datavalue_reference {id : String} (h : datavalue (.reference id) = .ok stored) :
    ∃ i, ItemId.ofText? id = some i ∧ stored = itemDatavalue i := by
  obtain ⟨value, hvalue, rfl⟩ := datavalue_eq_ok h
  obtain ⟨i, hitem, rfl⟩ := snak_reference hvalue
  exact ⟨i, hitem, rfl⟩

theorem datavalue_number {x : Binary64} (h : datavalue (.number x) = .ok stored) : x ≠ .nan := by
  obtain ⟨value, hvalue, -⟩ := datavalue_eq_ok h
  rintro rfl
  exact nomatch (snak_number hvalue).1

theorem datavalue_canonical (h : datavalue v = .ok stored) : datavalue v.canonical = .ok stored := by
  cases v with
  | reference id =>
    obtain ⟨i, hitem, rfl⟩ := datavalue_reference h
    rw [Value.canonical_reference hitem]
    exact datavalue_item (ItemId.ofText?_text i)
  | null | boolean _ | number _ | date _ | text _ => exact h

theorem canonical_eq_iff (hv : datavalue v = .ok stored) (hw : datavalue w = .ok stored') :
    v.canonical = w.canonical ↔ v = w ∨ v.Respells w := by
  constructor
  · intro h
    cases v with
    | reference id =>
      cases w with
      | reference id' =>
        obtain ⟨i, hi, -⟩ := datavalue_reference hv
        obtain ⟨j, hj, -⟩ := datavalue_reference hw
        rw [Value.canonical_reference hi, Value.canonical_reference hj] at h
        obtain rfl : i = j := ItemId.text_injective (Value.reference.inj h)
        by_cases hid : id = id'
        · exact .inl (congrArg _ hid)
        · exact .inr ⟨id, id', i, rfl, rfl, hid, hi, hj⟩
      | null | boolean _ | number _ | date _ | text _ => exact nomatch h
    | null | boolean _ | number _ | date _ | text _ =>
      cases w with
      | reference id' => exact nomatch h
      | null | boolean _ | number _ | date _ | text _ => exact .inl h
  · rintro (rfl | ⟨id, id', i, rfl, rfl, -, hi, hj⟩)
    · rfl
    · rw [Value.canonical_reference hi, Value.canonical_reference hj]

theorem stored_eq_iff (hfits : v.fits type = true) (hfits' : w.fits type = true) (hv : datavalue v = .ok stored)
    (hw : datavalue w = .ok stored') : stored = stored' ↔ v = w ∨ v.Respells w := by
  rw [← canonical_eq_iff hv hw]
  constructor
  · rintro rfl
    exact Option.some.inj ((ofDatavalue?_datavalue hfits hv).symm.trans (ofDatavalue?_datavalue hfits' hw))
  · intro h
    exact Except.ok.inj ((datavalue_canonical hv).symm.trans (h ▸ datavalue_canonical hw))

theorem ne_of_equals (h : v.equals w = false) (hv : datavalue v = .ok stored) : v ≠ w := by
  rintro rfl
  refine Bool.false_ne_true (h.symm.trans (Value.equals_self ?_))
  rintro rfl
  exact datavalue_number hv rfl

end Claim

theorem Values.Allowed.stored {f : ResolvedField} {v : Value} (h : Values.Allowed f v) (hv : v.isNull = false) :
    v.fits f.field.type = true ∧ ∃ stored, Claim.datavalue v = .ok stored :=
  h.resolve_left fun hnull => Bool.false_ne_true (hv.symm.trans hnull.1)

namespace CheckedValues

variable {a b : CheckedValues}

/--
That the values of two rows in a field which has to be unique are both stored, and alike only as identifiers of one item
that are written differently.
-/
def StoredApart (a b : CheckedValues) : Prop :=
  ∀ f v w, f.field.unique = true → (f, v) ∈ a → (f, w) ∈ b → v.isNull = false → w.isNull = false →
    ∃ stored stored', Claim.datavalue v = .ok stored ∧ Claim.datavalue w = .ok stored' ∧ (stored = stored' ↔ v.Respells w)

theorem mem_unique {f : ResolvedField} {v : Value} (hunique : f.field.unique = true) (hv : v.isNull = false) :
    (f, v) ∈ a.unique ↔ (f, v) ∈ a := by
  simp [unique, hunique, hv]

theorem Apart.stored (h : a.Apart b) (ha : ∀ e ∈ a, Values.Allowed e.1 e.2) (hb : ∀ e ∈ b, Values.Allowed e.1 e.2) :
    a.StoredApart b := by
  intro f v w hunique hva hwb hv hw
  obtain ⟨hfits, stored, hstored⟩ := (ha _ hva).stored hv
  obtain ⟨hfits', stored', hstored'⟩ := (hb _ hwb).stored hw
  have hne : v ≠ w :=
    Claim.ne_of_equals (h _ ((mem_unique hunique hv).2 hva) _ ((mem_unique hunique hw).2 hwb) rfl) hstored
  exact ⟨stored, stored', hstored, hstored', (Claim.stored_eq_iff hfits hfits' hstored hstored').trans (or_iff_right hne)⟩

theorem stored_of_checkBatch {model : String} {rows : List CheckedValues}
    (hallowed : ∀ row ∈ rows, ∀ e ∈ row, Values.Allowed e.1 e.2) (hbatch : checkBatch model rows = .ok ()) :
    rows.Pairwise StoredApart :=
  (checkBatch_eq_ok hbatch).imp_of_mem fun ha hb hapart => hapart.stored (hallowed _ ha) (hallowed _ hb)

/--
In a batch of checked rows that passes the check for unique values, the values of two rows in a field that has to be
unique are stored, and they are stored alike exactly if they are identifiers of one item that are written differently.
-/
theorem checkBatch_stores {s : Schema} {model : String} {rows : List CheckedValues}
    (hvalid : ∀ row ∈ rows, ∃ values creating, Values.validate s model values creating = .ok row)
    (hbatch : checkBatch model rows = .ok ()) :
    rows.Pairwise fun a b => ∀ f v w, f.field.unique = true → (f, v) ∈ a → (f, w) ∈ b → v.isNull = false →
      w.isNull = false → ∃ stored stored', Claim.datavalue v = .ok stored ∧ Claim.datavalue w = .ok stored' ∧
        (stored = stored' ↔ v.Respells w) := by
  refine stored_of_checkBatch (fun row hrow e he => ?_) hbatch
  obtain ⟨values, creating, h⟩ := hvalid row hrow
  exact (Values.given_of_validate h he).2.2

end CheckedValues

namespace Tables

theorem createMany_stores (t : Tables) (model : String) (batch : List Values) (m : Mappings) (s : Session) :
    (t.createMany model batch).Ensures .noting m s [] fun _ _ _ trace =>
      (∀ x ∈ trace, t.Prepares x.request) ∨ ∃ rows,
        List.Forall₂ (fun values row => Values.validate t.schema model values true = .ok row) batch rows ∧
          rows.Pairwise CheckedValues.StoredApart := by
  refine ((t.steady_prepares.prepareAll model batch m s [] (List.forall_mem_nil _)).and
    (prepareAll_valid t model batch m s [] True.intro)).bind ?_ ?_
  · rintro rows m' s' trace ⟨⟨hprepares, -⟩, -, hvalid⟩
    cases hbatch : CheckedValues.checkBatch model rows with
    | error e => exact .inl hprepares
    | ok _ =>
      have hallowed : ∀ row ∈ rows, ∀ e ∈ row, Values.Allowed e.1 e.2 := by
        intro row hrow e he
        obtain ⟨values, -, h⟩ := exists_of_mem_right (hvalid rows rfl) hrow
        exact (Values.given_of_validate h he).2.2
      refine (Action.Maintains.trivial (t.insertAll model [] rows) m' s' trace True.intro).mono fun _ _ _ _ _ => .inr ?_
      exact ⟨rows, hvalid rows rfl, CheckedValues.stored_of_checkBatch hallowed hbatch⟩
  · rintro e m' s' trace ⟨⟨hprepares, -⟩, -⟩
    exact .inl hprepares

section Scripted

def superiorTables : Tables :=
  personTables [⟨"boss", .reference "Person", true, true⟩]

def withBoss (id : String) : CheckedValues :=
  [(⟨"Person", ⟨"boss", .reference "Person", true, true⟩⟩, .reference id)]

theorem checkBatch_stores_bosses :
    (∀ row ∈ [withBoss "Q8", withBoss "Q9"], ∃ values creating,
      Values.validate superiorTables.schema "Person" values creating = .ok row) ∧
    CheckedValues.checkBatch "Person" [withBoss "Q8", withBoss "Q9"] = .ok () ∧
    ∃ stored stored', Claim.datavalue (.reference "Q8") = .ok stored ∧ Claim.datavalue (.reference "Q9") = .ok stored' ∧
      stored ≠ stored' := by
  have hvalid : ∀ row ∈ [withBoss "Q8", withBoss "Q9"], ∃ values creating,
      Values.validate superiorTables.schema "Person" values creating = .ok row :=
    List.forall_mem_cons.2 ⟨⟨[("boss", .reference "Q8")], true, by decide +kernel⟩,
      List.forall_mem_singleton.2 ⟨[("boss", .reference "Q9")], true, by decide +kernel⟩⟩
  have hbatch : CheckedValues.checkBatch "Person" [withBoss "Q8", withBoss "Q9"] = .ok () := by decide +kernel
  obtain ⟨stored, stored', h, h', hiff⟩ := List.pairwise_pair.1 (CheckedValues.checkBatch_stores hvalid hbatch) _ _ _ rfl
    List.mem_cons_self List.mem_cons_self rfl rfl
  refine ⟨hvalid, hbatch, stored, stored', h, h', fun hsame => ?_⟩
  obtain ⟨id, id', i, hid, hid', -, hi, hi'⟩ := hiff.1 hsame
  obtain rfl := Value.reference.inj hid
  obtain rfl := Value.reference.inj hid'
  exact absurd (hi.trans hi'.symm) (by decide)

def bossNineTwice : List Values :=
  [[("boss", .reference "Q9")], [("boss", .reference "Q09")]]

def bossesUnknown : Conversation :=
  .start ([foundReply "Q10" "Person in test", foundReply "P5" "Person.boss in test", answerReply [], answerReply []] ++
    loginReplies ++ [madeReply "Q20", madeReply "Q21"]) 0 ""

theorem checkBatch_stores_twice :
    ((superiorTables.createMany "Person" bossNineTwice).follow .empty .fresh bossesUnknown).1 = .ok ["Q20", "Q21"] ∧
      ∃ rows, List.Forall₂ (fun values row => Values.validate superiorTables.schema "Person" values true = .ok row)
          bossNineTwice rows ∧ CheckedValues.checkBatch "Person" rows = .ok () ∧
        ¬rows.Pairwise fun a b => ∀ f v w, f.field.unique = true → (f, v) ∈ a → (f, w) ∈ b → v.isNull = false →
          w.isNull = false → Claim.datavalue v ≠ Claim.datavalue w := by
  refine ⟨by decide +kernel, [withBoss "Q9", withBoss "Q09"], ?_, by decide +kernel, fun h => ?_⟩
  · exact .cons (by decide +kernel) (.cons (by decide +kernel) .nil)
  · refine List.pairwise_pair.1 h _ _ _ rfl List.mem_cons_self List.mem_cons_self rfl rfl ?_
    exact (Claim.datavalue_item (i := ⟨9⟩) (by decide)).trans (Claim.datavalue_item (by decide)).symm

end Scripted

end Tables

end ClaimTables
