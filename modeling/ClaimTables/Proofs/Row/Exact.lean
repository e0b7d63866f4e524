import ClaimTables.Proofs.Claim.Canonical
import ClaimTables.Proofs.Schema.Acceptance
import ClaimTables.Proofs.Tables.FirstRow

/-!
The rows of an answer, said without the stream. A solution is about the item that the last segment of an IRI names, and gives a
field what its binding is read as, or null. Main statement: the stream has one row or error for each solution in their order,
and a row exactly where a solution gives all fields values and no solution before is about its item.
-/

namespace ClaimTables

open Sparql (Solution Solutions Variable)

def ItemId.IsNamedBy (i : ItemId) (iri : String) : Prop :=
  ∃ front last, iri.toList = front ++ last ∧ (front = [] ∨ ∃ rest, front = rest ++ ['/']) ∧ '/' ∉ last ∧
    ofText? (String.ofList last) = some i

theorem getLast?_splitOn {front last : List Char} (hfront : front = [] ∨ ∃ rest, front = rest ++ ['/']) (hlast : '/' ∉ last) :
    ((front ++ last).splitOn '/').getLast? = some last := by
  rcases hfront with rfl | ⟨rest, rfl⟩
  · rw [List.nil_append, List.splitOn_eq_singleton hlast]
    rfl
  · rw [List.append_assoc, List.singleton_append, List.splitOn_append_cons_self, List.splitOn_eq_singleton hlast,
      List.getLast?_concat]

theorem exists_last_segment (cs : List Char) :
    ∃ front last, cs = front ++ last ∧ (front = [] ∨ ∃ rest, front = rest ++ ['/']) ∧ '/' ∉ last := by
  by_cases h : '/' ∈ cs
  · obtain ⟨last, rest, hcs, hlast⟩ := List.eq_append_cons_of_mem (List.mem_reverse.2 h)
    refine ⟨rest.reverse ++ ['/'], last.reverse, ?_, .inr ⟨_, rfl⟩, fun hmem => hlast (List.mem_reverse.1 hmem)⟩
    have hreversed := congrArg List.reverse hcs
    simpa using hreversed
  · exact ⟨[], cs, rfl, .inl rfl, h⟩

theorem ItemId.ofIri?_eq_some {iri : String} {i : ItemId} : ofIri? iri = some i ↔ i.IsNamedBy iri := by
  obtain ⟨front, last, hcs, hfront, hlast⟩ := exists_last_segment iri.toList
  have hread : ofIri? iri = ofText? (String.ofList last) := by
    unfold ofIri?
    rw [hcs, getLast?_splitOn hfront hlast]
  rw [hread]
  constructor
  · exact fun h => ⟨front, last, hcs, hfront, hlast, h⟩
  · rintro ⟨front', last', hcs', hfront', hlast', h⟩
    have hsame := getLast?_splitOn hfront hlast
    rw [← hcs, hcs', getLast?_splitOn hfront' hlast'] at hsame
    obtain rfl := Option.some.inj hsame
    exact h

theorem Sparql.Binding.ne_null_of_decode? {type : FieldType} {b : Binding} {v : Value} (h : b.decode? type = some v) :
    v ≠ .null := by
  cases type with
  | text => exact Option.some.inj h ▸ nofun
  | boolean =>
    obtain ⟨x, rfl⟩ := Value.exists_of_boolean? h
    exact nofun
  | number | date | reference _ =>
    obtain ⟨x, -, rfl⟩ := Option.map_eq_some_iff.1 h
    exact nofun

namespace RowStream

def About (solution : Solution) (i : ItemId) : Prop :=
  ∃ b, solution.lookup "item" = some b ∧ i.IsNamedBy b.value

def Gives (solution : Solution) (f : Field) (v : Value) : Prop :=
  (∃ b, solution.lookup ("f_" ++ f.name) = some b ∧ b.decode? f.type = some v) ∨
    solution.lookup ("f_" ++ f.name) = none ∧ f.nullable = true ∧ v = .null

def Introduces (earlier : List Solution) (solution : Solution) (i : ItemId) : Prop :=
  About solution i ∧ ∀ e ∈ earlier, ¬About e i

/-- That a row is the one of a solution: it is the first about its item and gives the fields their values. -/
structure Makes (fields : List Field) (earlier : List Solution) (solution : Solution) (row : Row) : Prop where
  item : ∃ i, Introduces earlier solution i ∧ row.id = i.text
  values : List.Forall₂ (fun f e => e.1 = f.name ∧ Gives solution f e.2) fields row.values

theorem cell_eq_ok {f : Field} {solution : Solution} {v : Value} : cell f solution = .ok v ↔ Gives solution f v := by
  have hname : (Variable.field f.name).name = "f_" ++ f.name := rfl
  unfold cell Gives
  rw [hname]
  cases hlookup : solution.lookup ("f_" ++ f.name) with
  | some b =>
    cases hdecode : b.decode? f.type with
    | some w => simp [hdecode]
    | none => simp [hdecode]
  | none => cases hnullable : f.nullable <;> simp [eq_comm]

theorem cells_iff_gives {solution : Solution} {fields : List Field} {values : List (String × Value)} :
    cells solution fields = .ok values ↔
      List.Forall₂ (fun f e => e.1 = f.name ∧ Gives solution f e.2) fields values := by
  simp only [cells_eq_ok, cell_eq_ok]

theorem itemOf_eq_ok {model : String} {solution : Solution} {i : ItemId} :
    itemOf model solution = .ok i ↔ About solution i := by
  have hname : Variable.item.name = "item" := rfl
  unfold itemOf About
  rw [hname]
  simp only [← ItemId.ofIri?_eq_some]
  cases hlookup : solution.lookup "item" with
  | none => simp
  | some b => cases hiri : ItemId.ofIri? b.value <;> simp [hiri]

def HasSeen (earlier : List Solution) (r : RowStream) : Prop :=
  ∀ i, i ∈ r.seen ↔ ∃ e ∈ earlier, About e i

variable {r : RowStream} {earlier : List Solution} {solution : Solution} {i : ItemId} {row : Row}

theorem rowOf_eq_ok (hseen : HasSeen earlier r) (habout : About solution i) :
    r.rowOf solution i = .ok row ↔ Makes r.fields earlier solution row := by
  have hnew : i ∈ r.seen ↔ ¬∀ e ∈ earlier, ¬About e i := by simp [hseen i]
  have honly (j : ItemId) (hj : About solution j) : j = i := by
    have hitem : itemOf r.model solution = .ok i := itemOf_eq_ok.2 habout
    exact Except.ok.inj ((itemOf_eq_ok.2 hj).symm.trans hitem)
  unfold rowOf
  -- A row is made of the first solution for an item, and of none that follows.
  by_cases hi : i ∈ r.seen
  · rw [if_pos (List.contains_iff_mem.2 hi)]
    refine iff_of_false (fun h => nomatch h) fun h => ?_
    obtain ⟨j, ⟨hj, hfirst⟩, -⟩ := h.item
    obtain rfl := honly j hj
    exact hnew.1 hi hfirst
  · rw [if_neg fun h => hi (List.contains_iff_mem.1 h)]
    have hfirst := not_not.1 fun h => hi (hnew.2 h)
    constructor
    · intro h
      cases hcells : cells solution r.fields with
      | error reason =>
        rw [hcells] at h
        exact nomatch h
      | ok values =>
        rw [hcells] at h
        obtain rfl := Except.ok.inj h
        exact ⟨⟨i, ⟨habout, hfirst⟩, rfl⟩, cells_iff_gives.1 hcells⟩
    · rintro ⟨⟨j, ⟨hj, -⟩, hid⟩, hvalues⟩
      obtain rfl := honly j hj
      rw [cells_iff_gives.2 hvalues, ← hid]

theorem exists_next (hseen : HasSeen earlier r) {rest : List Solution} (hs : r.solutions = solution :: rest) :
    ∃ item later, r.next? = some (item, later) ∧ later.solutions = rest ∧ later.fields = r.fields ∧
      HasSeen (earlier ++ [solution]) later ∧ ∀ row, item = .ok row ↔ Makes r.fields earlier solution row := by
  have hone (j : ItemId) : (∃ e ∈ earlier ++ [solution], About e j) ↔ (∃ e ∈ earlier, About e j) ∨ About solution j := by
    simp only [List.mem_append, List.mem_singleton, or_and_right, exists_or, exists_eq_left]
  -- A solution about no item is refused and leaves what was seen as it is.
  cases hitem : itemOf r.model solution with
  | error e =>
    have hnone (j : ItemId) : ¬About solution j := by
      intro h
      rw [itemOf_eq_ok.2 h] at hitem
      cases hitem
    refine ⟨.error e, { r with solutions := rest }, ?_, rfl, rfl, fun j => ?_, fun row => ?_⟩
    · simp only [next?, hs, hitem]
    · rw [hone, or_iff_left (hnone j)]
      exact hseen j
    · refine iff_of_false (by rintro ⟨⟩) fun h => ?_
      obtain ⟨j, ⟨hj, -⟩, -⟩ := h.item
      exact hnone j hj
  | ok i =>
    have habout := itemOf_eq_ok.1 hitem
    refine ⟨r.rowOf solution i, { r with solutions := rest, seen := i :: r.seen }, ?_, rfl, rfl, fun j => ?_,
      fun row => rowOf_eq_ok hseen habout⟩
    · simp only [next?, hs, hitem]
    · rw [hone, List.mem_cons, ← hseen j, or_comm]
      refine or_congr_right ⟨?_, fun hj => ?_⟩
      · rintro rfl
        exact habout
      · exact Except.ok.inj ((itemOf_eq_ok.2 hj).symm.trans hitem)

theorem getElem?_toList (hseen : HasSeen earlier r) {n : Nat} (hn : r.solutions[n]? = some solution) (row : Row) :
    r.toList[n]? = some (.ok row) ↔ Makes r.fields (earlier ++ r.solutions.take n) solution row := by
  induction n generalizing r earlier with
  | zero =>
    cases hs : r.solutions with
    | nil =>
      rw [hs] at hn
      cases hn
    | cons first rest =>
      rw [hs] at hn
      obtain rfl := Option.some.inj hn
      obtain ⟨item, later, hnext, -, -, -, hmakes⟩ := exists_next hseen hs
      rw [toList_of_next? hnext, List.getElem?_cons_zero, Option.some.injEq, List.take_zero, List.append_nil]
      exact hmakes row
  | succ n ih =>
    cases hs : r.solutions with
    | nil =>
      rw [hs] at hn
      cases hn
    | cons first rest =>
      obtain ⟨item, later, hnext, hrest, hfields, hlater, -⟩ := exists_next hseen hs
      rw [hs, List.getElem?_cons_succ, ← hrest] at hn
      rw [toList_of_next? hnext, List.getElem?_cons_succ, ih hlater hn, hfields, hrest, List.append_assoc,
        List.singleton_append, List.take_succ_cons]

theorem take_eq (r : RowStream) (count : Nat) : r.take count = r.toList.take count := by
  induction count generalizing r with
  | zero => rfl
  | succ count ih =>
    obtain ⟨-, hnone, hlist⟩ | ⟨item, later, hnext, hlist, -⟩ := r.toList_cases
    · rw [take, hnone, hlist, List.take_nil]
    · rw [take, hnext, hlist, List.take_succ_cons, ← ih later]

theorem mapM_id_eq_ok {items : List (Except Error Row)} {rows : List Row} :
    items.mapM id = .ok rows ↔ items = rows.map .ok := by
  constructor
  · intro h
    have hpairs := mapM_eq_ok h
    clear h
    induction hpairs with
    | nil => rfl
    | cons hrow _ ih => exact congr (congrArg List.cons hrow) ih
  · rintro rfl
    induction rows with
    | nil => rfl
    | cons row rest ih =>
      rw [List.map_cons, List.mapM_cons, ih]
      rfl

theorem Gives.fits {f : Field} {v : Value} (h : Gives solution f v) :
    v.fits f.type = true ∧ (v = .null → f.nullable = true) := by
  rcases h with ⟨b, -, hdecode⟩ | ⟨-, hnullable, rfl⟩
  · refine ⟨Sparql.Binding.fits_of_decode? hdecode, ?_⟩
    rintro rfl
    exact absurd rfl (Sparql.Binding.ne_null_of_decode? hdecode)
  · exact ⟨rfl, fun _ => hnullable⟩

theorem exists_makes_iff {fields : List Field} :
    (∃ row, Makes fields earlier solution row) ↔
      (∃ i, Introduces earlier solution i) ∧ ∀ f ∈ fields, ∃ v, Gives solution f v := by
  constructor
  · rintro ⟨row, ⟨i, hi, -⟩, hvalues⟩
    refine ⟨⟨i, hi⟩, fun f hf => ?_⟩
    obtain ⟨e, -, -, hgives⟩ := exists_of_mem_left hvalues hf
    exact ⟨e.2, hgives⟩
  · rintro ⟨⟨i, hi⟩, hgives⟩
    have : Nonempty Value := ⟨.null⟩
    choose! v hv using hgives
    refine ⟨⟨i.text, fields.map fun f => (f.name, v f)⟩, ⟨i, hi, rfl⟩, ?_⟩
    exact List.forall₂_map_right_iff.2 (List.forall₂_same.2 fun f hf => ⟨rfl, hv f hf⟩)

end RowStream

namespace Row

variable {row : Row} {fields : List Field}

/-- That a row has one value for each field, in order, of the field's type, and null only where that is allowed. -/
def Fills (row : Row) (fields : List Field) : Prop :=
  List.Forall₂ (fun f e => e.1 = f.name ∧ e.2.fits f.type = true ∧ (e.2 = .null → f.nullable = true)) fields row.values

/-- That the document of a row has one entry for its identifier and one for each of its values, and no other. -/
def ShownWhole (row : Row) : Prop :=
  ∃ entries, row.toJson = .object entries ∧ (entries.map (·.1)).Nodup ∧
    entries.Perm (("id", .string row.id) :: row.values.map fun e => (e.1, e.2.toJson))

theorem Fills.names (h : row.Fills fields) : row.values.map (·.1) = fields.map (·.name) := by
  obtain ⟨id, values⟩ := row
  change List.Forall₂ _ fields values at h
  induction h with
  | nil => rfl
  | cons hname _ ih => exact congr (congrArg List.cons hname.1) ih

theorem Fills.shownWhole (h : row.Fills fields) (hid : Schema.idField ∉ fields.map (·.name))
    (hnodup : (fields.map (·.name)).Nodup) : row.ShownWhole := by
  have hkeys : ((("id", Json.string row.id) :: row.values.map fun e => (e.1, e.2.toJson)).map (·.1)).Nodup := by
    have hnames : (row.values.map fun e => (e.1, e.2.toJson)).map (·.1) = fields.map (·.name) := by
      rw [List.map_map, ← h.names]
      rfl
    rw [List.map_cons, hnames]
    exact List.nodup_cons.2 ⟨hid, hnodup⟩
  have hperm := Keyed.perm_ofList hkeys
  exact ⟨_, rfl, (hperm.map _).nodup_iff.2 hkeys, hperm⟩

end Row

namespace RowStream

/-- That rows and errors are what the solutions of an answer make of the fields of a model. -/
structure Exact (fields : List Field) (solutions : List Solution) (items : List (Except Error Row)) : Prop where
  length_eq : items.length = solutions.length
  ok_iff : ∀ n solution, solutions[n]? = some solution → ((∃ row, items[n]? = some (.ok row)) ↔
    (∃ i, Introduces (solutions.take n) solution i) ∧ ∀ f ∈ fields, ∃ v, Gives solution f v)
  row_iff : ∀ n solution, solutions[n]? = some solution → ∀ row, items[n]? = some (.ok row) ↔
    Makes fields (solutions.take n) solution row
  fills : ∀ row, .ok row ∈ items → row.Fills fields ∧ row.ShownWhole
  distinct : items.Pairwise fun a b => ∀ row row', a = .ok row → b = .ok row' → row.id ≠ row'.id

theorem Makes.id_ne {fields fields' : List Field} {earlier later : List Solution} {one two : Solution} {row row' : Row}
    (h : Makes fields earlier one row) (h' : Makes fields' later two row') (hmem : one ∈ later) : row.id ≠ row'.id := by
  obtain ⟨i, ⟨hi, -⟩, hid⟩ := h.item
  obtain ⟨j, ⟨-, hfirst⟩, hid'⟩ := h'.item
  rw [hid, hid']
  intro heq
  obtain rfl := ItemId.text_injective heq
  exact hfirst one hmem hi

theorem hasSeen_nil {r : RowStream} (h : r.seen = []) : HasSeen [] r :=
  fun i => by simp [h]

theorem exists_makes {r : RowStream} (hseen : r.seen = []) {n : Nat} {row : Row} (hitem : r.toList[n]? = some (.ok row)) :
    ∃ solution, r.solutions[n]? = some solution ∧ Makes r.fields (r.solutions.take n) solution row := by
  obtain ⟨hlt, -⟩ := List.getElem?_eq_some_iff.1 hitem
  have hn := List.getElem?_eq_getElem (r.length_toList ▸ hlt)
  exact ⟨_, hn, (getElem?_toList (hasSeen_nil hseen) hn row).1 hitem⟩

theorem exact_toList {r : RowStream} (hseen : r.seen = []) (hid : Schema.idField ∉ r.fields.map (·.name))
    (hnodup : (r.fields.map (·.name)).Nodup) : Exact r.fields r.solutions r.toList := by
  have hrow (n : Nat) (solution : Solution) (hn : r.solutions[n]? = some solution) (row : Row) :
      r.toList[n]? = some (.ok row) ↔ Makes r.fields (r.solutions.take n) solution row :=
    getElem?_toList (hasSeen_nil hseen) hn row
  refine ⟨r.length_toList, fun n solution hn => ?_, hrow, fun row hmem => ?_, ?_⟩
  · simp only [hrow n solution hn, exists_makes_iff]
  · obtain ⟨n, hitem⟩ := List.getElem?_of_mem hmem
    obtain ⟨solution, -, hmakes⟩ := exists_makes hseen hitem
    have hfills : row.Fills r.fields := hmakes.values.imp fun f e h => ⟨h.1, h.2.fits⟩
    exact ⟨hfills, hfills.shownWhole hid hnodup⟩
  · rw [List.pairwise_iff_getElem]
    intro n n' hlt hlt' hn row row' hrow hrow'
    obtain ⟨one, hone, hmakes⟩ := exists_makes hseen (List.getElem?_eq_some_iff.2 ⟨hlt, hrow⟩)
    obtain ⟨two, -, hmakes'⟩ := exists_makes hseen (List.getElem?_eq_some_iff.2 ⟨hlt', hrow'⟩)
    exact hmakes.id_ne hmakes' (List.mem_of_getElem? ((List.getElem?_take_of_lt hn).trans hone))

/--
The stream of an answer gives one row or error for each solution, in order, and a row exactly where a solution is the first about
its item and gives each field a value, or may leave it empty. A row holds the fields of the model in order, with values of their
types, and its document keeps all of them; no two rows are of one item. All rows are collected exactly if there is no error.
-/
theorem rows_exact {models : List Model} {s : Schema} (hschema : Schema.ofModels models = .ok s) {model : String}
    (hdeclared : s.declares model = true) (answer : Solutions) :
    ∃ fields stream, s.fields model = .ok fields ∧ ofSolutions s model answer = .ok stream ∧
      Exact (fields.map (·.field)) answer.solutions stream.toList ∧
      (∀ count, stream.take count = stream.toList.take count) ∧
      ∀ rows, stream.collect = .ok rows ↔ stream.toList = rows.map .ok := by
  have hs := Schema.valid_of_ofModels hschema
  obtain ⟨m, hm, rfl⟩ : ∃ m ∈ s.models, m.name = model := by
    obtain ⟨m, hm⟩ := Option.isSome_iff_exists.1 hdeclared
    exact ⟨m, List.mem_of_find?_eq_some hm, by simpa using List.find?_some hm⟩
  obtain ⟨chain, hchain⟩ := hs.exists_chain hm
  have hfields := Schema.fields_eq_ok.2 ⟨chain, hchain, rfl⟩
  have hnames : ((chain.flatMap Schema.declared).map (·.field)).map (·.name) =
      (chain.flatMap Schema.declared).map (·.field.name) := List.map_map
  have hid : Schema.idField ∉ ((chain.flatMap Schema.declared).map (·.field)).map (·.name) := by
    rw [hnames]
    intro hmem
    obtain ⟨f, hf, hname⟩ := List.mem_map.1 hmem
    exact (hs.fieldValid hfields hf).not_id hname
  have hexact := exact_toList (r := ⟨m.name, (chain.flatMap Schema.declared).map (·.field), answer.solutions, []⟩) rfl hid
    (hnames ▸ hs.nodup hfields)
  exact ⟨_, _, hfields, by rw [ofSolutions, hfields]; rfl, hexact, take_eq _, fun rows => mapM_id_eq_ok⟩

section Scripted

def personSchema : Schema :=
  ⟨[⟨"Person", none, [⟨"name", .text, false, false⟩, ⟨"age", .number, true, false⟩]⟩]⟩

def personSolution (iri : String) (named : List String) : Solution :=
  ("item", ⟨"uri", iri, none, none⟩) :: named.map fun name => ("f_name", .literal name)

def personSolutions : Solutions :=
  ⟨["item", "f_name", "f_age"], [personSolution "https://wiki.test/entity/Q7" [], personSolution "https://wiki.test/entity/Q7" ["Ada"],
    personSolution "https://wiki.test/entity/P8" ["Cy"], personSolution "https://wiki.test/entity/Q8" ["Bob"]]⟩

theorem rows_exact_persons : Schema.ofModels personSchema.models = .ok personSchema ∧ personSchema.declares "Person" = true ∧
    ∃ fields stream, personSchema.fields "Person" = .ok fields ∧
      ofSolutions personSchema "Person" personSolutions = .ok stream ∧
      Exact (fields.map (·.field)) personSolutions.solutions stream.toList ∧
      stream.toList.map (·.toOption) = [none, none, none, some ⟨"Q8", [("name", .text "Bob"), ("age", .null)]⟩] ∧
      stream.collect.isOk = false := by
  have hschema : Schema.ofModels personSchema.models = .ok personSchema := rfl
  have hdeclared : personSchema.declares "Person" = true := rfl
  obtain ⟨fields, stream, hfields, hstream, hexact, -, -⟩ := rows_exact hschema hdeclared personSolutions
  have hfirst : ofSolutions personSchema "Person" personSolutions =
      .ok ⟨"Person", [⟨"name", .text, false, false⟩, ⟨"age", .number, true, false⟩], personSolutions.solutions, []⟩ := rfl
  obtain rfl := Except.ok.inj (hstream.symm.trans hfirst)
  exact ⟨hschema, hdeclared, fields, _, hfields, hstream, hexact, by decide +kernel, by decide +kernel⟩

end Scripted

end RowStream

end ClaimTables
