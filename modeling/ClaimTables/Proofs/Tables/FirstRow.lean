import ClaimTables.Proofs.Client.Noting
import ClaimTables.Proofs.Exchange.Paths
import ClaimTables.Proofs.Query.Meaning
import ClaimTables.Proofs.Tables.Batches

/-!
A row that is fetched by its identifier beside all rows of the same query. Main statement: what is fetched is what the
first solution makes, so a second solution, for which the query leaves room, goes unnoticed if the first makes a row.
-/

namespace ClaimTables

open Sparql (Solution Solutions)

namespace RowStream

variable {r later : RowStream} {row : Except Error Row} {rows : List (Except Error Row)}

theorem toList_of_next? (h : r.next? = some (row, later)) : r.toList = row :: later.toList := by
  rw [toList, ← length_of_next? h, take, h]
  rfl

theorem next?_eq_none : r.next? = none ↔ r.solutions = [] := by
  constructor
  · intro h
    cases hs : r.solutions with
    | nil => rfl
    | cons solution rest =>
      rw [next?, hs] at h
      dsimp only at h
      split at h <;> cases h
  · intro h
    rw [next?, h]

theorem toList_cases (r : RowStream) : (r.solutions = [] ∧ r.next? = none ∧ r.toList = []) ∨
    ∃ row later, r.next? = some (row, later) ∧ r.toList = row :: later.toList ∧
      r.solutions.length = later.solutions.length + 1 := by
  cases h : r.next? with
  | none =>
    have hs := next?_eq_none.1 h
    exact .inl ⟨hs, rfl, by rw [toList, hs, List.length_nil, take]⟩
  | some next =>
    obtain ⟨row, later⟩ := next
    exact .inr ⟨row, later, rfl, toList_of_next? h, (length_of_next? h).symm⟩

theorem length_toList (r : RowStream) : r.toList.length = r.solutions.length := by
  induction hn : r.solutions.length generalizing r with
  | zero =>
    obtain ⟨-, -, hlist⟩ | ⟨row, later, -, -, hlength⟩ := r.toList_cases
    · rw [hlist, List.length_nil]
    · exact absurd (hn.symm.trans hlength) (Nat.succ_ne_zero _).symm
  | succ n ih =>
    obtain ⟨hs, -, -⟩ | ⟨row, later, -, hlist, hlength⟩ := r.toList_cases
    · exact absurd (hs ▸ hn) (Nat.succ_ne_zero _).symm
    · rw [hlist, List.length_cons, ih later (Nat.succ.inj (hlength.symm.trans hn))]

def first : List (Except Error Row) → Except Error (Option Row)
  | [] => .ok none
  | row :: _ => row.map some

theorem first_eq_none : first rows = .ok none ↔ rows = [] := by
  match rows with
  | [] => exact iff_of_true rfl rfl
  | .ok row :: rest => simp [first, Except.map]
  | .error e :: rest => simp [first, Except.map]

theorem first_eq_some {row : Row} : first rows = .ok (some row) ↔ ∃ rest, rows = .ok row :: rest := by
  match rows with
  | [] => simp [first]
  | .ok other :: rest => simp [first, Except.map]
  | .error e :: rest => simp [first, Except.map]

theorem first_eq_error {e : Error} : first rows = .error e ↔ ∃ rest, rows = .error e :: rest := by
  match rows with
  | [] => simp [first]
  | .ok row :: rest => simp [first, Except.map]
  | .error other :: rest => simp [first, Except.map]

theorem collect_of_error {e : Error} (h : first r.toList = .error e) : r.collect = .error e := by
  obtain ⟨rest, hlist⟩ := first_eq_error.1 h
  rw [collect, hlist, List.mapM_cons]
  rfl

theorem collect_eq_single {row : Row} :
    r.collect = .ok [row] ↔ first r.toList = .ok (some row) ∧ r.solutions.length = 1 := by
  rw [← length_toList, first_eq_some]
  constructor
  · intro h
    obtain ⟨one, rest, hrow, hrest, hlist⟩ := List.forall₂_cons_right_iff.1 (mapM_eq_ok h)
    obtain rfl := List.forall₂_nil_right_iff.1 hrest
    rw [hlist]
    exact ⟨⟨[], congrArg (· :: []) hrow⟩, rfl⟩
  · rintro ⟨⟨rest, hlist⟩, hlength⟩
    obtain rfl : rest = [] := List.length_eq_zero_iff.1 (by simpa [hlist] using hlength)
    rw [collect, hlist]
    rfl

def repeated (model : String) (i : ItemId) : Error :=
  .inconsistentData model (some i.text) "entity returned more than once; some field holds several claims"

theorem collect_repeated {row : Row} {one two : Solution} {rest : List Solution} {i : ItemId}
    (hs : r.solutions = one :: two :: rest) (hone : itemOf r.model one = .ok i) (htwo : itemOf r.model two = .ok i)
    (h : first r.toList = .ok (some row)) : r.collect = .error (repeated r.model i) := by
  have hnext : r.next? = some (r.rowOf one i, { r with solutions := two :: rest, seen := i :: r.seen }) := by
    simp only [next?, hs, hone]
  set second : RowStream := { r with solutions := two :: rest, seen := i :: r.seen } with hsecond
  have hagain : second.next? =
      some (.error (repeated r.model i), { second with solutions := rest, seen := i :: second.seen }) := by
    simp [next?, hsecond, htwo, rowOf, repeated]
  rw [toList_of_next? hnext] at h
  obtain ⟨more, hmore⟩ := first_eq_some.1 h
  rw [collect, toList_of_next? hnext, toList_of_next? hagain, (List.cons.inj hmore).1, List.mapM_cons, List.mapM_cons]
  rfl

end RowStream

namespace Tables

open Tables.Action

variable {t : Tables} {model id : String}

theorem row?_eq (t : Tables) (model id : String) :
    t.row? model id = t.rows model (rowQuery id) >>= fun stream => Action.ofExcept (RowStream.first stream.toList) := by
  refine congrArg (t.rows model (rowQuery id) >>= ·) (funext fun stream => ?_)
  obtain ⟨-, hnext, hlist⟩ | ⟨row, later, hnext, hlist, -⟩ := stream.toList_cases
  · rw [hnext, hlist]
    rfl
  · rw [hnext, hlist]
    cases row <;> rfl

theorem rows_noted (t : Tables) (model : String) (q : Query) (m : Mappings) (s : Session) (trace : List Exchange) :
    (t.rows model q).Ensures .noting m s trace fun r _ _ later => ∀ stream, r = .ok stream →
      ∃ text found, ⟨.query text, .ok found⟩ ∈ later ∧ RowStream.ofSolutions t.schema model found = .ok stream := by
  have htext : (t.rowsText model q).Maintains .noting (fun _ _ => True) fun _ => True := .trivial _
  refine (htext m s trace True.intro).bind (fun text m' s' trace' _ => ?_) fun e _ _ _ _ => nofun
  have hquery : (ofClient (t.client.query text)).Ensures .noting m' s' trace' fun r _ _ later =>
      ∀ found, r = .ok found → ⟨.query text, .ok found⟩ ∈ later :=
    ensures_ofClient.2 ((Client.answer_noted t.client (.query text) s' trace').mono
      fun r _ later hr found hfound => hfound ▸ hr)
  refine hquery.bind (fun found m'' s'' later h => ?_) fun e _ _ _ _ => nofun
  exact ensures_ofExcept.2 fun stream hstream => ⟨text, found, h found rfl, hstream⟩

/--
The row that is fetched by an identifier is told by the first solution of the query for it: there is none exactly if there
is no solution, and what the first solution makes is what is given, be it a row or an error. So it fails as all rows of the
query do when the first solution is at fault, and it is their only row exactly if there is one solution; and where the item
comes twice that is told of all rows, but the first one is given.
-/
theorem row?_first (t : Tables) (model id : String) (m : Mappings) (s : Session) :
    (t.row? model id).Ensures .noting m s [] fun r m' s' trace => ∃ q, (t.rows model (rowQuery id)).Goes m s trace q m' s' ∧
      (∀ e, q = .error e → r = .error e) ∧
      ∀ stream, q = .ok stream →
        (∃ text found, ⟨.query text, .ok found⟩ ∈ trace ∧ RowStream.ofSolutions t.schema model found = .ok stream) ∧
        (r = .ok none ↔ stream.solutions = []) ∧
        (∀ row, r = .ok (some row) ↔ ∃ rest, stream.toList = .ok row :: rest) ∧
        (∀ e, r = .error e ↔ ∃ rest, stream.toList = .error e :: rest) ∧
        (∀ e, r = .error e → stream.collect = .error e) ∧
        (∀ row, stream.collect = .ok [row] ↔ r = .ok (some row) ∧ stream.solutions.length = 1) ∧
        ∀ row one two rest i, r = .ok (some row) → stream.solutions = one :: two :: rest →
          RowStream.itemOf stream.model one = .ok i → RowStream.itemOf stream.model two = .ok i →
          stream.collect = .error (RowStream.repeated stream.model i) := by
  refine ensures_of_goes fun trace r m' s' hgoes => ?_
  rw [row?_eq, goes_bind] at hgoes
  rw [List.nil_append]
  rcases hgoes with ⟨stream, m₁, s₁, exchanged, rest, hrows, hrest, rfl⟩ | ⟨e, hrows, rfl⟩
  · obtain ⟨rfl, rfl, rfl, rfl⟩ := goes_ofExcept.1 hrest
    rw [List.append_nil]
    refine ⟨.ok stream, hrows, nofun, ?_⟩
    rintro _ ⟨⟩
    refine ⟨(t.rows_noted model (rowQuery id) m s []).goes hrows stream rfl, ?_, fun _ => RowStream.first_eq_some,
      fun _ => RowStream.first_eq_error, fun _ => RowStream.collect_of_error, fun _ => RowStream.collect_eq_single,
      fun _ _ _ _ _ hrow hs hone htwo => RowStream.collect_repeated hs hone htwo hrow⟩
    rw [RowStream.first_eq_none, ← List.length_eq_zero_iff, RowStream.length_toList, List.length_eq_zero_iff]
  · refine ⟨.error e, hrows, ?_, nofun⟩
    rintro _ ⟨⟩
    rfl

section Scripted

def namedTables : Tables :=
  personTables [⟨"name", .text, false, false⟩]

def namedSolution (id name : String) : Json :=
  .ofEntries [("item", .ofEntries [("type", .string "uri"), ("value", .string ("https://wiki.test/entity/" ++ id))]),
    ("f_name", .ofEntries [("type", .string "literal"), ("value", .string name)])]

def namedTwice : Conversation :=
  .start [foundReply "Q10" "Person in test", foundReply "P5" "Person.name in test",
    answerReply [namedSolution "Q7" "Ada", namedSolution "Q7" "Ada K."]] 0 ""

/-- A person with two names is fetched with the first, while the same answer is refused where all rows are asked for. -/
theorem row?_first_named :
    ((namedTables.row? "Person" "Q7").follow .empty .fresh namedTwice).1 = .ok (some ⟨"Q7", [("name", .text "Ada")]⟩) ∧
      (((RowStream.collect <$> namedTables.rows "Person" (rowQuery "Q7")).follow .empty .fresh namedTwice).1 =
        .ok (.error (RowStream.repeated "Person" ⟨7⟩))) :=
  ⟨by decide +kernel, by decide +kernel⟩

end Scripted

end Tables

end ClaimTables
