import ClaimTables.Error
import ClaimTables.Row
import ClaimTables.Schema
import ClaimTables.Sparql.Select
import ClaimTables.Sparql.Solutions

/-!
Rows made of the solutions of a query, one for each solution and in their order. A solution that makes no
row gives an error in its place, and the next one is looked at all the same.
-/

namespace ClaimTables

open Sparql (Variable Binding Solution Solutions)

structure RowStream where
  model : String
  fields : List Field
  solutions : List Solution
  seen : List ItemId

namespace RowStream

def ofSolutions (s : Schema) (model : String) (answer : Solutions) : Except Error RowStream :=
  (s.fields model).map fun fields => ⟨model, fields.map (·.field), answer.solutions, []⟩

def cell (f : Field) (solution : Solution) : Except String Value :=
  match solution.lookup (Variable.field f.name).name with
  | some b =>
    match b.decode? f.type with
    | some v => .ok v
    | none => .error (f.name ++ ": " ++ b.undecodable f.type)
  | none => if f.nullable then .ok .null else .error ("required field " ++ f.name ++ " has no value")

def cells (solution : Solution) : List Field → Except String (List (String × Value))
  | [] => .ok []
  | f :: rest =>
    match cell f solution with
    | .error reason => .error reason
    | .ok v => (cells solution rest).map ((f.name, v) :: ·)

def itemOf (model : String) (solution : Solution) : Except Error ItemId :=
  match solution.lookup Variable.item.name with
  | none => .error (.inconsistentData model none "solution without an entity")
  | some b =>
    match ItemId.ofIri? b.value with
    | some i => .ok i
    | none => .error (.inconsistentData model none (b.value ++ " is not an item IRI"))

def rowOf (r : RowStream) (solution : Solution) (item : ItemId) : Except Error Row :=
  if r.seen.contains item then
    .error (.inconsistentData r.model (some item.text)
      "entity returned more than once; some field holds several claims")
  else match cells solution r.fields with
    | .error reason => .error (.inconsistentData r.model (some item.text) reason)
    | .ok values => .ok ⟨item.text, values⟩

def next? (r : RowStream) : Option (Except Error Row × RowStream) :=
  match r.solutions with
  | [] => none
  | solution :: rest =>
    match itemOf r.model solution with
    | .error e => some (.error e, { r with solutions := rest })
    | .ok item => some (r.rowOf solution item, { r with solutions := rest, seen := item :: r.seen })

theorem length_of_next? {r later : RowStream} {row : Except Error Row} (h : r.next? = some (row, later)) :
    later.solutions.length + 1 = r.solutions.length := by
  unfold next? at h
  split at h
  · simp at h
  · next solution rest hs =>
    split at h <;> simp only [Option.some.injEq, Prod.mk.injEq] at h <;> obtain ⟨_, rfl⟩ := h <;> simp [hs]

def take : (count : Nat) → RowStream → List (Except Error Row)
  | 0, _ => []
  | count + 1, r =>
    match r.next? with
    | none => []
    | some (row, later) => row :: take count later

def toList (r : RowStream) : List (Except Error Row) :=
  r.take r.solutions.length

def collect (r : RowStream) : Except Error (List Row) :=
  r.toList.mapM id

end RowStream

end ClaimTables
