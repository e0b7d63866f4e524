import ClaimTables.Proofs.Exchange.Fails
import ClaimTables.Query.Outline
import ClaimTables.Row.Validation

/-!
What the schema refuses, of paths, queries and rows, it refuses by itself: the error says nothing of a write.
-/

namespace ClaimTables

def Error.OfSchema : Error → Prop
  | .configuration _ | .unknownModel _ | .unmappedField _ _ | .unsupportedQuery _ _ _ | .invalidValue _ _ _ => True
  | _ => False

def Error.IsSingle : Error → Prop
  | .partialWrite _ _ _ | .partialBatch _ _ _ => False
  | _ => True

theorem Error.OfSchema.isSingle {e : Error} (h : e.OfSchema) : e.IsSingle := by
  cases e <;> trivial

theorem ofSchema_climb (s : Schema) (fuel : Nat) (chain : List Model) (name : String) :
    FailsAs Error.OfSchema (s.climb fuel chain name) := by
  induction fuel generalizing chain name with
  | zero => exact failsAs_error trivial
  | succ fuel ih =>
    unfold Schema.climb
    cases hmodel : s.model name with
    | error e =>
      simp only [Schema.model] at hmodel
      split at hmodel
      · cases hmodel
      · cases hmodel
        exact failsAs_error trivial
    | ok m =>
      dsimp only
      split
      · exact failsAs_error trivial
      · split
        · exact failsAs_ok _
        · exact ih _ _

theorem ofSchema_fields (s : Schema) (model : String) : FailsAs Error.OfSchema (s.fields model) :=
  (ofSchema_climb s _ _ model).map _

theorem ofSchema_field (s : Schema) (model name : String) : FailsAs Error.OfSchema (s.field model name) := by
  refine (ofSchema_fields s model).bind fun fields => ?_
  split
  · exact failsAs_ok _
  · exact failsAs_error trivial

theorem ofSchema_follow (s : Schema) (model path : String) (current : String) (segments : List String) :
    FailsAs Error.OfSchema (Path.follow s model path current segments).ending := by
  induction segments generalizing current with
  | nil => exact failsAs_error trivial
  | cons segment rest ih =>
    unfold Path.follow
    split
    · exact failsAs_ok _
    · have hfield := ofSchema_field s current segment
      cases hf : s.field current segment with
      | error e => exact failsAs_error (hfield e hf)
      | ok f =>
        dsimp only
        split
        · exact failsAs_ok _
        · split
          · exact failsAs_error trivial
          · exact ih _

theorem ofSchema_reached (s : Schema) (model path : String) :
    FailsAs Error.OfSchema (Path.walk s model path).reached := by
  refine FailsAs.map ?_ _
  unfold Path.walk
  split
  · exact failsAs_ok _
  · split
    · exact failsAs_error trivial
    · exact ofSchema_follow s model path model _

theorem failsAs_test {E : Error → Prop} {refuse : String → Error} (hrefuse : ∀ why, E (refuse why)) (target : Target)
    (c : Condition) : FailsAs E (c.test refuse target) := by
  have hmap {α ε : Type} (r : Except ε α) (why : ε → String) : FailsAs E (r.mapError fun f => refuse (why f)) := by
    cases r with
    | ok a => exact failsAs_ok a
    | error f => exact failsAs_error (hrefuse _)
  have hterm : ∀ v, FailsAs E (Condition.term refuse target v) := by
    intro v
    cases target with
    | row => cases v <;> first | exact hmap _ _ | exact failsAs_error (hrefuse _)
    | field type =>
      unfold Condition.term
      dsimp only
      split
      · exact failsAs_error (hrefuse _)
      · exact hmap _ _
  unfold Condition.test
  split
  · split
    · exact failsAs_error (hrefuse _)
    · exact (hterm _).map _
  · exact failsAs_ok _
  · exact (FailsAs.mapM hterm _).map _
  · split
    · exact failsAs_error (hrefuse _)
    · exact failsAs_ok _

theorem ofSchema_outline (s : Schema) (model : String) (fields : List ResolvedField) (q : Query) (counting : Bool) :
    FailsAs Error.OfSchema (q.outline s model fields counting) := by
  have hfilter : ∀ f, FailsAs Error.OfSchema (Filter.read s model f) := fun f =>
    (ofSchema_reached s model f.path).bind fun reached =>
      (failsAs_test (fun _ => trivial) reached.target f.condition).bind
        fun test => failsAs_ok _
  have hsort : ∀ k, FailsAs Error.OfSchema (SortKey.read s model k) := fun k =>
    (ofSchema_reached s model k.path).map _
  exact (FailsAs.mapM hfilter _).bind fun filters => (FailsAs.mapM hsort _).bind fun order => failsAs_ok _

theorem ofSchema_check (model : String) (f : ResolvedField) (v : Value) :
    FailsAs Error.OfSchema (Values.check model f v) := by
  unfold Values.check
  dsimp only
  split
  · split
    · exact failsAs_ok _
    · exact failsAs_error trivial
  · split
    · exact failsAs_error trivial
    · split
      · exact failsAs_ok _
      · exact failsAs_error trivial

theorem ofSchema_checkFields (model : String) (values : Values) (creating : Bool) (fields : List ResolvedField) :
    FailsAs Error.OfSchema (values.checkFields model creating fields) := by
  induction fields with
  | nil => exact failsAs_ok _
  | cons f rest ih =>
    unfold Values.checkFields
    split
    · split
      · exact failsAs_error trivial
      · exact ih
    · split
      · next e hv => exact failsAs_error (ofSchema_check model f _ e hv)
      · exact ih.map _

theorem ofSchema_validate (s : Schema) (model : String) (values : Values) (creating : Bool) :
    FailsAs Error.OfSchema (values.validate s model creating) := by
  unfold Values.validate
  split
  · next e hmodel => exact failsAs_error (ofSchema_fields s model e hmodel)
  · split
    · exact failsAs_error trivial
    · exact ofSchema_checkFields model values creating _

namespace CheckedValues

theorem ofSchema_mark (model : String) (index : Nat) (seen : List Mark) (row : CheckedValues) :
    FailsAs Error.OfSchema (mark model index seen row) := by
  induction row generalizing seen with
  | nil => exact failsAs_ok _
  | cons e rest ih =>
    unfold mark
    split
    · exact failsAs_error trivial
    · exact ih _

theorem ofSchema_checkBatch (model : String) (rows : List CheckedValues) :
    FailsAs Error.OfSchema (checkBatch model rows) := by
  have hall (index : Nat) (seen : List Mark) : FailsAs Error.OfSchema (markAll model index seen rows) := by
    induction rows generalizing index seen with
    | nil => exact failsAs_ok _
    | cons row rest ih =>
      unfold markAll
      split
      · next e he => exact failsAs_error (ofSchema_mark model index seen _ e he)
      · exact ih _ _
  exact hall 0 []

end CheckedValues

end ClaimTables
