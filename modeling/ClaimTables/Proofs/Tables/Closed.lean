import ClaimTables.Proofs.Query.Outline
import ClaimTables.Proofs.Row.Refusals
import ClaimTables.Tables.Writing

/-!
What holds of all that is done before a row is written. The tables find properties and the items of models and ask the
query service; all else puts these together, and refuses what must be refused.
-/

namespace ClaimTables.Tables

open Tables.Action

/--
A property of actions that is closed under putting them together: it holds of results, of what the schema refuses, of one
action after another, and of whatever finds a property or the item of a model.
-/
structure Resolving (t : Tables) (C : {α : Type} → Action α → Prop) : Prop where
  of_pure {α : Type} (a : α) : C (pure a : Action α)
  of_throw {α : Type} {e : Error} (he : e.OfSchema) : C (throw e : Action α)
  bind {α β : Type} {x : Action α} {f : α → Action β} (hx : C x) (hf : ∀ a, C (f a)) : C (x >>= f)
  property (f : ResolvedField) (hf : t.schema.Effective f) : C (t.propertyOf f)
  type (m : Model) (hm : m ∈ t.schema.models) (parent : Option ItemId) : C (t.typeBelow m.name parent)

/-- Such a property that holds of all refusals, and of what asks the query service. -/
structure Closed (t : Tables) (C : {α : Type} → Action α → Prop) : Prop extends Resolving t C where
  of_refusal {α : Type} {e : Error} (he : e.IsSingle) : C (throw e : Action α)
  query (text : String) : C (ofClient (t.client.query text))

theorem ofSchema_valueStatement (model : String) (f : ResolvedField) (p : PropertyId) (v : Value) :
    FailsAs Error.OfSchema (valueStatement model f p v) := by
  unfold valueStatement
  split
  · exact failsAs_ok _
  · exact failsAs_error trivial

namespace Resolving

variable {t : Tables} {C : {α : Type} → Action α → Prop} {α β : Type} {x : Action α} (h : t.Resolving C)

include h

theorem map (hx : C x) (g : α → β) : C (g <$> x) := by
  rw [map_eq_pure_bind]
  exact h.bind hx fun a => h.of_pure (g a)

theorem except_bind {r : Except Error α} {f : α → Action β} (hr : FailsAs Error.OfSchema r)
    (hf : ∀ a, r = .ok a → C (f a)) : C (Action.ofExcept r >>= f) := by
  cases r with
  | ok a => exact hf a rfl
  | error e => exact h.of_throw (hr e rfl)

theorem propertiesOf {fields : List ResolvedField} (hfields : ∀ f ∈ fields, t.schema.Effective f) :
    C (t.propertiesOf fields) := by
  induction fields with
  | nil => exact h.of_pure _
  | cons f rest ih =>
    rw [List.forall_mem_cons] at hfields
    exact h.bind (h.property f hfields.1) fun p => h.bind (ih hfields.2) fun ps => h.of_pure _

theorem changesOf {values : CheckedValues} (hvalues : ∀ e ∈ values, t.schema.Effective e.1) : C (t.changesOf values) := by
  induction values with
  | nil => exact h.of_pure _
  | cons e rest ih =>
    rw [List.forall_mem_cons] at hvalues
    exact h.bind (h.property e.1 hvalues.1) fun p => h.bind (ih hvalues.2) fun changes => h.of_pure _

theorem valueStatements (model : String) {values : CheckedValues} (hvalues : ∀ e ∈ values, t.schema.Effective e.1) :
    C (t.valueStatements model values) := by
  induction values with
  | nil => exact h.of_pure _
  | cons e rest ih =>
    obtain ⟨f, v⟩ := e
    rw [List.forall_mem_cons] at hvalues
    rw [Tables.valueStatements]
    split
    · exact ih hvalues.2
    · refine h.bind (h.property f hvalues.1) fun p => ?_
      refine h.except_bind (ofSchema_valueStatement model f p v) fun statement _ => ?_
      exact h.bind (ih hvalues.2) fun statements => h.of_pure _

theorem typeAlong {chain : List Model} (hchain : ∀ m ∈ chain, m ∈ t.schema.models) (parent : Option ItemId) :
    C (t.typeAlong parent chain) := by
  induction chain generalizing parent with
  | nil => exact h.of_pure _
  | cons m rest ih =>
    rw [List.forall_mem_cons] at hchain
    exact h.bind (h.type m hchain.1 parent) fun i => ih hchain.2 (some i)

theorem typeItem (model : String) : C (t.typeItem model) := by
  refine h.except_bind (ofSchema_climb t.schema _ _ model) fun chain hchain => ?_
  refine h.bind (h.typeAlong (fun m hm => ?_) none) fun found => ?_
  · exact List.mem_of_find?_eq_some (Schema.model_eq_ok (Schema.model_of_mem_ancestry hchain hm)).1
  · split
    · exact h.of_pure _
    · exact h.of_throw trivial

theorem rowTypes (model : String) : C (t.rowTypes model) := by
  have hitems : ∀ models, C (t.typeItems models) := by
    intro models
    induction models with
    | nil => exact h.of_pure _
    | cons model rest ih => exact h.bind (h.typeItem model) fun i => h.bind ih fun is => h.of_pure _
  exact h.bind (hitems _) fun items => h.of_pure _

theorem select (model : String) (q : Query) (counting : Bool) : C (t.select model q counting) := by
  refine h.except_bind (ofSchema_fields t.schema model) fun fields hfields => h.bind (h.typeItem model) fun type => ?_
  refine h.bind (h.propertiesOf fun f hf => Query.effective_of_mentions hfields hf) fun ps => ?_
  exact h.except_bind (ofSchema_outline t.schema model fields q counting) fun outline _ => h.of_pure _

end Resolving

namespace Closed

variable {t : Tables} {C : {α : Type} → Action α → Prop} {α : Type} {x : Action α} (h : t.Closed C)

include h

theorem of_check {c : Prop} [Decidable c] {e : Error} (he : e.IsSingle) (hx : C x) :
    C (if c then (throw e : Action PUnit) >>= fun _ => x else x) := by
  split
  · exact h.bind (h.of_refusal he) fun _ => hx
  · exact hx

theorem holders (f : ResolvedField) (v : Value) : C (t.holders f v) := by
  have htext : C (t.rowsText f.declaredBy (.havingValue f.field.name v)) := h.map (h.select _ _ false) _
  exact h.bind htext fun text => h.map (h.query text) itemsOf

theorem checkUnique (own : Option String) (values : CheckedValues) : C (t.checkUnique own values) := by
  have hholders : ∀ values, C (t.checkHolders own values) := by
    intro values
    induction values with
    | nil => exact h.of_pure _
    | cons e rest ih =>
      obtain ⟨f, v⟩ := e
      refine h.bind (h.holders f v) fun items => ?_
      split
      · exact h.of_refusal trivial
      · exact ih
  exact hholders _

end Closed

end ClaimTables.Tables
