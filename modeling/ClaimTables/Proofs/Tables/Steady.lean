import ClaimTables.Proofs.Client.Logins
import ClaimTables.Proofs.Row.Checked
import ClaimTables.Proofs.Tables.Guard

/-!
Conditions on what is known and on the world that tables keep. If finding the property of a field, finding the item of
a model and asking the query service keep a condition, then so does all that is done before a row is written.
-/

namespace ClaimTables.Tables

open Tables.Action

variable {α β W : Type} {world : World W} {I : Mappings → W → Prop}

/--
That an action keeps a condition on what is known and on the world, whatever comes of it, and that its result satisfies
a condition if it gives one.
-/
def Action.Maintains (world : World W) (I : Mappings → W → Prop) (x : Action α) (post : α → Prop) : Prop :=
  ∀ m s w, I m w → x.Ensures world m s w fun r m' _ w' => I m' w' ∧ ∀ a, r = .ok a → post a

namespace Action.Maintains

variable {x : Action α} {f : α → Action β} {mid : α → Prop} {post : β → Prop}

theorem bind (hx : x.Maintains world I mid) (hf : ∀ a, mid a → (f a).Maintains world I post) :
    (x >>= f).Maintains world I post := by
  intro m s w hw
  exact (hx m s w hw).bind (fun a m' s' w' h => hf a (h.2 a rfl) m' s' w' h.1) fun e _ _ _ h => ⟨h.1, by simp⟩

theorem mono {post' : α → Prop} {post : α → Prop} (hx : x.Maintains world I post) (hpost : ∀ a, post a → post' a) :
    x.Maintains world I post' :=
  fun m s w hw => (hx m s w hw).mono fun _ _ _ _ h => ⟨h.1, fun a ha => hpost a (h.2 a ha)⟩

theorem of_pure {a : α} {post : α → Prop} (h : post a) : (pure a : Action α).Maintains world I post :=
  fun _ _ _ hw => ⟨hw, fun _ ha => Except.ok.inj ha ▸ h⟩

theorem of_throw (e : Error) (post : α → Prop) : (throw e : Action α).Maintains world I post :=
  fun _ _ _ hw => ⟨hw, by simp⟩

theorem of_except (r : Except Error α) : (ofExcept r).Maintains world I fun a => r = .ok a :=
  fun _ _ _ hw => ensures_ofExcept.2 ⟨hw, fun _ ha => ha⟩

theorem of_check {c : Prop} [Decidable c] {e : Error} {post : α → Prop} (hx : x.Maintains world I post) :
    Maintains world I (if c then (throw e : Action PUnit) >>= fun _ => x else x) post := by
  split
  · exact (of_throw e fun _ => True).bind fun _ _ => hx
  · exact hx

theorem of_mappings {f : Mappings → Action α} {post : α → Prop} (h : ∀ m s w, I m w →
    (f m).Ensures world m s w fun r m' _ w' => I m' w' ∧ ∀ a, r = .ok a → post a) :
    (mappings >>= f).Maintains world I post :=
  fun m s w hw => ensures_bind.2 (h m s w hw)

theorem of_outcome {post : α → Prop} (hx : x.Maintains world I post) :
    x.outcome.Maintains world I fun r => ∀ a, r = .ok a → post a :=
  fun m s w hw => ensures_outcome.2 ((hx m s w hw).mono fun _ _ _ _ h => ⟨h.1, fun _ hr => Except.ok.inj hr ▸ h.2⟩)

theorem of_keeps {y : Client.Action α} (h : ∀ m, Client.Keeps world (I m) y) :
    (ofClient y).Maintains world I fun _ => True :=
  fun m s w hw => ensures_ofClient.2 ((h m s w hw).mono fun _ _ _ hw' => ⟨hw', fun _ _ => trivial⟩)

end Action.Maintains

open Tables.Action.Maintains

/-- A condition that is kept by whatever finds a property or the item of a model, and by asking the query service. -/
structure Steady (t : Tables) (world : World W) (I : Mappings → W → Prop) : Prop where
  property : ∀ f, t.schema.Effective f → (t.lookUpProperty f).Maintains world I fun _ => True
  owner : ∀ m w p k, m.owners.lookup p = none → I m w → I { m with owners := (p, k) :: m.owners } w
  type : ∀ m ∈ t.schema.models, ∀ parent, (t.typeBelow m.name parent).Maintains world I fun _ => True
  query : ∀ text m, Client.Keeps world (I m) (t.client.query text)

/-- A condition on the world alone is kept if finding properties and the items of models in the store keeps it. -/
theorem steady_of_keeps {t : Tables} {J : W → Prop}
    (hproperty : ∀ f : ResolvedField, Client.Keeps world J
      (t.client.property (t.space.propertyLabel f.key.model f.key.field) f.field.type.datatype f.key.model))
    (htype : ∀ m ∈ t.schema.models, ∀ parent, Client.Keeps world J (t.findOrCreateType m.name parent))
    (hquery : ∀ text, Client.Keeps world J (t.client.query text)) : t.Steady world fun _ w => J w where
  property f _ := by
    refine of_mappings fun m s w hw => ?_
    split
    · exact ⟨hw, fun _ _ => trivial⟩
    · refine (of_keeps fun _ => hproperty f).bind (fun p _ => ?_) m s w hw
      exact fun _ _ _ hw => ⟨hw, fun _ _ => trivial⟩
  owner _ _ _ _ _ hw := hw
  type m hm parent := by
    refine of_mappings fun known s w hw => ?_
    split
    · exact ⟨hw, fun _ _ => trivial⟩
    · refine (of_keeps fun _ => htype m hm parent).bind (fun i _ => ?_) known s w hw
      exact fun _ _ _ hw => ⟨hw, fun _ _ => trivial⟩
  query text _ := hquery text

namespace Steady

variable {t : Tables} (h : t.Steady world I)

include h

theorem own (p : PropertyId) (k : FieldKey) : (Tables.own p k).Maintains world I fun _ => True := by
  refine of_mappings fun m s w hw => ?_
  split
  · next hnone => exact ⟨h.owner _ _ _ _ hnone hw, fun _ _ => trivial⟩
  · split
    · exact of_throw _ _ _ s _ hw
    · exact of_pure trivial _ s _ hw

theorem closed : t.Closed fun x => x.Maintains world I fun _ => True where
  of_pure _ := .of_pure trivial
  of_throw _ := .of_throw _ _
  bind hx hf := hx.bind fun a _ => hf a
  property f hf := (h.property f hf).bind fun p _ => (h.own p f.key).bind fun _ _ => .of_pure trivial
  type := h.type
  of_refusal _ := .of_throw _ _
  query text := .of_keeps (h.query text)

theorem prepare (model : String) (values : Values) :
    (t.prepare model values).Maintains world I fun checked => values.validate t.schema model true = .ok checked := by
  refine (of_except _).bind fun checked hchecked => ?_
  exact (h.closed.checkUnique none checked).bind fun _ _ => .of_pure hchecked

theorem prepareAll (model : String) (rows : List Values) :
    (t.prepareAll model rows).Maintains world I fun prepared =>
      ∀ checked ∈ prepared, ∃ values : Values, values.validate t.schema model true = .ok checked := by
  induction rows with
  | nil => exact .of_pure fun _ h => absurd h List.not_mem_nil
  | cons values rest ih =>
    refine (h.prepare model values).bind fun checked hvalid => ?_
    exact ih.bind fun more hmore => .of_pure (List.forall_mem_cons.2 ⟨⟨values, hvalid⟩, hmore⟩)

theorem changesFor (model id : String) (values : Values)
    (hread : ∀ m, Client.Keeps world (I m) (t.client.getClaims id)) :
    (t.changesFor model id values).Maintains world I fun _ => True := by
  refine (of_except _).bind fun checked hvalid => ?_
  rw [ownedClaims_eq, bind_assoc]
  refine (of_keeps hread).bind fun found _ => (h.closed.checkOwned model id found).bind fun claims _ => ?_
  refine (h.closed.checkUnique (some id) checked).bind fun _ _ => ?_
  exact (h.closed.changesOf (Values.effective_of_validate hvalid)).bind fun changes _ => .of_pure trivial

/-! Making rows of a model keeps a condition if inserting checked values does. -/

variable {model : String} (hinsert : ∀ {values : Values} {checked : CheckedValues},
  values.validate t.schema model true = .ok checked → (t.insert model checked).Maintains world I fun _ => True)

include hinsert

theorem create (values : Values) : (t.create model values).Maintains world I fun _ => True :=
  (h.prepare model values).bind fun _ hvalid => hinsert hvalid

omit h in
theorem insertAll {rows : List CheckedValues}
    (hrows : ∀ checked ∈ rows, ∃ values : Values, values.validate t.schema model true = .ok checked)
    (created : List String) : (t.insertAll model created rows).Maintains world I fun _ => True := by
  induction rows generalizing created with
  | nil => exact .of_pure trivial
  | cons checked rest ih =>
    obtain ⟨⟨values, hvalid⟩, hrest⟩ := List.forall_mem_cons.1 hrows
    refine (hinsert hvalid).of_outcome.bind fun r _ => ?_
    cases r with
    | ok id => exact ih hrest _
    | error e => exact .of_throw _ _

theorem createMany (rows : List Values) : (t.createMany model rows).Maintains world I fun _ => True := by
  refine (h.prepareAll model rows).bind fun prepared hprepared => (of_except _).bind fun _ _ => ?_
  exact insertAll hinsert hprepared []

theorem createWithKey (values : Values) (key : String) :
    (t.createWithKey model values key).Maintains world I fun _ => True := by
  refine (of_except _).bind fun found _ => (h.closed.holders _ _).bind fun items _ => ?_
  split
  · exact .of_pure trivial
  · exact (h.create hinsert values).bind fun id _ => .of_pure trivial

end Steady

end ClaimTables.Tables
