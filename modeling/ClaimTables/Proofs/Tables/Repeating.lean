import ClaimTables.Proofs.Client.Answering
import ClaimTables.Proofs.Tables.Runs

/-!
Lookups that are repeated. What was found of properties, of the items of models and of rows that hold a value is found
again, from what is known by then and from the same answers of the query service.
-/

namespace ClaimTables.Tables

open Tables.Action

variable {registered : String → PropertyId} {answers : String → Sparql.Solutions} {P : Request → Prop} {α β W : Type}

/--
That an action which gives a result only asks for it when it is done again, whatever is known besides and whatever has
become of the world.
-/
def Action.Repeats (world : World W) (P : Request → Prop) (x : Action α) : Prop :=
  ∀ m s w, x.Gains world m s w fun a m' => ∀ m'', m'.Within m'' → ∀ v, x.OnlyAsks world P m'' v (· = a)

namespace Action.Repeats

variable {world : World W} {x : Action α} {f : α → Action β}

theorem bind (hx : x.Repeats world P) (hf : ∀ a, (f a).Repeats world P) : (x >>= f).Repeats world P := by
  intro m s w
  refine Gains.bind (hx m s w) fun a m₁ s₁ w₁ _ ha => (hf a m₁ s₁ w₁).mono fun b m₂ hwithin hb m₃ hm₃ v => ?_
  refine (ha m₃ (hwithin.trans hm₃) v).bind ?_
  rintro _ rfl
  exact hb m₃ hm₃ v

theorem of_pure (a : α) : (pure a : Action α).Repeats world P :=
  fun _ _ _ => Gains.of_pure fun _ _ _ => .of_pure rfl

theorem of_throw (e : Error) : (throw e : Action α).Repeats world P :=
  fun _ _ _ => Gains.of_throw e _

theorem of_gives (h : ∀ m s w, x.Gains world m s w fun a m' => ∀ m'', m'.Within m'' → ∀ s, x.Gives m'' s (.ok a)) :
    x.Repeats world P :=
  fun m s w => (h m s w).mono fun _ _ _ ha m'' hm'' _ => .of_gives (ha m'' hm'')

end Action.Repeats

open Tables.Action.Repeats

variable {world : World W} (t : Tables)

theorem repeats_propertyOf (f : ResolvedField) : (t.propertyOf f).Repeats world P :=
  of_gives fun _ _ _ => (t.gains_propertyOf f).mono fun _ _ _ h _ hwithin _ =>
    gives_propertyOf (hwithin.fields _ _ h.1) (hwithin.owners _ _ h.2)

theorem repeats_typeBelow (model : String) (parent : Option ItemId) : (t.typeBelow model parent).Repeats world P := by
  refine of_gives fun _ _ _ => (t.gains_typeBelow model parent).mono fun i _ _ hi m'' hwithin _ => ?_
  refine Gives.of_mappings.bind ?_
  rw [hwithin.types _ _ hi]
  exact .of_pure i

variable (hquery : ∀ text, P (.query text))

include hquery

theorem repeats_query (c : Client) (text : String) : (ofClient (c.query text)).Repeats (.answering registered answers) P := by
  intro m s w
  have hanswer : (c.query text).Ensures (.answering registered answers) s w fun r _ _ =>
      ∀ found, r = .ok found → found = answers text := by
    refine Client.Action.Ensures.mono (Client.request_ensures c ?_ ?_ s w) fun _ _ _ h => h.2
    · exact fun v answer v' h _ => h.1
    · exact fun v milliseconds answer v' h => h
  refine ensures_ofClient.2 (hanswer.mono fun r s' w' h => ⟨.refl m, fun found hfound m'' _ v s trace => ?_⟩)
  obtain rfl := h found hfound
  exact ensures_ofClient.2 ((Client.query_asked c (hquery text)).mono fun _ _ _ h => ⟨rfl, h⟩)

theorem closed_repeats : t.Closed (Repeats (.answering registered answers) P) where
  of_pure := .of_pure
  of_throw _ := .of_throw _
  bind := .bind
  property f _ := t.repeats_propertyOf f
  type m _ parent := t.repeats_typeBelow m.name parent
  of_refusal _ := .of_throw _
  query := repeats_query hquery t.client

end ClaimTables.Tables
