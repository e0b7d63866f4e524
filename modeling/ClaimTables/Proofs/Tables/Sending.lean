import ClaimTables.Proofs.Client.Sending
import ClaimTables.Proofs.Tables.Closed

/-!
Which requests the tables send to find their way about the store: they look labels up, make the properties and items
that are missing, and ask the query service. None of these changes a claim of an entity that is there.
-/

namespace ClaimTables.Tables

open Tables.Action

inductive Resolves : Request → Prop
  | session {r : Request} (h : Client.OpensSession r) : Resolves r
  | search (c : Client) (label : String) (kind : EntityKind) : Resolves (.get (c.searchParameters label kind))
  | make (token : Token) (kind : EntityKind) (data : Json) :
    Resolves (.post (Client.signed token (Client.createEntityParameters kind data)))
  | query (text : String) : Resolves (.query text)

theorem sends_lookUpProperty (t : Tables) (f : ResolvedField) : (t.lookUpProperty f).Sends Resolves := by
  refine sends_mappings.bind fun known => ?_
  split
  · exact sends_pure _
  · refine (sends_ofClient ?_).bind fun p => (sends_update _).bind fun _ => sends_pure _
    exact Client.sends_property t.client (fun _ => .session) (.search _ _ _) fun _ => .make _ _ _

theorem sends_own (p : PropertyId) (key : FieldKey) : (own p key).Sends Resolves := by
  refine sends_mappings.bind fun known => ?_
  split
  · exact sends_update _
  · split
    · exact sends_throw _
    · exact sends_pure _

theorem sends_propertyOf (t : Tables) (f : ResolvedField) : (t.propertyOf f).Sends Resolves :=
  (t.sends_lookUpProperty f).bind fun p => (sends_own p f.key).bind fun _ => sends_pure p

theorem sends_findOrCreateType {P : Request → Prop} (t : Tables) {model : String} {parent : Option ItemId}
    (hsession : ∀ r, Client.OpensSession r → P r)
    (hsearch : P (.get (t.client.searchParameters (t.space.typeLabel model) .item)))
    (hmake : ∀ token, P (.post (Client.signed token (Client.createEntityParameters .item
      (t.client.itemData (t.space.typeLabel model) (t.typeStatements parent)))))) :
    (t.findOrCreateType model parent).Sends P := by
  refine (Client.sends_findItem t.client hsearch).bind fun found => ?_
  split
  · exact Client.Action.sends_pure _
  · refine (Client.sends_createEntity t.client hsession hmake).bind fun id => ?_
    exact Client.Action.sends_liftExcept _

theorem sends_typeBelow (t : Tables) (model : String) (parent : Option ItemId) :
    (t.typeBelow model parent).Sends Resolves := by
  refine sends_mappings.bind fun known => ?_
  split
  · exact sends_pure _
  · refine (sends_ofClient ?_).bind fun i => (sends_update _).bind fun _ => sends_pure _
    exact t.sends_findOrCreateType (fun _ => .session) (.search _ _ _) fun _ => .make _ _ _

theorem closed_sends (t : Tables) : t.Closed (Sends Resolves) where
  of_pure := sends_pure
  of_throw _ := sends_throw _
  bind := Sends.bind
  property f _ := t.sends_propertyOf f
  type m _ parent := t.sends_typeBelow m.name parent
  of_refusal _ := sends_throw _
  query text := sends_ofClient (Client.sends_query t.client (.query text))

theorem closed_gains {W : Type} (t : Tables) (world : World W) :
    t.Closed fun x => ∀ m s w, x.Gains world m s w fun _ _ => True where
  of_pure _ _ _ _ := .of_pure trivial
  of_throw _ _ _ _ := .of_throw _ _
  bind hx hf m s w := (hx m s w).bind fun a m' s' w' _ _ => hf a m' s' w'
  property f _ _ _ _ := (t.gains_propertyOf f).mono fun _ _ _ _ => trivial
  type m _ parent _ _ _ := (t.gains_typeBelow m.name parent).mono fun _ _ _ _ => trivial
  of_refusal _ _ _ _ := .of_throw _ _
  query _ _ _ _ := .mono (.of_client _) fun _ _ _ _ => trivial

end ClaimTables.Tables
