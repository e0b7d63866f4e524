import ClaimTables.Proofs.Client.Fails
import ClaimTables.Proofs.Tables.Guard

/-!
With which errors the tables fail before anything is written. None of them says that a write went half way, unless a
request itself failed with such an error.
-/

namespace ClaimTables

theorem Error.OfStore.isSingle {e : Error} (h : e.OfStore) : e.IsSingle := by
  cases e <;> trivial

namespace Tables

open Tables.Action

variable {E : Error → Prop} {t : Tables}

section Store

variable (hE : ∀ e, e.OfStore → E e)

include hE

theorem fails_propertyOf (f : ResolvedField) : (t.propertyOf f).Fails E := by
  have hlookUp : (t.lookUpProperty f).Fails E := by
    refine fails_mappings.bind fun known => ?_
    split
    · exact fails_pure _
    · refine (fails_ofClient (Client.fails_property hE _ _ _ _)).bind fun p => ?_
      exact (fails_update _).bind fun _ => fails_pure _
  have hown : ∀ p, (own p f.key).Fails E := by
    refine fun p => fails_mappings.bind fun known => ?_
    split
    · exact fails_update _
    · split
      · exact fails_throw (hE _ trivial)
      · exact fails_pure _
  exact hlookUp.bind fun p => (hown p).bind fun _ => fails_pure p

theorem fails_typeBelow (model : String) (parent : Option ItemId) : (t.typeBelow model parent).Fails E := by
  have hitem : ∀ id, FailsAs E (Client.readItem model id) := by
    intro id
    unfold Client.readItem
    split
    · exact failsAs_ok _
    · exact failsAs_error (hE _ trivial)
  have hfindOrCreate : (t.findOrCreateType model parent).Fails E := by
    refine (Client.fails_findItem hE _ _ _).bind fun found => ?_
    split
    · exact Client.Action.fails_pure _
    · exact (Client.fails_createEntity hE _ _ _).bind fun id => Client.Action.fails_liftExcept (hitem id)
  refine fails_mappings.bind fun known => ?_
  split
  · exact fails_pure _
  · exact (fails_ofClient hfindOrCreate).bind fun i => (fails_update _).bind fun _ => fails_pure _

theorem resolving_fails (hschema : ∀ e, e.OfSchema → E e) : t.Resolving (Fails E) where
  of_pure := fails_pure
  of_throw he := fails_throw (hschema _ he)
  bind := .bind
  property f _ := fails_propertyOf hE f
  type m _ parent := fails_typeBelow hE m.name parent

end Store

variable (hE : ∀ e, e.IsSingle → E e)

include hE

theorem closed_fails : t.Closed (Fails E) where
  toResolving := resolving_fails (fun e he => hE e he.isSingle) fun e he => hE e he.isSingle
  of_refusal he := fails_throw (hE _ he)
  query text := fails_ofClient (Client.fails_query t.client text)

theorem fails_ownedClaims (model id : String) : (t.ownedClaims model id).Fails E := by
  rw [ownedClaims_eq]
  have hread := Client.fails_getClaims (fun e he => hE e (Error.OfStore.isSingle he)) t.client id
  exact (fails_ofClient hread).bind fun found => (closed_fails hE).checkOwned model id found

theorem fails_changesFor (model id : String) (values : Values) : (t.changesFor model id values).Fails E := by
  have hclosed := closed_fails (t := t) hE
  refine hclosed.except_bind (ofSchema_validate t.schema model values false) fun checked hvalid => ?_
  refine (fails_ownedClaims hE model id).bind fun claims => (hclosed.checkUnique (some id) checked).bind fun _ => ?_
  exact (hclosed.changesOf (Values.effective_of_validate hvalid)).bind fun changes => fails_pure _

end Tables

end ClaimTables
