import ClaimTables.Proofs.Client.Storing
import ClaimTables.Proofs.Row.Created
import ClaimTables.Proofs.Tables.Labels
import ClaimTables.Proofs.Tables.Steady

/-!
What tables bring about in a store besides rows. Looking for properties and for the items of models, and for rows
that hold a value, makes at most properties and items of models; what is known of properties stays true.
-/

namespace ClaimTables

open Store

namespace Tables

variable {α β : Type} {t : Tables} {registered : String → PropertyId} {I : Store → Prop}

def fieldProperty (t : Tables) (registered : String → PropertyId) (k : FieldKey) : PropertyId :=
  registered (t.space.propertyLabel k.model k.field)

def Knows (t : Tables) (registered : String → PropertyId) (m : Mappings) : Prop :=
  ∀ k p, m.fields.lookup k = some p → t.fieldProperty registered k = p

/-- A condition on the store that properties and the items of models do not disturb when they are made. -/
structure Quiet (t : Tables) (registered : String → PropertyId) (I : Store → Prop) : Prop where
  wellKept : ∀ w, I w → w.WellKept
  made : ∀ kind data id w w', I w → Made registered kind data id w w' → w'.WellKept →
    (kind = "property" ∨ ∃ model, Schema.isIdentifier model = true ∧
      data.get "labels" = Claim.labels t.client.language (t.space.typeLabel model)) → I w'

/--
That an action keeps a condition on the store, and what is known of properties true, whatever comes of it, and
that its result satisfies a condition if it gives one.
-/
def Leaves (t : Tables) (registered : String → PropertyId) (I : Store → Prop) (x : Action α) (post : α → Prop) :
    Prop :=
  ∀ m s w, t.Knows registered m → I w → x.Ensures (.storing registered) m s w fun r m' _ w' =>
    t.Knows registered m' ∧ I w' ∧ ∀ a, r = .ok a → post a

namespace Leaves

theorem bind {x : Action α} {f : α → Action β} {mid : α → Prop} {post : β → Prop} (hx : t.Leaves registered I x mid)
    (hf : ∀ a, mid a → t.Leaves registered I (f a) post) : t.Leaves registered I (x >>= f) post := by
  intro m s w hm hw
  refine (hx m s w hm hw).bind (fun a m' s' w' h => ?_) fun e m' s' w' h => ⟨h.1, h.2.1, by simp⟩
  exact hf a (h.2.2 a rfl) m' s' w' h.1 h.2.1

theorem mono {x : Action α} {P Q : α → Prop} (hx : t.Leaves registered I x P) (h : ∀ a, P a → Q a) :
    t.Leaves registered I x Q :=
  fun m s w hm hw => (hx m s w hm hw).mono fun _ _ _ _ h' => ⟨h'.1, h'.2.1, fun a ha => h a (h'.2.2 a ha)⟩

theorem of_pure {a : α} {post : α → Prop} (h : post a) : t.Leaves registered I (pure a) post :=
  fun _ _ _ hm hw => ⟨hm, hw, fun _ ha => Except.ok.inj ha ▸ h⟩

theorem of_throw (e : Error) (post : α → Prop) : t.Leaves registered I (throw e) post :=
  fun _ _ _ hm hw => ⟨hm, hw, by simp⟩

theorem of_except (r : Except Error α) : t.Leaves registered I (Action.ofExcept r) fun a => r = .ok a :=
  fun _ _ _ hm hw => Action.ensures_ofExcept.2 ⟨hm, hw, fun _ ha => ha⟩

theorem of_mappings : t.Leaves registered I Action.mappings (t.Knows registered) :=
  fun _ _ _ hm hw => ⟨hm, hw, fun _ ha => Except.ok.inj ha ▸ hm⟩

theorem of_update {f : Mappings → Mappings} (h : ∀ m, t.Knows registered m → t.Knows registered (f m)) :
    t.Leaves registered I (Action.update f) fun _ => True :=
  fun m _ _ hm hw => ⟨h m hm, hw, fun _ _ => trivial⟩

theorem of_client {x : Client.Action α} {post : α → Prop}
    (h : ∀ s w, I w → x.Ensures (.storing registered) s w fun r _ w' => I w' ∧ ∀ a, r = .ok a → post a) :
    t.Leaves registered I (Action.ofClient x) post :=
  fun _ s w hm hw => Action.ensures_ofClient.2 ((h s w hw).mono fun _ _ _ h' => ⟨hm, h'.1, h'.2⟩)

theorem of_keeps {x : Client.Action α} (h : Client.Keeps (.storing registered) I x) :
    t.Leaves registered I (Action.ofClient x) fun _ => True :=
  .of_client fun s w hw => (h s w hw).mono fun _ _ _ h' => ⟨h', fun _ _ => trivial⟩

theorem of_freshName : t.Leaves registered I Action.freshName fun _ => True :=
  fun _ _ _ hm hw => Action.ensures_freshName.2 fun _ _ h => ⟨hm, h ▸ hw, fun _ _ => trivial⟩

theorem and_gains {x : Action α} {P : α → Mappings → Prop} {Q : α → Prop} (hx : t.Leaves registered I x fun _ => True)
    (hgains : ∀ m s w, x.Gains (.storing registered) m s w P) (h : ∀ a m, t.Knows registered m → P a m → Q a) :
    t.Leaves registered I x Q := by
  intro m s w hm hw
  refine Dialogue.Ensures.mono (Dialogue.Ensures.and (hx m s w hm hw) (hgains m s w)) fun r w' h' => ?_
  exact ⟨h'.1.1, h'.1.2.1, fun a ha => h a _ h'.1.1 (h'.2.2 a ha)⟩

theorem of_outcome {x : Action α} (h : t.Leaves registered I x fun _ => True) :
    t.Leaves registered I x.outcome fun _ => True :=
  fun m s w hm hw => Action.ensures_outcome.2 ((h m s w hm hw).mono fun _ _ _ _ h' => ⟨h'.1, h'.2.1, fun _ _ => trivial⟩)

theorem iff_maintains {x : Action α} {post : α → Prop} : t.Leaves registered I x post ↔
    x.Maintains (.storing registered) (fun m w => t.Knows registered m ∧ I w) post := by
  constructor
  · exact fun h m s w hw => (h m s w hw.1 hw.2).mono fun _ _ _ _ h' => ⟨⟨h'.1, h'.2.1⟩, h'.2.2⟩
  · exact fun h m s w hm hw => (h m s w ⟨hm, hw⟩).mono fun _ _ _ _ h' => ⟨h'.1.1, h'.1.2, h'.2⟩

end Leaves

theorem leaves_own (p : PropertyId) (k : FieldKey) : t.Leaves registered I (own p k) fun _ => True := by
  refine Leaves.of_mappings.bind fun known _ => ?_
  split
  · exact .of_update fun m hm => hm
  · split
    · exact .of_throw _ _
    · exact .of_pure trivial

variable (hI : t.Quiet registered I)

include hI

theorem leaves_lookUpProperty (f : ResolvedField) :
    t.Leaves registered I (t.lookUpProperty f) fun p => p = t.fieldProperty registered f.key := by
  refine Leaves.of_mappings.bind fun known hknown => ?_
  split
  · next p hp => exact .of_pure (hknown _ _ hp).symm
  · have hfound : t.Leaves registered I (Action.ofClient (t.client.property
        (t.space.propertyLabel f.key.model f.key.field) f.field.type.datatype f.key.model))
        fun p => p = t.fieldProperty registered f.key := by
      refine .of_client fun s w hw => ?_
      refine (Client.property_ensures t.client _ _ _ s (hI.wellKept w hw)).mono fun r s' w' h => ⟨?_, h.2⟩
      rcases h.1 with rfl | ⟨data, id, hmade, hwell⟩
      · exact hw
      · exact hI.made _ data id w w' hw hmade hwell (.inl rfl)
    refine hfound.bind fun p hp => ?_
    refine (Leaves.of_update fun m hm k q hq => ?_).bind fun _ _ => .of_pure hp
    rw [List.lookup_cons] at hq
    split at hq
    · next hk =>
      obtain rfl := beq_iff_eq.1 hk
      exact hp.symm.trans (Option.some.inj hq)
    · exact hm k q hq

theorem leaves_propertyOf (f : ResolvedField) :
    t.Leaves registered I (t.propertyOf f) fun p => p = t.fieldProperty registered f.key :=
  (leaves_lookUpProperty hI f).bind fun p hp => (leaves_own p f.key).bind fun _ _ => .of_pure hp

theorem keeps_findOrCreateType {model : String} (hmodel : Schema.isIdentifier model = true) (parent : Option ItemId) :
    Client.Keeps (.storing registered) I (t.findOrCreateType model parent) := by
  refine (Client.keeps_findItem t.client _ model).bind fun found => ?_
  split
  · exact Client.keeps_pure _
  · refine Client.Keeps.bind (fun s w hw => ?_) fun id => Client.keeps_liftExcept _
    refine (Client.createEntity_ensures t.client .item _ s (hI.wellKept w hw)).mono fun r s' w' h => ?_
    rcases h with ⟨rfl, -⟩ | ⟨id, hmade, hwell, -⟩
    · exact hw
    · refine hI.made _ _ id w w' hw hmade hwell (.inr ⟨model, hmodel, ?_⟩)
      simp [Client.itemData, Json.get_ofEntries, List.lookup_cons]

theorem leaves_typeBelow {model : String} (hmodel : Schema.isIdentifier model = true) (parent : Option ItemId) :
    t.Leaves registered I (t.typeBelow model parent) fun _ => True := by
  refine Leaves.of_mappings.bind fun known _ => ?_
  split
  · exact .of_pure trivial
  · refine (Leaves.of_keeps (keeps_findOrCreateType hI hmodel parent)).bind fun i _ => ?_
    exact (Leaves.of_update fun m hm => hm).bind fun _ _ => .of_pure trivial

variable (hnamed : ∀ m ∈ t.schema.models, Schema.isIdentifier m.name = true)

include hnamed

theorem steady_of_quiet : t.Steady (.storing registered) fun m w => t.Knows registered m ∧ I w where
  property f _ := Leaves.iff_maintains.1 ((leaves_lookUpProperty hI f).mono fun _ _ => trivial)
  owner _ _ _ _ _ hw := hw
  type m hm parent := Leaves.iff_maintains.1 (leaves_typeBelow hI (hnamed m hm) parent)
  query text _ := Client.keeps_query t.client text

theorem leaves_checkUnique (own : Option String) (values : CheckedValues) :
    t.Leaves registered I (t.checkUnique own values) fun _ => True :=
  Leaves.iff_maintains.2 ((steady_of_quiet hI hnamed).closed.checkUnique own values)

theorem leaves_rowData (model : String) {values : CheckedValues} (hvalues : ∀ e ∈ values, t.schema.Effective e.1) :
    t.Leaves registered I (t.rowData model values) fun data => ∃ name type,
      data = t.client.itemData (t.space.rowLabel model name)
        (t.rowStatements type ++ statementsOf (t.fieldProperty registered) values) := by
  have hclosed := (steady_of_quiet hI hnamed).closed
  have hmade : t.Leaves registered I (t.rowData model values) fun _ => True := by
    refine (Leaves.iff_maintains.2 (hclosed.typeItem model)).bind fun type _ => ?_
    refine (Leaves.iff_maintains.2 (hclosed.valueStatements model hvalues)).bind fun _ _ => ?_
    exact Leaves.of_freshName.bind fun name _ => .of_pure trivial
  exact hmade.and_gains (fun m s w => t.gains_rowData model values) fun data m hm h => h _ hm

/-! Where nothing is said of what is known, nothing has to be known. -/

omit hI hnamed

theorem quiet_wellKept (t : Tables) (registered : String → PropertyId) : t.Quiet registered WellKept where
  wellKept _ h := h
  made _ _ _ _ _ _ _ h _ := h

theorem Quiet.steady (hI : t.Quiet registered I) (hnamed : ∀ m ∈ t.schema.models, Schema.isIdentifier m.name = true) :
    t.Steady (.storing registered) fun _ w => I w := by
  refine steady_of_keeps (fun f s w hw => ?_) (fun model hmodel => keeps_findOrCreateType hI (hnamed model hmodel))
    (Client.keeps_query t.client)
  refine (Client.property_ensures t.client _ _ _ s (hI.wellKept w hw)).mono fun r s' w' h => ?_
  rcases h.1 with rfl | ⟨data, id, hmade, hwell⟩
  · exact hw
  · exact hI.made _ data id w w' hw hmade hwell (.inl rfl)

end Tables

end ClaimTables
