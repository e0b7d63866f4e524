import ClaimTables.Proofs.Exchange.Ensures
import ClaimTables.Tables.Types

/-!
What is known of the store only grows: a property or a model's item that was found once is given again, and
each property stays with its owner.
-/

namespace ClaimTables

structure Mappings.Within (m m' : Mappings) : Prop where
  fields : ∀ k p, m.fields.lookup k = some p → m'.fields.lookup k = some p
  owners : ∀ p k, m.owners.lookup p = some k → m'.owners.lookup p = some k
  types : ∀ n i, m.types.lookup n = some i → m'.types.lookup n = some i

namespace Mappings

theorem Within.refl (m : Mappings) : m.Within m :=
  ⟨fun _ _ h => h, fun _ _ h => h, fun _ _ h => h⟩

theorem Within.trans {m₁ m₂ m₃ : Mappings} (h : m₁.Within m₂) (h' : m₂.Within m₃) : m₁.Within m₃ :=
  ⟨fun k p hk => h'.fields k p (h.fields k p hk), fun p k hp => h'.owners p k (h.owners p k hp),
    fun n i hn => h'.types n i (h.types n i hn)⟩

theorem lookup_cons_of_none {α β : Type} [BEq α] [LawfulBEq α] {entries : List (α × β)} {a b : α} {x y : β}
    (hnone : entries.lookup a = none) (h : entries.lookup b = some y) : ((a, x) :: entries).lookup b = some y := by
  have hne : b ≠ a := by
    rintro rfl
    exact nomatch hnone.symm.trans h
  rw [List.lookup_cons, beq_eq_false_iff_ne.2 hne]
  exact h

theorem within_field {m : Mappings} {k : FieldKey} (h : m.fields.lookup k = none) (p : PropertyId) :
    m.Within { m with fields := (k, p) :: m.fields } :=
  ⟨fun _ _ hk => lookup_cons_of_none h hk, fun _ _ h => h, fun _ _ h => h⟩

theorem within_owner {m : Mappings} {p : PropertyId} (h : m.owners.lookup p = none) (k : FieldKey) :
    m.Within { m with owners := (p, k) :: m.owners } :=
  ⟨fun _ _ h => h, fun _ _ hp => lookup_cons_of_none h hp, fun _ _ h => h⟩

theorem within_type {m : Mappings} {n : String} (h : m.types.lookup n = none) (i : ItemId) :
    m.Within { m with types := (n, i) :: m.types } :=
  ⟨fun _ _ h => h, fun _ _ h => h, fun _ _ hn => lookup_cons_of_none h hn⟩

structure Lists (m : Mappings) (models : List String) (items : List ItemId) : Prop where
  listed : ∀ model ∈ models, ∃ i ∈ items, m.types.lookup model = some i
  known : ∀ i ∈ items, ∃ model ∈ models, m.types.lookup model = some i

theorem Lists.within {m m' : Mappings} {models : List String} {items : List ItemId} (h : m.Lists models items)
    (hwithin : m.Within m') : m'.Lists models items := by
  refine ⟨fun model hmodel => ?_, fun i hi => ?_⟩
  · obtain ⟨i, hi, hknown⟩ := h.listed model hmodel
    exact ⟨i, hi, hwithin.types model i hknown⟩
  · obtain ⟨model, hmodel, hknown⟩ := h.known i hi
    exact ⟨model, hmodel, hwithin.types model i hknown⟩

theorem Lists.mem_iff {m : Mappings} {models : List String} {items : List ItemId} (h : m.Lists models items) {i : ItemId} :
    i ∈ items ↔ ∃ model ∈ models, m.types.lookup model = some i := by
  refine ⟨h.known i, fun ⟨model, hmodel, hi⟩ => ?_⟩
  obtain ⟨j, hj, hknown⟩ := h.listed model hmodel
  rwa [Option.some.inj (hi.symm.trans hknown)]

theorem Lists.cons {m : Mappings} {model : String} {models : List String} {i : ItemId} {items : List ItemId}
    (h : m.Lists models items) (hi : m.types.lookup model = some i) : m.Lists (model :: models) (i :: items) := by
  refine ⟨List.forall_mem_cons.2 ⟨⟨i, List.mem_cons_self, hi⟩, fun other hother => ?_⟩,
    List.forall_mem_cons.2 ⟨⟨model, List.mem_cons_self, hi⟩, fun j hj => ?_⟩⟩
  · obtain ⟨j, hj, hknown⟩ := h.listed other hother
    exact ⟨j, List.mem_cons_of_mem _ hj, hknown⟩
  · obtain ⟨other, hother, hknown⟩ := h.known j hj
    exact ⟨other, List.mem_cons_of_mem _ hother, hknown⟩

end Mappings

namespace Tables

open Tables.Action

variable {α W : Type} {world : World W} {m : Mappings} {s : Session} {w : W}

/-- That an action ends with more known than before, and with a result that satisfies a condition. -/
def Action.Gains (world : World W) (m : Mappings) (s : Session) (w : W) (x : Action α)
    (post : α → Mappings → Prop) : Prop :=
  x.Ensures world m s w fun r m' _ _ => m.Within m' ∧ ∀ a, r = .ok a → post a m'

namespace Action.Gains

variable {β : Type} {x : Action α} {f : α → Action β}

theorem bind {mid : α → Mappings → Prop} {post : β → Mappings → Prop} (hx : x.Gains world m s w mid)
    (hf : ∀ a m' s' w', m.Within m' → mid a m' → (f a).Gains world m' s' w' post) :
    (x >>= f).Gains world m s w post := by
  refine Action.Ensures.bind hx (fun a m' s' w' h => ?_) fun e m' s' w' h => ⟨h.1, fun _ he => nomatch he⟩
  refine (hf a m' s' w' h.1 (h.2 a rfl)).mono fun r m'' s'' w'' h' => ?_
  exact ⟨h.1.trans h'.1, h'.2⟩

theorem mono {P Q : α → Mappings → Prop} (hx : x.Gains world m s w P)
    (hpost : ∀ a m', m.Within m' → P a m' → Q a m') : x.Gains world m s w Q :=
  Action.Ensures.mono hx fun _ m' _ _ h => ⟨h.1, fun a ha => hpost a m' h.1 (h.2 a ha)⟩

theorem and {P Q : α → Mappings → Prop} (hP : x.Gains world m s w P) (hQ : x.Gains world m s w Q) :
    x.Gains world m s w fun a m' => P a m' ∧ Q a m' :=
  (Action.Ensures.and hP hQ).mono fun _ _ _ _ h => ⟨h.1.1, fun a ha => ⟨h.1.2 a ha, h.2.2 a ha⟩⟩

theorem of_pure {a : α} {post : α → Mappings → Prop} (h : post a m) : Gains world m s w (pure a) post :=
  ⟨.refl m, fun _ ha => Except.ok.inj ha ▸ h⟩

theorem of_throw (e : Error) (post : α → Mappings → Prop) : Gains world m s w (throw e) post :=
  ⟨.refl m, fun _ ha => nomatch ha⟩

theorem of_except (r : Except Error α) : Gains world m s w (ofExcept r) fun a m' => r = .ok a ∧ m' = m :=
  ensures_ofExcept.2 ⟨.refl m, fun _ ha => ⟨ha, rfl⟩⟩

theorem of_mappings : Gains world m s w mappings fun known m' => known = m ∧ m' = m :=
  ⟨.refl m, fun _ ha => ⟨(Except.ok.inj ha).symm, rfl⟩⟩

theorem of_update {g : Mappings → Mappings} (h : m.Within (g m)) :
    Gains world m s w (update g) fun _ m' => m' = g m :=
  ⟨h, fun _ _ => rfl⟩

theorem map {post : α → Mappings → Prop} (hx : x.Gains world m s w post) (g : α → β) :
    (g <$> x).Gains world m s w fun b m' => ∃ a, b = g a ∧ post a m' := by
  rw [map_eq_pure_bind]
  exact hx.bind fun a m' s' w' _ ha => .of_pure ⟨a, rfl, ha⟩

theorem of_client (y : Client.Action α) : Gains world m s w (ofClient y) fun _ m' => m' = m := by
  refine ensures_ofClient.2 ?_
  exact (Dialogue.ensures_true _ w).mono fun _ _ _ => ⟨.refl m, fun _ _ => rfl⟩

end Action.Gains

theorem gains_freshName : Action.Gains world m s w freshName fun _ m' => m' = m :=
  .of_client _

theorem gains_lookUpProperty (t : Tables) (f : ResolvedField) :
    (t.lookUpProperty f).Gains world m s w fun p m' => m'.fields.lookup f.key = some p := by
  refine Action.Gains.of_mappings.bind fun known m' s' w' _ hknown => ?_
  obtain ⟨rfl, rfl⟩ := hknown
  split
  · next p hp => exact .of_pure hp
  · next hnone =>
    refine (Action.Gains.of_client _).bind fun p m' s' w' _ hm => ?_
    obtain rfl := hm
    refine (Action.Gains.of_update (Mappings.within_field hnone p)).bind fun _ m' s' w' _ hm => ?_
    obtain rfl := hm
    exact .of_pure List.lookup_cons_self

theorem gains_own (p : PropertyId) (k : FieldKey) :
    (own p k).Gains world m s w fun _ m' => m'.fields = m.fields ∧ m'.owners.lookup p = some k := by
  refine Action.Gains.of_mappings.bind fun known m' s' w' _ hknown => ?_
  obtain ⟨rfl, rfl⟩ := hknown
  split
  · next hnone =>
    refine (Action.Gains.of_update (Mappings.within_owner hnone k)).mono fun _ m' _ hm => ?_
    obtain rfl := hm
    exact ⟨rfl, List.lookup_cons_self⟩
  · next owner howner =>
    by_cases hne : owner = k
    · rw [if_neg (not_not_intro hne)]
      exact .of_pure ⟨rfl, hne ▸ howner⟩
    · rw [if_pos hne]
      exact .of_throw _ _

theorem gains_propertyOf (t : Tables) (f : ResolvedField) :
    (t.propertyOf f).Gains world m s w fun p m' =>
      m'.fields.lookup f.key = some p ∧ m'.owners.lookup p = some f.key := by
  refine (t.gains_lookUpProperty f).bind fun p m' s' w' _ hp => ?_
  refine (gains_own p f.key).bind fun _ m'' s'' w'' _ howned => ?_
  exact .of_pure ⟨howned.1 ▸ hp, howned.2⟩

theorem gains_propertiesOf (t : Tables) (fields : List ResolvedField) :
    (t.propertiesOf fields).Gains world m s w fun ps m' =>
      ps.map (·.1) = fields.map (·.key) ∧ ∀ e ∈ ps, m'.fields.lookup e.1 = some e.2 := by
  induction fields generalizing m s w with
  | nil => exact .of_pure ⟨rfl, fun _ h => nomatch h⟩
  | cons f rest ih =>
    refine (t.gains_propertyOf f).bind fun p m' s' w' _ hp => ?_
    refine ih.bind fun ps m'' s'' w'' hwithin hps => ?_
    refine .of_pure ⟨congrArg (f.key :: ·) hps.1, fun e he => ?_⟩
    rcases List.mem_cons.1 he with rfl | he
    · exact hwithin.fields _ _ hp.1
    · exact hps.2 e he

theorem gains_typeBelow (t : Tables) (model : String) (parent : Option ItemId) :
    (t.typeBelow model parent).Gains world m s w fun i m' => m'.types.lookup model = some i := by
  refine Action.Gains.of_mappings.bind fun known m' s' w' _ hknown => ?_
  obtain ⟨rfl, rfl⟩ := hknown
  split
  · next i hi => exact .of_pure hi
  · next hnone =>
    refine (Action.Gains.of_client _).bind fun i m' s' w' _ hm => ?_
    obtain rfl := hm
    refine (Action.Gains.of_update (Mappings.within_type hnone i)).bind fun _ m' s' w' _ hm => ?_
    obtain rfl := hm
    exact .of_pure List.lookup_cons_self

theorem gains_typeAlong (t : Tables) (chain : List Model) (parent : Option ItemId) :
    (t.typeAlong parent chain).Gains world m s w fun i m' =>
      ∀ last ∈ chain.getLast?, ∃ j, i = some j ∧ m'.types.lookup last.name = some j := by
  induction chain generalizing m s w parent with
  | nil => exact .of_pure fun _ h => nomatch h
  | cons first rest ih =>
    refine (t.gains_typeBelow first.name parent).bind fun i m' s' w' _ hi => ?_
    cases rest with
    | nil =>
      refine .of_pure fun last hlast => ⟨i, rfl, ?_⟩
      obtain rfl := Option.some.inj hlast
      exact hi
    | cons second rest =>
      refine (ih (some i)).mono fun j m'' _ hj last hlast => hj last ?_
      rw [List.getLast?_cons_cons] at hlast
      exact hlast

end Tables

namespace Schema

theorem model_eq_ok {s : Schema} {name : String} {m : Model} (h : s.model name = .ok m) :
    s.find? name = some m ∧ m.name = name := by
  unfold model at h
  split at h
  · next found hfind =>
    obtain rfl := Except.ok.inj h
    exact ⟨hfind, by simpa using List.find?_some hfind⟩
  · exact nomatch h

theorem climb_eq_ok {s : Schema} {fuel : Nat} {chain out : List Model} {name : String}
    (h : s.climb fuel chain name = .ok out) : ∃ above m, out = above ++ m :: chain ∧ s.model name = .ok m := by
  induction fuel generalizing chain name with
  | zero => exact nomatch h
  | succ fuel ih =>
    rw [climb] at h
    split at h
    · exact nomatch h
    · next m hm =>
      split at h
      · exact nomatch h
      · split at h
        · exact ⟨[], m, (Except.ok.inj h).symm, hm⟩
        · obtain ⟨above, top, rfl, _⟩ := ih h
          exact ⟨above ++ [top], m, by simp, hm⟩

theorem getLast?_ancestry {s : Schema} {name : String} {chain : List Model} (h : s.ancestry name = .ok chain) :
    ∃ m, chain.getLast? = some m ∧ m.name = name := by
  obtain ⟨above, m, rfl, hm⟩ := climb_eq_ok h
  exact ⟨m, List.getLast?_concat, (model_eq_ok hm).2⟩

end Schema

namespace Tables

variable {W : Type} {world : World W} {m : Mappings} {s : Session} {w : W}

theorem gains_typeItem (t : Tables) (model : String) :
    (t.typeItem model).Gains world m s w fun i m' => m'.types.lookup model = some i := by
  refine (Action.Gains.of_except _).bind fun chain m' s' w' _ hchain => ?_
  obtain ⟨last, hlast, rfl⟩ := Schema.getLast?_ancestry hchain.1
  refine (t.gains_typeAlong chain none).bind fun i m'' s'' w'' _ hi => ?_
  obtain ⟨j, rfl, hj⟩ := hi last hlast
  exact .of_pure hj

theorem gains_typeItems (t : Tables) (models : List String) :
    (t.typeItems models).Gains world m s w fun items m' => m'.Lists models items := by
  induction models generalizing m s w with
  | nil => exact .of_pure ⟨by simp, by simp⟩
  | cons model rest ih =>
    refine (t.gains_typeItem model).bind fun i m' s' w' _ hi => ih.bind fun items m'' s'' w'' hwithin hitems => ?_
    exact .of_pure (hitems.cons (hwithin.types _ _ hi))

theorem mem_foldr_insertItem {i : ItemId} {items : List ItemId} : i ∈ items.foldr insertItem [] ↔ i ∈ items := by
  induction items with
  | nil => exact Iff.rfl
  | cons j rest ih => rw [List.foldr_cons, mem_insertItem, ih, List.mem_cons]

theorem gains_rowTypes (t : Tables) (model : String) :
    (t.rowTypes model).Gains world m s w fun items m' =>
      m'.Lists (model :: (t.schema.descendants model).map (·.name)) items := by
  refine (t.gains_typeItems _).bind fun items m' s' w' _ hitems => .of_pure ⟨fun name hname => ?_, fun i hi => ?_⟩
  · obtain ⟨i, hi, hknown⟩ := hitems.listed name hname
    exact ⟨i, mem_foldr_insertItem.2 hi, hknown⟩
  · exact hitems.known i (mem_foldr_insertItem.1 hi)

end Tables

end ClaimTables
