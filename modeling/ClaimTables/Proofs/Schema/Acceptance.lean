import Mathlib.Data.String.Basic
import ClaimTables.Proofs.Schema.Ascent

/-!
Which declarations make a schema. They are accepted exactly if they are in order: names are identifiers, none is declared
twice in one place, and no parent or target leads nowhere or back to where it started.
-/

namespace ClaimTables

namespace Keyed

variable {α : Type} {key : String} {value : α} {entries : List (String × α)}

theorem perm_ofList (h : (entries.map (·.1)).Nodup) : (ofList entries).Perm entries := by
  have hfold : ∀ kept : List (String × α), ((kept ++ entries).map (·.1)).Nodup →
      (entries.foldl (fun kept e => insert e.1 e.2 kept) kept).Perm (kept ++ entries) := by
    clear h
    induction entries with
    | nil => exact fun kept _ => by rw [List.append_nil, List.foldl_nil]
    | cons e rest ih =>
      intro kept hkept
      have hnew : kept.lookup e.1 = none := by
        rw [List.map_append, List.nodup_append] at hkept
        refine List.lookup_eq_none_iff.2 fun e' he' => bne_iff_ne.2 fun hkey => ?_
        exact hkept.2.2 _ (List.mem_map_of_mem he') _ (by simp) hkey.symm
      have hmoved : (insert e.1 e.2 kept ++ rest).Perm (kept ++ e :: rest) :=
        ((perm_insert hnew e.2).append_right rest).trans List.perm_middle.symm
      exact (ih _ (((hmoved.map (·.1)).nodup_iff).2 hkept)).trans hmoved
  exact hfold [] h

theorem sorted_insert (h : (entries.map (·.1)).Pairwise (· < ·)) :
    ((insert key value entries).map (·.1)).Pairwise (· < ·) := by
  induction entries with
  | nil => exact List.pairwise_singleton _ _
  | cons e rest ih =>
    rw [List.map_cons, List.pairwise_cons] at h
    rw [insert]
    split
    · next hbefore =>
      rw [List.map_cons, List.pairwise_cons, List.map_cons, List.pairwise_cons]
      refine ⟨List.forall_mem_cons.2 ⟨hbefore, fun k hk => hbefore.trans (h.1 k hk)⟩, h⟩
    · next hnot =>
      split
      · next hsame =>
        subst hsame
        exact List.pairwise_cons.2 h
      · next hother =>
        rw [List.map_cons, List.pairwise_cons]
        refine ⟨fun k hk => ?_, ih h.2⟩
        obtain ⟨e', he', rfl⟩ := List.mem_map.1 hk
        rcases mem_insert he' with rfl | he'
        · exact lt_of_le_of_ne (not_lt.1 hnot) fun hsame => hother hsame.symm
        · exact h.1 _ (List.mem_map_of_mem he')

theorem sorted_ofList (entries : List (String × α)) : ((ofList entries).map (·.1)).Pairwise (· < ·) := by
  have hfold : ∀ kept : List (String × α), (kept.map (·.1)).Pairwise (· < ·) →
      ((entries.foldl (fun kept e => insert e.1 e.2 kept) kept).map (·.1)).Pairwise (· < ·) := by
    induction entries with
    | nil => exact fun kept hkept => hkept
    | cons e rest ih => exact fun kept hkept => ih _ (sorted_insert hkept)
  exact hfold [] List.Pairwise.nil

end Keyed

theorem forM_eq_ok_iff {ε α : Type} {f : α → Except ε Unit} {l : List α} :
    l.forM f = .ok () ↔ ∀ a ∈ l, f a = .ok () := by
  refine ⟨forM_eq_ok, fun h => ?_⟩
  induction l with
  | nil => rfl
  | cons a rest ih =>
    rw [List.forall_mem_cons] at h
    rw [List.forM_eq_forM, List.forM_cons, h.1]
    exact ih h.2

namespace Schema

variable {s s' : Schema} {models : List Model} {m : Model} {name : String}

def Letter (c : Char) : Prop :=
  ('A' ≤ c ∧ c ≤ 'Z') ∨ ('a' ≤ c ∧ c ≤ 'z')

def Identifier (name : String) : Prop :=
  ∃ first rest, name.toList = first :: rest ∧ (Letter first ∨ first = '_') ∧
    ∀ c ∈ rest, Letter c ∨ ('0' ≤ c ∧ c ≤ '9') ∨ c = '_'

theorem isAlpha_iff {c : Char} : c.isAlpha = true ↔ Letter c := by
  have hupper : c.isUpper = true ↔ 'A' ≤ c ∧ c ≤ 'Z' := decide_eq_true_iff
  have hlower : c.isLower = true ↔ 'a' ≤ c ∧ c ≤ 'z' :=
    Bool.and_eq_true_iff.trans (and_congr decide_eq_true_iff decide_eq_true_iff)
  exact Bool.or_eq_true_iff.trans (or_congr hupper hlower)

theorem follows_iff {c : Char} : (c.isAlphanum || c = '_') = true ↔ Letter c ∨ ('0' ≤ c ∧ c ≤ '9') ∨ c = '_' := by
  have hdigit : c.isDigit = true ↔ '0' ≤ c ∧ c ≤ '9' := by simp [Char.isDigit, Char.le_def]
  rw [Char.isAlphanum, Bool.or_eq_true, Bool.or_eq_true, isAlpha_iff, hdigit, decide_eq_true_eq, or_assoc]

theorem isIdentifier_iff : isIdentifier name = true ↔ Identifier name := by
  rw [isIdentifier, Identifier]
  split
  · next hempty => simp [hempty]
  · next first rest hname =>
    rw [Bool.and_eq_true, Bool.or_eq_true, isAlpha_iff, decide_eq_true_eq, List.all_eq_true, hname]
    simp only [follows_iff]
    constructor
    · exact fun h => ⟨first, rest, rfl, h⟩
    · rintro ⟨_, _, hcons, h⟩
      obtain ⟨rfl, rfl⟩ := List.cons.inj hcons
      exact h

def arranged (models : List Model) : Schema :=
  ⟨(Keyed.ofList (models.map fun m => (m.name, m))).map (·.2)⟩

structure Named (models : List Model) : Prop where
  identifiers : ∀ m ∈ models, isIdentifier m.name = true
  nodup : (models.map (·.name)).Nodup

theorem Named.perm (h : Named models) : (arranged models).models.Perm models := by
  have hkeys : (models.map fun m => (m.name, m)).map (·.1) = models.map (·.name) := List.map_map
  have hperm := (Keyed.perm_ofList (hkeys ▸ h.nodup)).map (·.2)
  rwa [List.map_map, List.map_id''] at hperm
  exact fun _ => rfl

theorem forall_lookup_insert_eq_none {seen : List (String × Model)} :
    (∀ m' ∈ models, (Keyed.insert m.name m seen).lookup m'.name = none) ↔
      m.name ∉ models.map (·.name) ∧ ∀ m' ∈ models, seen.lookup m'.name = none := by
  simp only [Keyed.lookup_insert, List.mem_map, not_exists, not_and]
  constructor
  · intro h
    refine ⟨fun m' hm' hsame => ?_, fun m' hm' => ?_⟩
    · simpa [hsame] using h m' hm'
    · have hlookup := h m' hm'
      split at hlookup
      · cases hlookup
      · exact hlookup
  · exact fun h m' hm' => by rw [if_neg (h.1 m' hm'), h.2 m' hm']

theorem named_cons : Named (m :: models) ↔
    isIdentifier m.name = true ∧ m.name ∉ models.map (·.name) ∧ Named models := by
  constructor
  · intro h
    obtain ⟨hfresh, hnodup⟩ := List.nodup_cons.1 h.nodup
    exact ⟨h.identifiers m List.mem_cons_self, hfresh, (List.forall_mem_cons.1 h.identifiers).2, hnodup⟩
  · rintro ⟨hname, hfresh, h⟩
    exact ⟨List.forall_mem_cons.2 ⟨hname, h.identifiers⟩, List.nodup_cons.2 ⟨hfresh, h.nodup⟩⟩

theorem declare_eq_ok_iff {seen entries : List (String × Model)} : declare seen models = .ok entries ↔
    Named models ∧ (∀ m ∈ models, seen.lookup m.name = none) ∧
      entries = (models.map fun m => (m.name, m)).foldl (fun kept e => Keyed.insert e.1 e.2 kept) seen := by
  induction models generalizing seen with
  | nil => exact ⟨fun h => ⟨⟨by simp, List.nodup_nil⟩, by simp, (Except.ok.inj h).symm⟩, fun h => congrArg _ h.2.2.symm⟩
  | cons m rest ih =>
    rw [declare, named_cons, List.forall_mem_cons]
    split
    · next hname =>
      refine iff_of_false (by simp) fun h => ?_
      simp [h.1.1] at hname
    · next hname =>
      have hname : isIdentifier m.name = true := by simpa using hname
      split
      · next hseen =>
        refine iff_of_false (by simp) fun h => ?_
        simp [h.2.1.1] at hseen
      · next hseen =>
        have hseen : seen.lookup m.name = none := by
          rwa [Bool.not_eq_true, Option.isSome_eq_false_iff, Option.isNone_iff_eq_none] at hseen
        rw [ih, forall_lookup_insert_eq_none]
        constructor
        · rintro ⟨hnamed, ⟨hfresh, hrest⟩, hentries⟩
          exact ⟨⟨hname, hfresh, hnamed⟩, ⟨hseen, hrest⟩, hentries⟩
        · rintro ⟨⟨-, hfresh, hnamed⟩, ⟨-, hrest⟩, hentries⟩
          exact ⟨hnamed, ⟨hfresh, hrest⟩, hentries⟩

theorem Named.declare (h : Named models) :
    Schema.declare [] models = .ok (Keyed.ofList (models.map fun m => (m.name, m))) :=
  declare_eq_ok_iff.2 ⟨h, fun _ _ => rfl, rfl⟩

theorem Named.ofModels (h : Named models) :
    ofModels models = (arranged models).models.forM (arranged models).checkModel >>= fun _ => .ok (arranged models) := by
  rw [Schema.ofModels, h.declare]
  rfl

theorem named_of_ofModels (h : ofModels models = .ok s) : Named models := by
  obtain ⟨entries, hentries, -⟩ := ok_of_bind h
  exact (declare_eq_ok_iff.1 hentries).1

theorem ofModels_eq_ok : ofModels models = .ok s ↔
    Named models ∧ s = arranged models ∧ ∀ m ∈ s.models, s.checkModel m = .ok () := by
  constructor
  · intro h
    have hnamed := named_of_ofModels h
    rw [hnamed.ofModels] at h
    obtain ⟨_, hchecked, hs⟩ := ok_of_bind h
    obtain rfl := Except.ok.inj hs
    exact ⟨hnamed, rfl, forM_eq_ok hchecked⟩
  · rintro ⟨hnamed, rfl, hchecked⟩
    rw [hnamed.ofModels, forM_eq_ok_iff.2 hchecked]
    rfl

theorem find?_eq_some_iff (hnames : (s.models.map (·.name)).Nodup) :
    s.find? name = some m ↔ m ∈ s.models ∧ m.name = name := by
  constructor
  · exact fun h => ⟨List.mem_of_find?_eq_some h, by simpa using List.find?_some h⟩
  · rintro ⟨hm, rfl⟩
    exact (model_eq_ok (model_of_mem hnames hm)).1

theorem find?_congr (hnames : (s.models.map (·.name)).Nodup) (hperm : s.models.Perm s'.models) :
    s.find? = s'.find? := by
  have hnames' := ((hperm.map (·.name)).nodup_iff).1 hnames
  exact funext fun name => Option.ext fun m => by
    rw [find?_eq_some_iff hnames, find?_eq_some_iff hnames', hperm.mem_iff]

theorem declares_iff (hnames : (s.models.map (·.name)).Nodup) :
    s.declares name = true ↔ name ∈ s.models.map (·.name) := by
  simp only [declares, Option.isSome_iff_exists, find?_eq_some_iff hnames, List.mem_map]

namespace Named

variable (h : Named models)

include h

theorem nodup_arranged : ((arranged models).models.map (·.name)).Nodup :=
  ((h.perm.map (·.name)).nodup_iff).2 h.nodup

theorem find?_arranged : (arranged models).find? = (Schema.mk models).find? :=
  find?_congr h.nodup_arranged h.perm

theorem declares_arranged : (arranged models).declares name = true ↔ name ∈ models.map (·.name) := by
  rw [declares_iff h.nodup_arranged, (h.perm.map (·.name)).mem_iff]

end Named

theorem hasParent_congr (h : s.find? = s'.find?) : s.HasParent = s'.HasParent := by
  funext name parent
  simp only [HasParent, model, h]

theorem Chain.congr {chain : List Model} (h : s.find? = s'.find?) (hchain : s.Chain name chain) : s'.Chain name chain := by
  have hmodel : s.model = s'.model := by
    funext name
    simp only [model, h]
  induction hchain with
  | root hm hparent => exact .root (hmodel ▸ hm) hparent
  | under hm hparent _ ih => exact .under (hmodel ▸ hm) hparent ih

theorem checkFields_eq_ok_iff {model : String} {seen : List String} {fields : List ResolvedField} :
    s.checkFields model seen fields = .ok () ↔
      (fields.map (·.field.name)).Nodup ∧ ∀ f ∈ fields, f.field.name ∉ seen ∧ s.FieldValid f.field := by
  refine ⟨checkFields_eq_ok, ?_⟩
  induction fields generalizing seen with
  | nil => exact fun _ => rfl
  | cons f rest ih =>
    rw [List.map_cons, List.nodup_cons, List.forall_mem_cons]
    rintro ⟨⟨hfresh, hnodup⟩, ⟨hseen, hvalid⟩, hrest⟩
    have hrec : s.checkFields model (f.field.name :: seen) rest = .ok () := by
      refine ih ⟨hnodup, fun g hg => ⟨fun hmem => ?_, (hrest g hg).2⟩⟩
      rcases List.mem_cons.1 hmem with hsame | hmem
      · exact hfresh (hsame ▸ List.mem_map_of_mem hg)
      · exact (hrest g hg).1 hmem
    rw [checkFields, if_neg (by simp [hvalid.identifier, hvalid.not_id]), if_neg (by simpa using hseen)]
    split
    · exact hrec
    · next target htarget => rw [if_pos (hvalid.declared target htarget), hrec]

theorem checkParent_eq_ok : s.checkParent m = .ok () ↔ ∀ parent, m.parent = some parent → s.declares parent = true := by
  rw [checkParent]
  split
  · next hnone => simp [hnone]
  · next parent hsome =>
    split
    · next hdeclared => simpa [hsome] using hdeclared
    · next hundeclared => simpa [hsome] using hundeclared

theorem checkModel_eq_ok : s.checkModel m = .ok () ↔
    (∀ parent, m.parent = some parent → s.declares parent = true) ∧ ∃ chain, s.Chain m.name chain ∧
      ((chain.flatMap declared).map (·.field.name)).Nodup ∧ ∀ f ∈ chain.flatMap declared, s.FieldValid f.field := by
  constructor
  · intro h
    obtain ⟨_, hparent, hrest⟩ := ok_of_bind h
    obtain ⟨fields, hfields, hchecked⟩ := ok_of_bind hrest
    obtain ⟨chain, hchain, rfl⟩ := fields_eq_ok.1 hfields
    obtain ⟨hnodup, hvalid⟩ := checkFields_eq_ok hchecked
    exact ⟨checkParent_eq_ok.1 hparent, chain, hchain, hnodup, fun f hf => (hvalid f hf).2⟩
  · rintro ⟨hparent, chain, hchain, hnodup, hvalid⟩
    rw [checkModel, checkParent_eq_ok.2 hparent, fields_eq_ok.2 ⟨chain, hchain, rfl⟩]
    exact checkFields_eq_ok_iff.2 ⟨hnodup, fun f hf => ⟨List.not_mem_nil, hvalid f hf⟩⟩

/--
That declarations are in order. A chain goes from a root down to a model, each model the parent of the next; its fields
are those of all models that it passes.
-/
structure InOrder (models : List Model) : Prop where
  identifiers : ∀ m ∈ models, Identifier m.name
  distinct : (models.map (·.name)).Nodup
  parents : ∀ m ∈ models, ∀ parent, m.parent = some parent → parent ∈ models.map (·.name)
  acyclic : ∀ m ∈ models, ¬(Schema.mk models).Inherits m.name m.name
  fields : ∀ m ∈ models, ∀ chain, (Schema.mk models).Chain m.name chain →
    ((chain.flatMap (·.fields)).map (·.name)).Nodup ∧
      ∀ f ∈ chain.flatMap (·.fields), Identifier f.name ∧ f.name ≠ "id"
  targets : ∀ m ∈ models, ∀ f ∈ m.fields, ∀ target, f.type = .reference target → target ∈ models.map (·.name)

theorem target?_eq_some {type : FieldType} {target : String} : type.target? = some target ↔ type = .reference target := by
  cases type <;> simp [FieldType.target?]

theorem fields_declared (chain : List Model) :
    (chain.flatMap declared).map (·.field) = chain.flatMap (·.fields) := by
  rw [List.map_flatMap]
  congr 1
  funext m
  rw [declared, List.map_map]
  exact List.map_id'' (fun _ => rfl) _

theorem declares_of_reaches (hparents : ∀ m ∈ s.models, ∀ parent, m.parent = some parent → s.declares parent = true)
    {ancestor : String} (hname : s.declares name = true) (h : s.Reaches name ancestor) : s.declares ancestor = true := by
  induction h with
  | refl => exact hname
  | tail _ hstep =>
    obtain ⟨m, hm, hparent⟩ := hstep
    exact hparents m (List.mem_of_find?_eq_some (model_eq_ok hm).1) _ hparent

theorem exists_chain_of_acyclic
    (hparents : ∀ m ∈ s.models, ∀ parent, m.parent = some parent → s.declares parent = true)
    (hacyclic : ∀ m ∈ s.models, ¬s.Inherits m.name m.name) (hname : s.declares name = true) :
    ∃ chain, s.Chain name chain := by
  cases hancestry : s.ancestry name with
  | ok chain => exact ⟨chain, ancestry_eq_ok.1 hancestry⟩
  | error e =>
    cases astray_of_ancestry hancestry with
    | lost h hmissing =>
      have hdeclared := declares_of_reaches hparents hname h
      rw [declares, hmissing] at hdeclared
      cases hdeclared
    | @circle through h hself =>
      obtain ⟨m, hfound⟩ := Option.isSome_iff_exists.1 (declares_of_reaches hparents hname h)
      have hthrough : m.name = through := by simpa using List.find?_some hfound
      exact absurd hself (hthrough ▸ hacyclic m (List.mem_of_find?_eq_some hfound))

theorem InOrder.named (h : InOrder models) : Named models :=
  ⟨fun m hm => isIdentifier_iff.2 (h.identifiers m hm), h.distinct⟩

theorem InOrder.checked (h : InOrder models) (hm : m ∈ models) : (arranged models).checkModel m = .ok () := by
  have hperm := h.named.perm
  have hdeclared : ∀ {name}, name ∈ models.map (·.name) → (arranged models).declares name = true :=
    h.named.declares_arranged.2
  have hparents : ∀ m ∈ (arranged models).models, ∀ parent, m.parent = some parent →
      (arranged models).declares parent = true :=
    fun m hm parent hparent => hdeclared (h.parents m (hperm.mem_iff.1 hm) parent hparent)
  have hacyclic : ∀ m ∈ (arranged models).models, ¬(arranged models).Inherits m.name m.name := by
    intro m hm
    rw [Inherits, hasParent_congr h.named.find?_arranged]
    exact h.acyclic m (hperm.mem_iff.1 hm)
  obtain ⟨chain, hchain⟩ := exists_chain_of_acyclic hparents hacyclic (hdeclared (List.mem_map_of_mem hm))
  obtain ⟨hnodup, hfields⟩ := h.fields m hm chain (hchain.congr h.named.find?_arranged)
  refine checkModel_eq_ok.2 ⟨hparents m (hperm.mem_iff.2 hm), chain, hchain, ?_, fun f hf => ?_⟩
  · rwa [← fields_declared, List.map_map] at hnodup
  · obtain ⟨hidentifier, hid⟩ := hfields f.field (fields_declared chain ▸ List.mem_map_of_mem hf)
    obtain ⟨owner, howner, hfm⟩ := List.mem_flatMap.1 hf
    obtain ⟨field, hfield, rfl⟩ := List.mem_map.1 hfm
    refine ⟨isIdentifier_iff.2 hidentifier, hid, fun target htarget => hdeclared ?_⟩
    exact h.targets owner (hperm.mem_iff.1 (hchain.subset howner)) field hfield target (target?_eq_some.1 htarget)

theorem inOrder_of_checked (hnamed : Named models)
    (h : ∀ m ∈ (arranged models).models, (arranged models).checkModel m = .ok ()) : InOrder models := by
  have hperm := hnamed.perm
  have hmodel := fun (m : Model) (hm : m ∈ models) => checkModel_eq_ok.1 (h m (hperm.mem_iff.2 hm))
  have hdeclared : ∀ {name}, (arranged models).declares name = true → name ∈ models.map (·.name) :=
    hnamed.declares_arranged.1
  refine ⟨fun m hm => isIdentifier_iff.1 (hnamed.identifiers m hm), hnamed.nodup, fun m hm parent hparent => ?parents,
    fun m hm => ?acyclic, fun m hm chain hchain => ?fields, fun m hm f hf target htarget => ?targets⟩
  case parents =>
    exact hdeclared ((hmodel m hm).1 parent hparent)
  case acyclic =>
    obtain ⟨-, chain, hchain, -⟩ := hmodel m hm
    rw [Inherits, ← hasParent_congr hnamed.find?_arranged]
    exact hchain.not_inherits
  case fields =>
    obtain ⟨-, chain', hchain', hnodup, hvalid⟩ := hmodel m hm
    obtain rfl := (hchain.congr hnamed.find?_arranged.symm).unique hchain'
    refine ⟨?_, fun f hf => ?_⟩
    · rwa [← fields_declared, List.map_map]
    · rw [← fields_declared] at hf
      obtain ⟨g, hg, rfl⟩ := List.mem_map.1 hf
      exact ⟨isIdentifier_iff.1 (hvalid g hg).identifier, (hvalid g hg).not_id⟩
  case targets =>
    obtain ⟨-, chain, hchain, -, hvalid⟩ := hmodel m hm
    have hlast := hchain.mem_of_model (model_of_mem hnamed.nodup_arranged (hperm.mem_iff.2 hm))
    have hfield := hvalid ⟨m.name, f⟩ (List.mem_flatMap.2 ⟨m, hlast, List.mem_map_of_mem hf⟩)
    exact hdeclared (hfield.declared target (target?_eq_some.2 htarget))

theorem sorted_arranged (models : List Model) : ((arranged models).models.map (·.name)).Pairwise (· < ·) := by
  have hkeys : (arranged models).models.map (·.name) = (Keyed.ofList (models.map fun m => (m.name, m))).map (·.1) := by
    rw [arranged, List.map_map]
    refine List.map_congr_left fun e he => ?_
    obtain ⟨m, -, rfl⟩ := List.mem_map.1 (Keyed.mem_ofList he)
    rfl
  rw [hkeys]
  exact Keyed.sorted_ofList _

/--
Declarations are accepted exactly if they are in order, and make the schema of them all in the order of their names. To
find that out no walk up goes on for ever, whatever is declared.
-/
theorem ofModels_accepts (models : List Model) :
    ((∃ s, ofModels models = .ok s) ↔ InOrder models) ∧
      (∀ s, ofModels models = .ok s → s.models.Perm models ∧ (s.models.map (·.name)).Pairwise (· < ·)) ∧
      ∀ (s : Schema) (name : String), s.Climbs [] name (s.ancestry name) := by
  refine ⟨⟨?_, fun h => ?_⟩, fun s hs => ?_, climbs_ancestry⟩
  · rintro ⟨s, hs⟩
    obtain ⟨hnamed, rfl, hchecked⟩ := ofModels_eq_ok.1 hs
    exact inOrder_of_checked hnamed hchecked
  · exact ⟨arranged models, ofModels_eq_ok.2 ⟨h.named, rfl, fun m hm => h.checked (h.named.perm.mem_iff.1 hm)⟩⟩
  · obtain ⟨hnamed, rfl, -⟩ := ofModels_eq_ok.1 hs
    exact ⟨hnamed.perm, sorted_arranged models⟩

end Schema

end ClaimTables
