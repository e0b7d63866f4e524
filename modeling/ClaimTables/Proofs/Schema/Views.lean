import Mathlib.Data.List.Chain
import ClaimTables.Proofs.Schema.Acceptance

/-!
The views that inheritance gives of one model agree. The walk up, the fields, the search for one field and the search
downwards all tell of the same chains.
-/

namespace ClaimTables.Schema

variable {models : List Model} {s : Schema} {name : String} {chain : List Model} {m d : Model}

/-- That a list goes from a root down to a model, each model the parent of the next, and passes none twice. -/
structure Descent (m : Model) (chain : List Model) : Prop where
  top : ∃ root, chain.head? = some root ∧ root.parent = none
  linked : chain.IsChain fun above below => below.parent = some above.name
  bottom : chain.getLast? = some m
  nodup : (chain.map (·.name)).Nodup

theorem Chain.descent (h : s.Chain name chain) (hm : s.model name = .ok m) : Descent m chain := by
  have hlinked : (∃ root, chain.head? = some root ∧ root.parent = none) ∧
      chain.IsChain fun above below => below.parent = some above.name := by
    clear hm
    induction h with
    | root _ hparent => exact ⟨⟨_, rfl, hparent⟩, List.isChain_singleton _⟩
    | @under _ parent _ chain _ hparent h ih =>
      obtain ⟨⟨root, hroot, hnone⟩, hlinked⟩ := ih
      obtain ⟨above, habove, hname⟩ := getLast?_ancestry (ancestry_eq_ok.2 h)
      refine ⟨⟨root, by rw [List.head?_append, hroot, Option.some_or], hnone⟩,
        List.isChain_append.2 ⟨hlinked, List.isChain_singleton _, fun last hlast first hfirst => ?_⟩⟩
      obtain rfl := Option.some.inj (habove.symm.trans hlast)
      obtain rfl := Option.some.inj hfirst
      rw [hparent, hname]
  exact ⟨hlinked.1, hlinked.2, h.getLast?_eq hm, h.nodup⟩

theorem Chain.fields (h : s.Chain name chain) (hm : s.model name = .ok m) :
    ∃ inherited, (m.parent = none ∧ inherited = [] ∨ ∃ parent, m.parent = some parent ∧ s.fields parent = .ok inherited) ∧
      s.fields name = .ok (inherited ++ declared m) := by
  have hfields := fields_eq_ok.2 ⟨chain, h, rfl⟩
  cases h with
  | root hm' hparent =>
    obtain rfl := Except.ok.inj (hm.symm.trans hm')
    exact ⟨[], .inl ⟨hparent, rfl⟩, by simpa using hfields⟩
  | @under _ parent _ above hm' hparent habove =>
    obtain rfl := Except.ok.inj (hm.symm.trans hm')
    exact ⟨above.flatMap declared, .inr ⟨parent, hparent, fields_eq_ok.2 ⟨above, habove, rfl⟩⟩, by simpa using hfields⟩

theorem Valid.mem_descendants (hs : s.Valid) (hnames : (s.models.map (·.name)).Nodup) (hm : m ∈ s.models) :
    d ∈ s.descendants m.name ↔ d ∈ s.models ∧ d ≠ m ∧ ∃ above, s.ancestry d.name = .ok above ∧ m ∈ above := by
  rw [Schema.mem_descendants hnames]
  refine and_congr_right fun hd => ?_
  constructor
  · intro hinherits
    obtain ⟨above, habove⟩ := hs.exists_chain hd
    obtain ⟨whole, hwhole, hstart⟩ := hinherits.chain_begins habove
    refine ⟨fun hsame => ?_, above, ancestry_eq_ok.2 habove,
      hstart.subset (hwhole.mem_of_model (model_of_mem hnames hm))⟩
    subst hsame
    exact habove.not_inherits hinherits
  · rintro ⟨hother, above, habove, hmem⟩
    refine ((ancestry_eq_ok.1 habove).inherits hmem).resolve_left fun hname => hother ?_
    exact List.inj_on_of_nodup_map hnames hd hm hname.symm

structure Agreement (s : Schema) (m : Model) : Prop where
  ancestry : ∃ chain, s.ancestry m.name = .ok chain ∧ Descent m chain
  fields : ∃ inherited,
    (m.parent = none ∧ inherited = [] ∨ ∃ parent, m.parent = some parent ∧ s.fields parent = .ok inherited) ∧
      s.fields m.name = .ok (inherited ++ declared m) ∧ ((inherited ++ declared m).map (·.field.name)).Nodup
  field : ∀ fields, s.fields m.name = .ok fields → ∀ f ∈ fields, ∀ d ∈ m :: s.descendants m.name,
    s.field d.name f.field.name = .ok f
  nodup : ((s.descendants m.name).map (·.name)).Nodup
  descendants : ∀ d, d ∈ s.descendants m.name ↔
    d ∈ s.models ∧ d ≠ m ∧ ∃ above, s.ancestry d.name = .ok above ∧ m ∈ above

/-- In a schema that is accepted the views of every model agree. -/
theorem agreement_of_ofModels (h : ofModels models = .ok s) (hm : m ∈ s.models) : s.Agreement m := by
  have hs := valid_of_ofModels h
  have hnames := nodup_of_ofModels h
  have hmodel := model_of_mem hnames hm
  obtain ⟨chain, hchain⟩ := hs.exists_chain hm
  obtain ⟨inherited, hinherited, hfields⟩ := hchain.fields hmodel
  exact {
    ancestry := ⟨chain, ancestry_eq_ok.2 hchain, hchain.descent hmodel⟩
    fields := ⟨inherited, hinherited, hfields, hs.nodup hfields⟩
    field := fun _ hall _ hf d hd => hs.field_below hnames hall hf (List.mem_map_of_mem (f := (·.name)) hd)
    nodup := (collected_descendants hnames m.name).nodup
    descendants := fun _ => hs.mem_descendants hnames hm
  }

def workModel : Model := ⟨"Work", none, [⟨"title", .text, false, false⟩]⟩

def bookModel : Model := ⟨"Book", some "Work", [⟨"pages", .number, true, false⟩]⟩

theorem agreement_of_ofModels_book :
    ofModels [workModel, bookModel] = .ok ⟨[bookModel, workModel]⟩ ∧ bookModel ∈ [bookModel, workModel] ∧
      Agreement ⟨[bookModel, workModel]⟩ bookModel :=
  have hschema : ofModels [workModel, bookModel] = .ok ⟨[bookModel, workModel]⟩ := rfl
  ⟨hschema, List.mem_cons_self, agreement_of_ofModels hschema List.mem_cons_self⟩

example : (Schema.mk [bookModel, workModel]).descendants "Work" = [bookModel] := by decide

end ClaimTables.Schema
