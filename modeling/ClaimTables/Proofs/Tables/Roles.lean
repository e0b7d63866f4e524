import ClaimTables.Proofs.Client.Finding
import ClaimTables.Proofs.Tables.Labels
import ClaimTables.Proofs.Tables.Steady

/-!
Roles have one entity each. However many tables use a store in turn, with whatever tags and schemas, each makes at most
the first entity for a role, and what it finds or remembers for a role is the only entity that plays it.
-/

namespace ClaimTables

namespace Directory

variable {d d' d'' : Directory} {language : String} {r r' : Role} {id id' : EntityId}

structure Plays (d : Directory) (language : String) (r : Role) (id : EntityId) : Prop where
  named : r.Named
  kind : id.kind = r.kind
  only : d.Only language r.label id

theorem Plays.eq_iff (h : d.Plays language r id) (h' : d.Plays language r' id') : id = id' ↔ r = r' := by
  obtain ⟨labels, hcarriers⟩ := h.only
  obtain ⟨labels', hcarriers'⟩ := h'.only
  constructor
  · rintro rfl
    obtain ⟨hmem, -, hlabel⟩ := mem_carriers.1 (hcarriers ▸ List.mem_singleton_self (Entity.mk id labels))
    obtain ⟨hmem', -, hlabel'⟩ := mem_carriers.1 (hcarriers' ▸ List.mem_singleton_self (Entity.mk id labels'))
    rw [d.eq_of_id_eq hmem hmem' rfl] at hlabel
    exact h.named.eq_of_label_eq h'.named (Option.some.inj (hlabel.symm.trans hlabel'))
  · rintro rfl
    rw [h.kind, ← h'.kind, hcarriers'] at hcarriers
    exact (Entity.mk.inj (List.cons.inj hcarriers).1).1.symm

end Directory

namespace Entity

structure Serves (language : String) (e : Entity) (r : Role) : Prop where
  named : r.Named
  kind : e.id.kind = r.kind
  label : e.label? language = some r.label

def IsRow (language : String) (e : Entity) : Prop :=
  e.id.kind = .item ∧ ∃ (n : Namespace) (model name : String), Schema.isIdentifier model = true ∧
    e.label? language = some (n.rowLabel model name)

variable {language : String} {e : Entity} {r r' : Role}

theorem Serves.eq (h : e.Serves language r) (hr' : r'.Named) (hlabel : e.label? language = some r'.label) : r = r' :=
  h.named.eq_of_label_eq hr' (Option.some.inj (h.label.symm.trans hlabel))

theorem IsRow.label_ne (h : e.IsRow language) (hr : r.Named) : e.label? language ≠ some r.label := by
  obtain ⟨-, n, model, name, hmodel, hlabel⟩ := h
  exact fun hr' => hr.label_ne_rowLabel hmodel (Option.some.inj (hr'.symm.trans hlabel))

end Entity

namespace Directory

variable {d d' d'' : Directory} {language : String} {r : Role} {id : EntityId} {e : Entity}

/-- That a store got rows, and entities for roles that had none, one for each. -/
structure Grows (language : String) (d d' : Directory) : Prop where
  made : ∃ created, d'.entities = d.entities ++ created ∧ ∀ e ∈ created, (∃ r, e.Serves language r) ∨ e.IsRow language
  roles : ∀ r : Role, r.Named → d'.carriers language r.kind r.label = d.carriers language r.kind r.label ∨
    d.carriers language r.kind r.label = [] ∧ ∃ e, d'.carriers language r.kind r.label = [e]

theorem Grows.refl (language : String) (d : Directory) : d.Grows language d :=
  ⟨⟨[], (List.append_nil _).symm, by simp⟩, fun _ _ => .inl rfl⟩

theorem Grows.trans (h : d.Grows language d') (h' : d'.Grows language d'') : d.Grows language d'' := by
  refine ⟨?_, fun r hr => ?_⟩
  · obtain ⟨created, hcreated, hall⟩ := h.made
    obtain ⟨more, hmore, hall'⟩ := h'.made
    refine ⟨created ++ more, by rw [hmore, hcreated, List.append_assoc], fun e he => ?_⟩
    exact (List.mem_append.1 he).elim (hall e) (hall' e)
  · rcases h'.roles r hr with hsame | ⟨hnone, e, hone⟩
    · rw [hsame]
      exact h.roles r hr
    · rcases h.roles r hr with hsame | ⟨-, e', hone'⟩
      · exact .inr ⟨hsame ▸ hnone, e, hone⟩
      · exact absurd (hone'.symm.trans hnone) (by simp)

theorem grows_of_settles (hr : r.Named) (h : d.Settles language r.kind r.label d') : d.Grows language d' := by
  obtain rfl | ⟨hnone, e, hkind, hlabel, hentities⟩ := h
  · exact .refl language d'
  · have hserves : e.Serves language r := ⟨hr, hkind, hlabel⟩
    refine ⟨⟨[e], hentities, by simpa using .inl ⟨r, hserves⟩⟩, fun r' hr' => ?_⟩
    rw [carriers_append hentities]
    by_cases hother : e.label? language = some r'.label
    · obtain rfl := hserves.eq hr' hother
      exact .inr ⟨hnone, e, by rw [hnone]; simp [hkind, hlabel]⟩
    · exact .inl (by simp [hother])

theorem grows_of_row (he : e.IsRow language) (h : d'.entities = d.entities ++ [e]) : d.Grows language d' := by
  refine ⟨⟨[e], h, by simpa using .inr he⟩, fun r hr => .inl ?_⟩
  rw [carriers_append h]
  simp [he.label_ne hr]

theorem Plays.grows (h : d.Plays language r id) (hgrows : d.Grows language d') : d'.Plays language r id := by
  refine ⟨h.named, h.kind, ?_⟩
  obtain ⟨labels, hcarriers⟩ := h.only
  rw [h.kind] at hcarriers
  refine ⟨labels, ?_⟩
  rw [h.kind]
  rcases hgrows.roles r h.named with hsame | ⟨hnone, -⟩
  · exact hsame.trans hcarriers
  · exact absurd (hcarriers.symm.trans hnone) (by simp)

theorem Grows.pairwise (h : d.Grows language d') {created : List Entity} (hcreated : d'.entities = d.entities ++ created) :
    created.Pairwise fun e e' => e.label? language = e'.label? language → e.IsRow language ∧ e'.IsRow language := by
  obtain ⟨created', hcreated', hall⟩ := h.made
  obtain rfl := List.append_cancel_left (hcreated.symm.trans hcreated')
  have hnodup : (d.entities ++ created).Nodup := hcreated ▸ d'.nodup_entities
  obtain ⟨-, hfresh, hapart⟩ := List.nodup_append.1 hnodup
  refine List.Pairwise.imp_of_mem (fun {e e'} he he' hne hlabel => ?_) hfresh
  -- What was made for a role is all that carries its label, since before there was nothing, or else nothing was made.
  have hrole : ∀ {e e' : Entity}, e ∈ created → e' ∈ created → e.label? language = e'.label? language →
      ∀ r, e.Serves language r → e = e' := by
    intro e e' he he' hlabel r hserves
    have hserves' : e'.Serves language r := by
      rcases hall e' he' with ⟨r', hr'⟩ | hrow
      · exact hserves.eq hr'.named (hlabel.trans hr'.label) ▸ hr'
      · exact absurd (hlabel.symm.trans hserves.label) (hrow.label_ne hserves.named)
    have hmem : ∀ {x : Entity}, x ∈ created → x.Serves language r → x ∈ d'.carriers language r.kind r.label :=
      fun hx hr => mem_carriers.2 ⟨hcreated ▸ List.mem_append_right _ hx, hr.kind, hr.label⟩
    rcases h.roles r hserves.named with hsame | ⟨-, x, hone⟩
    · have hold := (mem_carriers.1 (hsame ▸ hmem he hserves)).1
      exact absurd rfl (hapart e hold e he)
    · have hx := List.mem_singleton.1 (hone ▸ hmem he hserves)
      exact hx.trans (List.mem_singleton.1 (hone ▸ hmem he' hserves')).symm
  rcases hall e he with ⟨r, hr⟩ | hrow
  · exact absurd (hrole he he' hlabel r hr) hne
  · rcases hall e' he' with ⟨r, hr⟩ | hrow'
    · exact absurd (hrole he' he hlabel.symm r hr).symm hne
    · exact ⟨hrow, hrow'⟩

end Directory

end ClaimTables
