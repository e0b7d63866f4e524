/-!
Lists of entries in ascending order of their keys, one entry a key. Keys are ordered by code point.
-/

namespace ClaimTables.Keyed

variable {α : Type}

def insert (key : String) (value : α) : List (String × α) → List (String × α)
  | [] => [(key, value)]
  | entry :: rest =>
    if key < entry.1 then (key, value) :: entry :: rest
    else if key = entry.1 then (key, value) :: rest
    else entry :: insert key value rest

def ofList (entries : List (String × α)) : List (String × α) :=
  entries.foldl (fun kept entry => insert entry.1 entry.2 kept) []

theorem mem_of_lookup {κ : Type} [BEq κ] [LawfulBEq κ] {entries : List (κ × α)} {key : κ} {value : α}
    (h : entries.lookup key = some value) : (key, value) ∈ entries := by
  obtain ⟨before, after, rfl, -⟩ := List.lookup_eq_some_iff.1 h
  exact List.mem_append_right before List.mem_cons_self

theorem lookup_insert (key other : String) (value : α) (entries : List (String × α)) :
    (insert key value entries).lookup other =
      if other = key then some value else entries.lookup other := by
  induction entries with
  | nil =>
    by_cases h : other = key
    · simp [insert, h]
    · simp [insert, List.lookup_cons, beq_eq_false_iff_ne.2 h, h]
  | cons entry rest ih =>
    obtain ⟨k, v⟩ := entry
    by_cases h : other = key
    · subst h
      simp only [insert]
      split
      · simp
      · split
        · simp
        · next hk =>
          have : (other == k) = false := beq_eq_false_iff_ne.2 hk
          simp [List.lookup_cons, this, ih]
    · simp only [insert, if_neg h] at ih ⊢
      split
      · simp [List.lookup_cons, beq_eq_false_iff_ne.2 h]
      · split
        · next hk =>
          subst hk
          simp [List.lookup_cons, beq_eq_false_iff_ne.2 h]
        · cases hb : other == k <;> simp [List.lookup_cons, hb, ih]

theorem mem_insert {key : String} {value : α} {entries : List (String × α)} {e : String × α}
    (h : e ∈ insert key value entries) : e = (key, value) ∨ e ∈ entries := by
  induction entries with
  | nil => exact .inl (List.mem_singleton.1 h)
  | cons first rest ih =>
    rw [insert] at h
    split at h
    · exact List.mem_cons.1 h
    · split at h
      · exact (List.mem_cons.1 h).imp_right (List.mem_cons_of_mem _)
      · rcases List.mem_cons.1 h with rfl | h
        · exact .inr List.mem_cons_self
        · exact (ih h).imp_right (List.mem_cons_of_mem _)

theorem mem_ofList {entries : List (String × α)} {e : String × α} (h : e ∈ ofList entries) :
    e ∈ entries := by
  have hfold : ∀ kept : List (String × α),
      e ∈ entries.foldl (fun kept entry => insert entry.1 entry.2 kept) kept → e ∈ entries ∨ e ∈ kept := by
    clear h
    induction entries with
    | nil => exact fun kept h => .inr h
    | cons first rest ih =>
      intro kept h
      rcases ih _ h with h | h
      · exact .inl (List.mem_cons_of_mem _ h)
      · rcases mem_insert h with rfl | h
        · exact .inl List.mem_cons_self
        · exact .inr h
  exact (hfold [] h).resolve_right List.not_mem_nil

end ClaimTables.Keyed
