import Mathlib.Data.List.DropRight
import ClaimTables.Text.Blank
import ClaimTables.Text.Search

/-!
What is left of a text when the blanks around it are dropped, where a piece of a text is first found in it, and what stands in
texts that are joined.
-/

namespace ClaimTables

section Lists

variable {α : Type} {p : α → Bool} {front back : List α}

theorem rdropWhile_append_of_ends (hne : back ≠ []) (h : back.rdropWhile p = back) :
    (front ++ back).rdropWhile p = front ++ back := by
  refine List.rdropWhile_eq_self_iff.2 fun hl => ?_
  rw [List.getLast_append_of_ne_nil hl hne]
  exact List.rdropWhile_eq_self_iff.1 h hne

theorem rdropWhile_append_of_self (h : front.rdropWhile p = front) :
    (front ++ back).rdropWhile p = front ++ back.rdropWhile p := by
  induction back using List.reverseRecOn with
  | nil => rw [List.append_nil, List.rdropWhile_nil, List.append_nil, h]
  | append_singleton back last ih =>
    rw [← List.append_assoc, List.rdropWhile_concat, List.rdropWhile_concat]
    split
    · exact ih
    · exact List.append_assoc ..

theorem mem_intercalate {sep : List α} {a : α} (h : a ∉ sep) {parts : List (List α)} :
    a ∈ sep.intercalate parts ↔ ∃ part ∈ parts, a ∈ part := by
  induction parts with
  | nil => simp
  | cons part rest ih =>
    cases rest with
    | nil => simp
    | cons next rest =>
      rw [List.intercalate_cons_cons, List.mem_append, List.mem_append, ih, or_iff_left h]
      exact (List.exists_mem_cons_iff (a ∈ ·) part (next :: rest)).symm

theorem rdropWhile_intercalate {sep : List α} {parts : List (List α)} (hne : parts ≠ [])
    (h : ∀ part ∈ parts, part ≠ [] ∧ part.rdropWhile p = part) :
    sep.intercalate parts ≠ [] ∧ (sep.intercalate parts).rdropWhile p = sep.intercalate parts := by
  induction parts with
  | nil => exact absurd rfl hne
  | cons part rest ih =>
    rw [List.forall_mem_cons] at h
    cases rest with
    | nil =>
      rw [List.intercalate_singleton]
      exact h.1
    | cons next rest =>
      obtain ⟨hnonempty, hself⟩ := ih (List.cons_ne_nil _ _) h.2
      rw [List.intercalate_cons_cons]
      exact ⟨by simp [h.1.1], rdropWhile_append_of_ends hnonempty hself⟩

end Lists

namespace Text

variable {cs front back blanks : List Char}

theorem trimList_eq (cs : List Char) : trimList cs = (cs.dropWhile isBlank).rdropWhile isBlank := rfl

theorem trimList_blank_append (h : ∀ c ∈ blanks, isBlank c = true) : trimList (blanks ++ cs) = trimList cs := by
  rw [trimList, trimList, List.dropWhile_append_of_pos h]

theorem trimList_append_blank (h : ∀ c ∈ blanks, isBlank c = true) : trimList (cs ++ blanks) = trimList cs := by
  have hreversed : ∀ c ∈ blanks.reverse, isBlank c = true := fun c hc => h c (List.mem_reverse.1 hc)
  rw [trimList_eq, trimList_eq, List.dropWhile_append]
  split
  · next hempty => rw [List.isEmpty_iff.1 hempty, List.dropWhile_eq_nil_iff.2 h]
  · rw [List.rdropWhile, List.reverse_append, List.dropWhile_append_of_pos hreversed, ← List.rdropWhile]

theorem trimList_rdropWhile (cs : List Char) : trimList (cs.rdropWhile isBlank) = trimList cs := by
  have hblank : ∀ c ∈ cs.rtakeWhile isBlank, isBlank c = true := fun c hc => List.mem_rtakeWhile_imp hc
  calc trimList (cs.rdropWhile isBlank) = trimList (cs.rdropWhile isBlank ++ cs.rtakeWhile isBlank) :=
        (trimList_append_blank hblank).symm
    _ = trimList cs := by rw [List.rdropWhile_append_rtakeWhile]

theorem trimList_eq_self_iff : trimList cs = cs ↔ cs.dropWhile isBlank = cs ∧ cs.rdropWhile isBlank = cs := by
  constructor
  · intro h
    have hfront : cs.dropWhile isBlank = cs := by
      refine (List.dropWhile_suffix isBlank).eq_of_length_le ?_
      calc cs.length = (trimList cs).length := by rw [h]
        _ ≤ (cs.dropWhile isBlank).length := (List.rdropWhile_prefix isBlank (cs.dropWhile isBlank)).length_le
    exact ⟨hfront, by rwa [trimList_eq, hfront] at h⟩
  · rintro ⟨hfront, hback⟩
    rw [trimList_eq, hfront, hback]

theorem trimList_append (hne : front ≠ []) (h : trimList front = front) :
    trimList (front ++ back) = front ++ back.rdropWhile isBlank := by
  obtain ⟨hfront, hback⟩ := trimList_eq_self_iff.1 h
  rw [trimList_eq, List.dropWhile_append, hfront, if_neg (by simpa using hne), rdropWhile_append_of_self hback]

theorem trimList_word_append (hne : front ≠ []) (hfront : ∀ c ∈ front, isBlank c = false)
    (hback : back.rdropWhile isBlank = back) : trimList (front ++ back) = front ++ back := by
  obtain ⟨first, rest, rfl⟩ := List.exists_cons_of_ne_nil hne
  have hbegins : ((first :: rest) ++ back).dropWhile isBlank = (first :: rest) ++ back :=
    List.dropWhile_cons_of_neg (by simp [hfront first List.mem_cons_self])
  have hends : (first :: rest).rdropWhile isBlank = first :: rest :=
    List.rdropWhile_eq_self_iff.2 fun hl => by simp [hfront _ (List.getLast_mem hl)]
  rw [trimList_eq, hbegins, rdropWhile_append_of_self hends, hback]

theorem trimList_word (h : ∀ c ∈ cs, isBlank c = false) : trimList cs = cs := by
  by_cases hne : cs = []
  · rw [hne]
    rfl
  · simpa using trimList_word_append hne h (List.rdropWhile_nil isBlank)

theorem head?_of_rdropWhile {c : Char} (hblanks : ∀ c ∈ blanks, isBlank c = true) (hc : isBlank c = false)
    (h : ((blanks ++ cs).rdropWhile isBlank).head? = some c) : cs.head? = some c := by
  obtain ⟨dropped, happend⟩ := List.rdropWhile_prefix isBlank (blanks ++ cs)
  have hfirst : (blanks ++ cs).head? = some c := by
    rw [← happend, List.head?_append, h]
    rfl
  cases blanks with
  | nil => exact hfirst
  | cons blank rest =>
    obtain rfl := Option.some.inj hfirst
    exact absurd ((hblanks blank List.mem_cons_self).symm.trans hc) nofun

theorem cut?_of_not_mem {first : Char} {piece : List Char} (h : first ∉ front) :
    cut? (first :: piece) (front ++ first :: piece ++ back) = some (front, back) := by
  induction front with
  | nil =>
    rw [List.nil_append, List.cons_append, cut?, afterFront?_eq_some.2 (List.cons_append ..).symm]
  | cons c rest ih =>
    rw [List.mem_cons, not_or] at h
    rw [List.cons_append, List.cons_append, cut?, afterFront?, if_neg h.1]
    dsimp only
    rw [ih h.2]
    rfl

end Text

end ClaimTables
