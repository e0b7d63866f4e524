/-!
Looking for a piece of a text: at its front, at its end, or at the first place where it occurs.
-/

namespace ClaimTables.Text

def afterFront? : (piece cs : List Char) → Option (List Char)
  | [], cs => some cs
  | p :: piece, c :: cs => if p = c then afterFront? piece cs else none
  | _ :: _, [] => none

def beforeEnd? (piece cs : List Char) : Option (List Char) :=
  (afterFront? piece.reverse cs.reverse).map List.reverse

def cut? (piece : List Char) : List Char → Option (List Char × List Char)
  | [] => (afterFront? piece []).map ([], ·)
  | c :: cs =>
    match afterFront? piece (c :: cs) with
    | some rest => some ([], rest)
    | none => (cut? piece cs).map fun parts => (c :: parts.1, parts.2)

theorem afterFront?_eq_some {piece cs rest : List Char} :
    afterFront? piece cs = some rest ↔ cs = piece ++ rest := by
  induction piece generalizing cs with
  | nil => simp [afterFront?, eq_comm]
  | cons p piece ih =>
    cases cs with
    | nil => simp [afterFront?]
    | cons c cs => by_cases h : p = c <;> simp [afterFront?, h, ih, eq_comm]

theorem beforeEnd?_eq_some {piece cs front : List Char} :
    beforeEnd? piece cs = some front ↔ cs = front ++ piece := by
  simp only [beforeEnd?, Option.map_eq_some_iff, afterFront?_eq_some]
  constructor
  · rintro ⟨r, h, rfl⟩
    have := congrArg List.reverse h
    simpa using this
  · rintro rfl
    exact ⟨front.reverse, by simp, by simp⟩

theorem append_of_cut? {piece cs front back : List Char} (h : cut? piece cs = some (front, back)) :
    cs = front ++ piece ++ back := by
  induction cs generalizing front with
  | nil =>
    simp only [cut?, Option.map_eq_some_iff, afterFront?_eq_some] at h
    obtain ⟨r, hr, hp⟩ := h
    simp_all
  | cons c cs ih =>
    simp only [cut?] at h
    split at h
    · next rest hr =>
      rw [afterFront?_eq_some] at hr
      simp_all
    · obtain ⟨p, hp, he⟩ := Option.map_eq_some_iff.1 h
      obtain ⟨rfl, rfl⟩ := Prod.mk.inj he
      rw [ih hp]
      simp

end ClaimTables.Text
