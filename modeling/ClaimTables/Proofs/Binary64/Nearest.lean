import Mathlib.Tactic.Ring
import ClaimTables.Binary64.Shortest

/-!
The interval of a magnitude. Whatever a magnitude admits has that magnitude as its nearest one.
-/

namespace ClaimTables

theorem nearestEven_eq {num den n : Nat} (hden : 0 < den)
    (hlow : 2 * (n * den) ≤ 2 * num + den) (hhigh : 2 * num ≤ 2 * (n * den) + den)
    (htie : n % 2 = 0 ∨ (2 * (n * den) < 2 * num + den ∧ 2 * num < 2 * (n * den) + den)) :
    nearestEven num den = n := by
  have hdiv : num / den * den + num % den = num := by rw [Nat.mul_comm, Nat.div_add_mod]
  have hmod := Nat.mod_lt num hden
  -- Only the quotient and the number after it can be as near as half a unit.
  have hnear : n = num / den ∨ n = num / den + 1 := by
    by_contra hne
    rcases Nat.lt_or_ge n (num / den) with h | h
    · have := Nat.mul_le_mul_right den h
      rw [Nat.succ_mul] at this
      omega
    · have h2 : num / den + 2 ≤ n := by omega
      have := Nat.mul_le_mul_right den h2
      rw [Nat.add_mul] at this
      omega
  unfold nearestEven
  dsimp only
  rcases hnear with rfl | rfl
  · split
    · rfl
    · split
      · omega
      · rw [if_pos (by omega)]
  · have hmul : (num / den + 1) * den = num / den * den + den := Nat.succ_mul _ _
    rw [hmul] at hlow hhigh htie
    rw [if_neg (by omega)]
    split
    · rfl
    · rw [if_neg (by omega)]

theorem Decimal.quotient_pos (d : Decimal) : 0 < d.quotient.2 := by
  unfold quotient
  split
  · exact Nat.one_pos
  · exact Nat.pow_pos (by decide)

namespace Magnitude

theorem units_pos {m : Magnitude} (hm : m ≠ zero) : 0 < m.units := by
  refine Nat.pos_of_ne_zero fun h => hm ?_
  obtain ⟨s, k, hs, hk, hn⟩ := m
  have hs0 : s = 0 := (Nat.mul_eq_zero.1 h).resolve_right (Nat.pow_pos (by decide)).ne'
  have hk0 : k = 0 := by
    simp only [Nat.pow_eq] at hn
    omega
  subst hs0 hk0
  rfl

theorem ofParts?_self (m : Magnitude) : ofParts? m.significand m.scale = some m :=
  dif_pos ⟨m.significand_lt, m.scale_le, m.normal⟩

def OnBorder (m : Magnitude) : Prop :=
  m.significand = 2 ^ 52 ∧ m.scale ≠ 0

/--
That `num / den`, in units of the least positive magnitude, lies in the interval of a magnitude. It reaches
to half a unit of the last place, below a border to a quarter.
-/
structure Near (m : Magnitude) (num den : Nat) : Prop where
  high : 2 * num ≤ 2 * (m.significand * (2 ^ m.scale * den)) + 2 ^ m.scale * den
  low : 2 * (m.significand * (2 ^ m.scale * den)) ≤ 2 * num + 2 ^ m.scale * den
  border : m.OnBorder → 4 * (m.significand * (2 ^ m.scale * den)) ≤ 4 * num + 2 ^ m.scale * den
  tie : m.significand % 2 = 0 ∨
    (2 * (m.significand * (2 ^ m.scale * den)) < 2 * num + 2 ^ m.scale * den ∧
      2 * num < 2 * (m.significand * (2 ^ m.scale * den)) + 2 ^ m.scale * den)

theorem scale_eq {num den k : Nat} (hden : 0 < den) (hlow : k = 0 ∨ 2 ^ 52 * (2 ^ k * den) ≤ num)
    (hhigh : num < 2 ^ 53 * (2 ^ k * den)) : (num / den).log2 - 52 = k := by
  rw [← Nat.mul_assoc, ← Nat.pow_add] at hlow hhigh
  have hlt : num / den < 2 ^ (53 + k) := (Nat.div_lt_iff_lt_mul hden).2 hhigh
  by_cases hzero : num / den = 0
  · rcases hlow with rfl | hlow
    · rw [hzero]
      decide
    · have hle := (Nat.le_div_iff_mul_le hden).2 hlow
      have hpos : 0 < 2 ^ (52 + k) := Nat.pow_pos (by decide)
      omega
  · have hlog : (num / den).log2 < 53 + k := (Nat.log2_lt hzero).2 hlt
    rcases hlow with rfl | hlow
    · omega
    · have hle : 52 + k ≤ (num / den).log2 :=
        (Nat.le_log2 hzero).2 ((Nat.le_div_iff_mul_le hden).2 hlow)
      omega

theorem nearest?_of_near {m : Magnitude} {num den : Nat} (hden : 0 < den)
    (h : m.Near (num * unitsOfOne) den) : nearest? num den = some m := by
  unfold nearest?
  generalize num * unitsOfOne = units at h ⊢
  have hs : m.significand < 2 ^ 53 := m.significand_lt
  have hunit : 0 < 2 ^ m.scale * den := Nat.mul_pos (Nat.pow_pos (by decide)) hden
  have hhigh := h.high
  by_cases hbin : m.scale = 0 ∨ 2 ^ 52 * (2 ^ m.scale * den) ≤ units
  · have hlt : units < 2 ^ 53 * (2 ^ m.scale * den) := by
      have := Nat.mul_le_mul_right (2 ^ m.scale * den) (Nat.le_sub_one_of_lt hs)
      omega
    have hnear : nearestEven units (den * 2 ^ m.scale) = m.significand := by
      rw [Nat.mul_comm den]
      exact nearestEven_eq hunit h.low hhigh h.tie
    simp only [Nat.pow_eq, scale_eq hden hbin hlt, hnear]
    rw [if_neg (by omega), ofParts?_self]
  · -- Below the least significand of its scale only the magnitude on the border of two scales admits anything.
    obtain ⟨hk, hbelow⟩ := not_or.1 hbin
    have hleast : m.significand = 2 ^ 52 := by
      have hnormal : 2 ^ 52 ≤ m.significand := m.normal.resolve_left hk
      have hlow := h.low
      by_contra hne
      have hgt : 2 ^ 52 + 1 ≤ m.significand := by omega
      have := Nat.mul_le_mul_right (2 ^ m.scale * den) hgt
      omega
    have hborder := h.border ⟨hleast, hk⟩
    obtain ⟨k, hk⟩ := Nat.exists_eq_succ_of_ne_zero hk
    have hdouble : 2 ^ m.scale * den = 2 * (2 ^ k * den) := by
      rw [hk, Nat.pow_succ]
      ring
    rw [hleast, hdouble] at hborder hhigh
    rw [hdouble] at hbelow hunit
    have hscale : (units / den).log2 - 52 = k := scale_eq hden (.inr (by omega)) (by omega)
    have hnear : nearestEven units (den * 2 ^ k) = 2 ^ 53 := by
      rw [Nat.mul_comm den]
      exact nearestEven_eq (by omega) (by omega) (by omega) (.inl (by decide))
    simp only [Nat.pow_eq, hscale, hnear, if_pos]
    rw [← hleast, ← Nat.succ_eq_add_one, ← hk, ofParts?_self]

theorem upper_mul (m : Magnitude) (den : Nat) :
    m.upper * den = 4 * (m.significand * (2 ^ m.scale * den)) + 2 * (2 ^ m.scale * den) := by
  simp only [upper, units, Nat.pow_eq]
  ring

theorem lower_mul_of_border {m : Magnitude} (hm : m.OnBorder) (den : Nat) :
    m.lower * den = 4 * (m.significand * (2 ^ m.scale * den)) - 2 ^ m.scale * den := by
  have hlower : m.lower = 4 * m.units - 2 ^ m.scale := if_pos hm
  rw [hlower, Nat.sub_mul, units, Nat.pow_eq]
  ring_nf

theorem lower_mul {m : Magnitude} (hm : ¬ m.OnBorder) (den : Nat) :
    m.lower * den = 4 * (m.significand * (2 ^ m.scale * den)) - 2 * (2 ^ m.scale * den) := by
  have hlower : m.lower = 4 * m.units - 2 * 2 ^ m.scale := if_neg hm
  rw [hlower, Nat.sub_mul, units, Nat.pow_eq]
  ring_nf

theorem near_of_admits {m : Magnitude} {d : Decimal} (h : m.admits d = true) :
    m.Near (d.quotient.1 * unitsOfOne) d.quotient.2 := by
  have hquarter : d.quotient.1 * quarter = 4 * (d.quotient.1 * unitsOfOne) := by
    rw [quarter]
    ring
  have heven : (2 : Nat) ^ 52 % 2 = 0 := by decide
  unfold admits at h
  dsimp only at h
  rw [hquarter, upper_mul] at h
  generalize d.quotient.1 * unitsOfOne = num at h ⊢
  by_cases hb : m.OnBorder
  · rw [if_pos (hb.1 ▸ heven), Bool.and_eq_true, decide_eq_true_eq, decide_eq_true_eq,
      lower_mul_of_border hb] at h
    exact ⟨by omega, by omega, fun _ => by omega, .inl (hb.1 ▸ heven)⟩
  · rw [lower_mul hb] at h
    split at h <;> rw [Bool.and_eq_true, decide_eq_true_eq, decide_eq_true_eq] at h
    · exact ⟨by omega, by omega, fun hb' => absurd hb' hb, .inl ‹_›⟩
    · exact ⟨by omega, by omega, fun hb' => absurd hb' hb, .inr (by omega)⟩

theorem nearest?_of_admits {m : Magnitude} {d : Decimal} (h : m.admits d = true) :
    nearest? d.quotient.1 d.quotient.2 = some m :=
  nearest?_of_near d.quotient_pos (near_of_admits h)

end Magnitude

end ClaimTables
