import Mathlib.Algebra.Order.Floor.Semiring
import Mathlib.Data.Rat.Cast.Order
import Mathlib.Tactic.FieldSimp
import Mathlib.Tactic.Linarith
import Mathlib.Tactic.NormNum
import Mathlib.Tactic.Positivity
import Mathlib.Tactic.Ring
import ClaimTables.Proofs.Binary64.Nearest

/-!
The shortest decimal of a magnitude is one that the magnitude admits: with seventeen digits one of the two
multiples of the power of ten next to a magnitude lies in its interval.
-/

namespace ClaimTables

namespace Decimal

def value (d : Decimal) : ℚ :=
  d.significand * 10 ^ d.exponent

theorem value_eq_quotient (d : Decimal) : d.value = d.quotient.1 / d.quotient.2 := by
  obtain ⟨s, e⟩ := d
  cases e with
  | ofNat n => simp [value, quotient]
  | negSucc n => simp [value, quotient, zpow_negSucc, div_eq_mul_inv]

theorem value_succ (d : Decimal) : d.succ.value = d.value + 10 ^ d.exponent := by
  simp only [value, succ]
  push_cast
  ring

theorem exponent_floor (num den : Nat) (e : Int) : (floor num den e).exponent = e := by
  cases e <;> rfl

variable {num den : Nat}

theorem ten_zpow_eq (e : Int) : (10 : ℚ) ^ e = (quotient ⟨1, e⟩).1 / (quotient ⟨1, e⟩).2 := by
  rw [← value_eq_quotient]
  simp [value]

theorem floor_eq (e : Int) :
    floor num den e = ⟨num * (quotient ⟨1, e⟩).2 / (den * (quotient ⟨1, e⟩).1), e⟩ := by
  cases e <;> simp [floor, quotient]

theorem ten_pos (e : Int) : 0 < (quotient ⟨1, e⟩).1 := by
  cases e <;> simp [quotient]

theorem value_floor_le (hden : 0 < den) (e : Int) : (floor num den e).value ≤ num / den := by
  have hb := quotient_pos ⟨1, e⟩
  rw [floor_eq, value, ten_zpow_eq]
  generalize (quotient ⟨1, e⟩).1 = a
  generalize (quotient ⟨1, e⟩).2 = b at hb ⊢
  have hle := Nat.div_mul_le_self (num * b) (den * a)
  rw [← mul_div_assoc, div_le_div_iff₀ (by exact_mod_cast hb) (by exact_mod_cast hden)]
  calc ((num * b / (den * a) : Nat) : ℚ) * a * den
      = ((num * b / (den * a) * (den * a) : Nat) : ℚ) := by
        push_cast
        ring
    _ ≤ ((num * b : Nat) : ℚ) := by exact_mod_cast hle
    _ = num * b := by push_cast; rfl

theorem lt_value_succ_floor (hden : 0 < den) (e : Int) : (num / den : ℚ) < (floor num den e).succ.value := by
  have ha := ten_pos e
  have hb := quotient_pos ⟨1, e⟩
  rw [floor_eq, value, succ, ten_zpow_eq]
  generalize (quotient ⟨1, e⟩).1 = a at ha ⊢
  generalize (quotient ⟨1, e⟩).2 = b at hb ⊢
  have hlt := Nat.lt_mul_of_div_lt (Nat.lt_succ_self (num * b / (den * a))) (Nat.mul_pos hden ha)
  rw [← mul_div_assoc, div_lt_div_iff₀ (by exact_mod_cast hden) (by exact_mod_cast hb)]
  calc (num * b : ℚ) = ((num * b : Nat) : ℚ) := by push_cast; rfl
    _ < (((num * b / (den * a)).succ * (den * a) : Nat) : ℚ) := by exact_mod_cast hlt
    _ = ((num * b / (den * a) + 1 : Nat) : ℚ) * a * den := by
        push_cast
        ring

theorem lt_ten_pow_length (n : Nat) : n < 10 ^ (Text.digits n).length :=
  (Nat.length_toDigits_le_iff (by decide) Nat.length_toDigits_pos).1 (Nat.le_refl _)

theorem ten_pow_length_le {n : Nat} (hn : n ≠ 0) : 10 ^ ((Text.digits n).length - 1) ≤ n := by
  have hlen : 1 ≤ (Text.digits n).length := Nat.length_toDigits_pos
  by_cases hone : (Text.digits n).length = 1
  · rw [hone]
    exact Nat.pos_of_ne_zero hn
  · refine Nat.not_lt.1 fun hlt => ?_
    have := (Nat.length_toDigits_le_iff (b := 10) (by decide) (by omega)).2 hlt
    rw [Text.digits] at this hlen
    omega

theorem ten_zpow_leading_le (hnum : 0 < num) (hden : 0 < den) : (10 : ℚ) ^ leading num den ≤ num / den := by
  have hd : (0 : ℚ) < den := by exact_mod_cast hden
  unfold leading
  split
  · next hle =>
    have hq : num / den ≠ 0 := (Nat.div_pos hle hden).ne'
    have hlen : 1 ≤ (Text.digits (num / den)).length := Nat.length_toDigits_pos
    have hpow := (Nat.le_div_iff_mul_le hden).1 (ten_pow_length_le hq)
    rw [← Nat.cast_one, ← Nat.cast_sub hlen, zpow_natCast, le_div_iff₀ hd]
    exact_mod_cast hpow
  · next hlt =>
    have hceil := lt_ten_pow_length ((den + num - 1) / num - 1)
    generalize (Text.digits ((den + num - 1) / num - 1)).length = l at hceil ⊢
    have hden_le : den ≤ num * 10 ^ l := by
      have hq : (den + num - 1) / num ≤ 10 ^ l := by omega
      have := Nat.lt_mul_of_div_lt (Nat.lt_succ_of_le hq) hnum
      rw [Nat.succ_mul] at this
      rw [Nat.mul_comm]
      omega
    rw [zpow_neg, zpow_natCast, inv_eq_one_div, div_le_div_iff₀ (by positivity) hd, one_mul]
    exact_mod_cast hden_le

end Decimal

namespace Magnitude

theorem unitsOfOne_pos : 0 < unitsOfOne := by
  decide +kernel

theorem quarter_pos : 0 < quarter :=
  Nat.mul_pos (by decide) unitsOfOne_pos

theorem admits_iff {m : Magnitude} {d : Decimal} : m.admits d = true ↔
    if m.significand % 2 = 0 then (m.lower : ℚ) ≤ d.value * quarter ∧ d.value * quarter ≤ m.upper
    else (m.lower : ℚ) < d.value * quarter ∧ d.value * quarter < m.upper := by
  have hden : (0 : ℚ) < d.quotient.2 := by exact_mod_cast d.quotient_pos
  have hvalue : d.value * quarter = (d.quotient.1 * quarter : Nat) / d.quotient.2 := by
    rw [d.value_eq_quotient]
    push_cast
    ring
  rw [hvalue]
  simp only [le_div_iff₀ hden, div_le_iff₀ hden, lt_div_iff₀ hden, div_lt_iff₀ hden]
  unfold admits
  dsimp only
  split
  · rw [Bool.and_eq_true, decide_eq_true_eq, decide_eq_true_eq]
    norm_cast
  · rw [Bool.and_eq_true, decide_eq_true_eq, decide_eq_true_eq]
    norm_cast

theorem admits_of_value_eq {m : Magnitude} {d e : Decimal} (h : m.admits d = true) (hvalue : e.value = d.value) :
    m.admits e = true := by
  rw [admits_iff, hvalue]
  exact admits_iff.1 h

theorem admits_of_lt {m : Magnitude} {d : Decimal} (hlow : (m.lower : ℚ) < d.value * quarter)
    (hhigh : d.value * quarter < m.upper) : m.admits d = true := by
  rw [admits_iff]
  split
  · exact ⟨hlow.le, hhigh.le⟩
  · exact ⟨hlow, hhigh⟩

theorem le_of_admits {m : Magnitude} {d : Decimal} (h : m.admits d = true) :
    (m.lower : ℚ) ≤ d.value * quarter ∧ d.value * quarter ≤ m.upper := by
  have hends := admits_iff.1 h
  split at hends
  · exact hends
  · exact ⟨hends.1.le, hends.2.le⟩

theorem width (m : Magnitude) : 4 * m.units < (m.upper - m.lower) * 10 ^ 16 := by
  have hs : m.significand ≤ 2 ^ 53 - 1 := Nat.le_sub_one_of_lt m.significand_lt
  have hunit : 0 < 2 ^ m.scale := Nat.pow_pos (by decide)
  have hunits := Nat.mul_le_mul_right (2 ^ m.scale) hs
  by_cases hb : m.OnBorder
  · have hlower := lower_mul_of_border hb 1
    have hupper := m.upper_mul 1
    rw [hb.1] at hlower hupper
    rw [units, hb.1, Nat.pow_eq]
    omega
  · have hlower := lower_mul hb 1
    have hupper := m.upper_mul 1
    simp only [Nat.mul_one] at hlower hupper
    rw [units, Nat.pow_eq]
    omega

theorem lower_le (m : Magnitude) : m.lower ≤ 4 * m.units := by
  unfold lower
  split <;> exact Nat.sub_le _ _

theorem lt_upper (m : Magnitude) : 4 * m.units < m.upper :=
  Nat.lt_add_of_pos_right (Nat.mul_pos (by decide) (Nat.pow_pos (by decide)))

theorem lower_pos {m : Magnitude} (hm : m ≠ zero) : 0 < m.lower := by
  have hunits := units_pos hm
  have hunit : 0 < 2 ^ m.scale := Nat.pow_pos (by decide)
  have hle : 2 ^ m.scale ≤ m.units := Nat.le_mul_of_pos_left _ (Nat.pos_of_mul_pos_right hunits)
  unfold lower
  split
  · simp only [Nat.pow_eq]
    omega
  · simp only [Nat.pow_eq]
    omega

theorem exists_upper_le (m : Magnitude) : ∃ n < 400, m.upper ≤ 10 ^ n * quarter := by
  refine ⟨399, by decide, ?_⟩
  have hs : m.significand ≤ 2 ^ 53 := Nat.le_of_lt m.significand_lt
  have hunit : 2 ^ m.scale ≤ 2 ^ 2045 := pow_le_pow_right₀ (by decide) m.scale_le
  have hclosed : 4 * (2 ^ 53 * 2 ^ 2045) + 2 * 2 ^ 2045 ≤ 10 ^ 399 * quarter := by decide +kernel
  refine Nat.le_trans ?_ hclosed
  generalize 2 ^ 2045 = top at hunit ⊢
  exact Nat.add_le_add (Nat.mul_le_mul_left 4 (Nat.mul_le_mul hs hunit)) (Nat.mul_le_mul_left 2 hunit)

theorem exists_quarter_le : ∃ n ≤ 400, quarter ≤ 10 ^ n :=
  ⟨400, Nat.le_refl _, by decide +kernel⟩

theorem admits_floor_or_succ (m : Magnitude) {e : Int} (he : (10 : ℚ) ^ e * 10 ^ 16 ≤ m.units / unitsOfOne) :
    m.admits (.floor m.units unitsOfOne e) = true ∨ m.admits (Decimal.floor m.units unitsOfOne e).succ = true := by
  have hone : (0 : ℚ) < unitsOfOne := by exact_mod_cast unitsOfOne_pos
  have hquarter : (quarter : ℚ) = 4 * unitsOfOne := by rw [quarter, Nat.cast_mul, Nat.cast_ofNat]
  have hvalue : (m.units / unitsOfOne : ℚ) * quarter = 4 * m.units := by
    rw [hquarter]
    field_simp
  have hq : (0 : ℚ) < quarter := by exact_mod_cast quarter_pos
  have hle : (Decimal.floor m.units unitsOfOne e).value ≤ m.units / unitsOfOne :=
    Decimal.value_floor_le unitsOfOne_pos e
  have hlt : (m.units / unitsOfOne : ℚ) < (Decimal.floor m.units unitsOfOne e).succ.value :=
    Decimal.lt_value_succ_floor unitsOfOne_pos e
  have hfloor := mul_le_mul_of_nonneg_right hle hq.le
  have hsucc := mul_lt_mul_of_pos_right hlt hq
  have hstep := mul_le_mul_of_nonneg_right he hq.le
  rw [hvalue] at hfloor hsucc hstep
  have hlower : (m.lower : ℚ) ≤ 4 * m.units := by exact_mod_cast m.lower_le
  have hupper : (4 * m.units : ℚ) < m.upper := by exact_mod_cast m.lt_upper
  have hwidth : (4 * m.units : ℚ) < (m.upper - m.lower) * 10 ^ 16 := by
    have h := m.width
    rw [← Nat.cast_sub (by have := m.lower_le; have := m.lt_upper; omega)]
    exact_mod_cast h
  -- If neither neighbour is admitted, the whole interval lies between them, and it is wider than their distance.
  by_contra hnone
  obtain ⟨hbelow, habove⟩ := not_or.1 hnone
  have hbelow' : (Decimal.floor m.units unitsOfOne e).value * quarter ≤ m.lower :=
    not_lt.1 fun h => hbelow (admits_of_lt h (hfloor.trans_lt hupper))
  have habove' : (m.upper : ℚ) ≤ (Decimal.floor m.units unitsOfOne e).succ.value * quarter :=
    not_lt.1 fun h => habove (admits_of_lt (hlower.trans_lt hsucc) h)
  rw [Decimal.value_succ, Decimal.exponent_floor] at habove'
  linarith

theorem nearer_eq (tie : Tie) (m : Magnitude) (below : Decimal) :
    nearer tie m below = below ∨ nearer tie m below = below.succ := by
  unfold nearer
  split
  dsimp only
  split
  · exact .inl rfl
  · split
    · exact .inr rfl
    · cases tie with
      | upper => exact .inr rfl
      | even =>
        dsimp only
        split
        · exact .inl rfl
        · exact .inr rfl

theorem admits_search_succ {tie : Tie} {m : Magnitude} {top : Int} {left count : Nat}
    (h : m.admits (.floor m.units unitsOfOne (top - count + 1)) = true ∨
      m.admits (Decimal.floor m.units unitsOfOne (top - count + 1)).succ = true ∨
      m.admits (search tie m top left (count + 1)) = true) :
    m.admits (search tie m top (left + 1) count) = true := by
  rw [search]
  split
  · next hbelow habove =>
    rcases nearer_eq tie m (.floor m.units unitsOfOne (top - count + 1)) with heq | heq
    · rw [heq, hbelow]
    · rw [heq, habove]
  · next hbelow habove => exact hbelow
  · next hbelow habove => exact habove
  · next hbelow habove =>
    rw [hbelow, habove] at h
    exact (h.resolve_left Bool.false_ne_true).resolve_left Bool.false_ne_true

theorem admits_search (tie : Tie) {m : Magnitude} {top : Int} (htop : (10 : ℚ) ^ top ≤ m.units / unitsOfOne)
    (left count : Nat) (hcount : left + count = 17) : m.admits (search tie m top (left + 1) count) = true := by
  induction left generalizing count with
  | zero =>
    have he : (10 : ℚ) ^ (top - count + 1) * 10 ^ 16 ≤ m.units / unitsOfOne := by
      refine le_trans (le_of_eq ?_) htop
      rw [← zpow_natCast, ← zpow_add₀ (by norm_num)]
      congr 1
      omega
    rcases m.admits_floor_or_succ he with h | h
    · exact admits_search_succ (.inl h)
    · exact admits_search_succ (.inr (.inl h))
  | succ left ih => exact admits_search_succ (.inr (.inr (ih (count + 1) (by omega))))

theorem admits_shortest (tie : Tie) {m : Magnitude} (hm : m ≠ zero) : m.admits (m.shortest tie) = true :=
  admits_search tie (Decimal.ten_zpow_leading_le (units_pos hm) unitsOfOne_pos) 16 1 rfl

end Magnitude

end ClaimTables
