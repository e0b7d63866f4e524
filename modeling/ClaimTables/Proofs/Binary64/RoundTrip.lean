import Mathlib.Data.List.TakeWhile
import ClaimTables.Binary64.Printer
import ClaimTables.Proofs.Binary64.Shortest

/-!
Every number is read back from its own text: the digits are those of a decimal in its interval, and reading
gives the nearest number.
-/

namespace ClaimTables

namespace Numeral

def value (n : Numeral) : ℚ :=
  Nat.ofDigitChars 10 n.digits 0 * 10 ^ (n.exponent + 1 - n.digits.length)

theorem strip_zeros (cs : List Char) : ∃ z, cs = (cs.reverse.dropWhile (· = '0')).reverse ++ List.replicate z '0' := by
  refine ⟨(cs.reverse.takeWhile (· = '0')).length, ?_⟩
  have hzeros : cs.reverse.takeWhile (· = '0') =
      List.replicate (cs.reverse.takeWhile (· = '0')).length '0' := by
    refine List.eq_replicate_iff.2 ⟨rfl, fun c hc => ?_⟩
    simpa using List.all_eq_true.1 List.all_takeWhile c hc
  have hsplit := congrArg List.reverse (List.takeWhile_append_dropWhile (p := (· = '0')) (l := cs.reverse))
  rw [List.reverse_append, List.reverse_reverse, hzeros, List.reverse_replicate] at hsplit
  exact hsplit.symm

theorem value_ofDecimal (d : Decimal) : (ofDecimal d).value = d.value := by
  obtain ⟨z, hz⟩ := strip_zeros (Text.digits d.significand)
  have hlen := congrArg List.length hz
  have hvalue : Nat.ofDigitChars 10 (Text.digits d.significand) 0 = d.significand :=
    Nat.ofDigitChars_ten_toDigits
  rw [hz, Nat.ofDigitChars_append, Nat.ofDigitChars_replicate_zero] at hvalue
  unfold value ofDecimal
  dsimp only
  generalize (List.dropWhile (fun x => decide (x = '0')) (Text.digits d.significand).reverse).reverse = cs
    at hlen hvalue ⊢
  rw [List.length_append, List.length_replicate] at hlen
  have hexp : d.exponent + (Text.digits d.significand).length - 1 + 1 - cs.length = z + d.exponent := by
    omega
  rw [hexp, zpow_add₀ (by norm_num), zpow_natCast, Decimal.value, ← hvalue]
  push_cast
  ring

theorem isDigit_of_mem_ofDecimal {d : Decimal} {c : Char} (hc : c ∈ (ofDecimal d).digits) :
    c.isDigit = true := by
  have hmem := List.mem_reverse.1 ((List.dropWhile_suffix _).subset (List.mem_reverse.1 hc))
  exact Text.isDigit_of_mem_digits hmem

theorem whole_ne_nil (n : Numeral) : n.positional.1 ≠ [] := by
  unfold positional
  split
  · intro h
    have hlen := congrArg List.length h
    simp only [List.length_append, List.length_take, List.length_replicate, List.length_nil] at hlen
    omega
  · exact List.cons_ne_nil _ _

theorem isDigit_of_mem_positional {n : Numeral} (hn : ∀ c ∈ n.digits, c.isDigit = true) {c : Char}
    (hc : c ∈ n.positional.1 ++ n.positional.2) : c.isDigit = true := by
  unfold positional at hc
  split at hc
  · simp only [List.mem_append, List.mem_replicate] at hc
    rcases hc with (hc | ⟨_, rfl⟩) | hc
    · exact hn c (List.mem_of_mem_take hc)
    · decide
    · exact hn c (List.mem_of_mem_drop hc)
  · simp only [List.mem_append, List.mem_singleton, List.mem_replicate] at hc
    rcases hc with rfl | ⟨_, rfl⟩ | hc
    · decide
    · decide
    · exact hn c hc

theorem value_positional (n : Numeral) :
    (⟨Nat.ofDigitChars 10 (n.positional.1 ++ n.positional.2) 0, -n.positional.2.length⟩ : Decimal).value =
      n.value := by
  unfold Decimal.value value positional
  -- The point stands among the digits, behind them all, or in front of them.
  split
  · next e he =>
    rw [he]
    dsimp only
    rcases Nat.lt_or_ge e n.digits.length with hlt | hge
    · have hexp : (Int.ofNat e + 1 - n.digits.length : Int) = -((n.digits.length - (e + 1) : Nat) : Int) := by
        rw [Int.ofNat_eq_natCast]
        omega
      rw [Nat.sub_eq_zero_of_le hlt, List.replicate_zero, List.append_nil, List.take_append_drop,
        List.length_drop, hexp]
    · have hexp : (Int.ofNat e + 1 - n.digits.length : Int) = ((e + 1 - n.digits.length : Nat) : Int) := by
        rw [Int.ofNat_eq_natCast]
        omega
      rw [List.drop_eq_nil_of_le (by omega), List.take_of_length_le (by omega), List.append_nil,
        Nat.ofDigitChars_append, Nat.ofDigitChars_replicate_zero, hexp, zpow_natCast]
      simp only [List.length_nil, Nat.cast_zero, neg_zero, zpow_zero]
      push_cast
      ring
  · next e he =>
    rw [he]
    dsimp only
    have hexp : (Int.negSucc e + 1 - n.digits.length : Int) = -((e + n.digits.length : Nat) : Int) := by
      rw [Int.negSucc_eq]
      omega
    have hdigits : Nat.ofDigitChars 10 (['0'] ++ (List.replicate e '0' ++ n.digits)) 0 =
        Nat.ofDigitChars 10 n.digits 0 := by
      rw [← List.append_assoc, Nat.ofDigitChars_append]
      congr 1
      exact Nat.ofDigitChars_replicate_zero (n := e + 1)
    rw [hdigits, hexp, List.length_append, List.length_replicate]

end Numeral

theorem Decimal.ofList?_pointed {whole part : List Char} (hwhole : whole ≠ [])
    (hdigits : ∀ c ∈ whole ++ part, c.isDigit = true) :
    Decimal.ofList? (Binary64.pointed whole part) =
      some ⟨Nat.ofDigitChars 10 (whole ++ part) 0, -part.length⟩ := by
  have hnumeral : Text.numeral? (whole ++ part) = some (Nat.ofDigitChars 10 (whole ++ part) 0) := by
    refine if_pos ?_
    rw [Text.isNumeral, Bool.and_eq_true, List.all_eq_true]
    exact ⟨by simp [hwhole], hdigits⟩
  have hw : ∀ c ∈ whole, c.isDigit = true := fun c hc => hdigits c (List.mem_append_left _ hc)
  have hp : ∀ c ∈ part, c.isDigit = true := fun c hc => hdigits c (List.mem_append_right _ hc)
  have hpoint : ¬ ('.' : Char).isDigit = true := by decide
  -- Reading stops at the point because the point is no digit.
  unfold ofList? Binary64.pointed
  cases part with
  | nil =>
    have htake : whole.takeWhile Char.isDigit = whole := List.takeWhile_eq_self_iff.2 hw
    have hdrop : whole.dropWhile Char.isDigit = [] := List.dropWhile_eq_nil_iff.2 hw
    simp only [List.isEmpty_nil, if_true, htake, hdrop, fraction, hnumeral, exponent?]
    rfl
  | cons d part =>
    have htake : (whole ++ '.' :: d :: part).takeWhile Char.isDigit = whole := by
      rw [List.takeWhile_append_of_pos hw, List.takeWhile_cons_of_neg hpoint, List.append_nil]
    have hdrop : (whole ++ '.' :: d :: part).dropWhile Char.isDigit = '.' :: d :: part := by
      rw [List.dropWhile_append_of_pos hw, List.dropWhile_cons_of_neg hpoint]
    have htake' : (d :: part).takeWhile Char.isDigit = d :: part := List.takeWhile_eq_self_iff.2 hp
    have hdrop' : (d :: part).dropWhile Char.isDigit = [] := List.dropWhile_eq_nil_iff.2 hp
    simp only [List.isEmpty_cons, Bool.false_eq_true, if_false, htake, hdrop, fraction, htake', hdrop', hnumeral,
      exponent?]
    rw [Int.zero_sub]

namespace Binary64

theorem toLower_of_isDigit {c : Char} (hc : c.isDigit = true) : c.toLower = c := by
  refine dif_neg fun h => ?_
  have hle : 'A'.toNat ≤ c.toNat := UInt32.le_iff_toNat_le.1 h.1
  exact absurd (Nat.le_trans hle (Char.isDigit_iff_toNat.1 hc).2) (by decide)

theorem unsigned?_pointed (negative : Bool) {whole part : List Char} (hwhole : whole ≠ [])
    (hdigits : ∀ c ∈ whole ++ part, c.isDigit = true) :
    unsigned? negative (pointed whole part) =
      some (ofDecimal negative ⟨Nat.ofDigitChars 10 (whole ++ part) 0, -part.length⟩) := by
  obtain ⟨c, cs, rfl⟩ := List.exists_cons_of_ne_nil hwhole
  have hc : c.isDigit = true := hdigits c (by simp)
  have hhead : ((pointed (c :: cs) part).map Char.toLower).head? = some c := by
    unfold pointed
    split <;> simp [toLower_of_isDigit hc]
  have hword : ∀ w : List Char, w.head?.any Char.isDigit = false →
      (pointed (c :: cs) part).map Char.toLower ≠ w := by
    rintro w hw rfl
    rw [hhead, Option.any_some, hc] at hw
    exact Bool.noConfusion hw
  unfold unsigned?
  rw [if_neg (not_or.2 ⟨hword _ rfl, hword _ rfl⟩), if_neg (hword _ rfl),
    Decimal.ofList?_pointed hwhole hdigits, Option.map_some]

variable {m : Magnitude} {d : Decimal}

theorem ten_zpow_le_value (hd : d.significand ≠ 0) :
    (10 : ℚ) ^ ((Text.digits d.significand).length + d.exponent - 1) ≤ d.value := by
  have hlen : 1 ≤ (Text.digits d.significand).length := Nat.length_toDigits_pos
  have hpow := Decimal.ten_pow_length_le hd
  have hexp : ((Text.digits d.significand).length + d.exponent - 1 : Int) =
      ((Text.digits d.significand).length - 1 : Nat) + d.exponent := by omega
  rw [hexp, zpow_add₀ (by norm_num), zpow_natCast, Decimal.value]
  exact mul_le_mul_of_nonneg_right (by exact_mod_cast hpow) (zpow_nonneg (by norm_num) _)

theorem value_lt_ten_zpow (d : Decimal) :
    d.value < (10 : ℚ) ^ ((Text.digits d.significand).length + d.exponent : Int) := by
  have hpow := Decimal.lt_ten_pow_length d.significand
  rw [zpow_add₀ (by norm_num), zpow_natCast, Decimal.value]
  exact mul_lt_mul_of_pos_right (by exact_mod_cast hpow) (zpow_pos (by norm_num) _)

theorem places_le (hadmits : m.admits d = true) (hd : d.significand ≠ 0) {n : Nat}
    (hn : m.upper ≤ 10 ^ n * Magnitude.quarter) : (Text.digits d.significand).length + d.exponent ≤ n + 1 := by
  have hq : (0 : ℚ) < Magnitude.quarter := by exact_mod_cast Magnitude.quarter_pos
  have hvalue : d.value ≤ (10 : ℚ) ^ (n : Int) := by
    refine le_of_mul_le_mul_right ((Magnitude.le_of_admits hadmits).2.trans ?_) hq
    rw [zpow_natCast]
    exact_mod_cast hn
  have hexp := (zpow_le_zpow_iff_right₀ (by norm_num : (1 : ℚ) < 10)).1 ((ten_zpow_le_value hd).trans hvalue)
  omega

theorem lt_places (hadmits : m.admits d = true) {n : Nat} (hn : Magnitude.quarter ≤ m.lower * 10 ^ n) :
    -(n : Int) < (Text.digits d.significand).length + d.exponent := by
  have hq : (0 : ℚ) < Magnitude.quarter := by exact_mod_cast Magnitude.quarter_pos
  have hvalue : (10 : ℚ) ^ (-(n : Int)) ≤ d.value := by
    refine le_of_mul_le_mul_right (le_trans ?_ (Magnitude.le_of_admits hadmits).1) hq
    rw [zpow_neg, zpow_natCast, inv_mul_le_iff₀ (by positivity), mul_comm]
    exact_mod_cast hn
  exact (zpow_lt_zpow_iff_right₀ (by norm_num : (1 : ℚ) < 10)).1 (hvalue.trans_lt (value_lt_ten_zpow d))

theorem significand_ne_zero (hm : m ≠ .zero) (h : m.admits d = true) : d.significand ≠ 0 := by
  intro hzero
  have hvalue : d.value = 0 := by
    rw [Decimal.value, hzero, Nat.cast_zero, zero_mul]
  have hle := (Magnitude.le_of_admits h).1
  rw [hvalue, zero_mul] at hle
  exact (Magnitude.lower_pos hm).ne' (Nat.le_zero.1 (by exact_mod_cast hle))

theorem places_bounds (hm : m ≠ .zero) (h : m.admits d = true) :
    -400 < ((Text.digits d.significand).length + d.exponent : Int) ∧
      ((Text.digits d.significand).length + d.exponent : Int) ≤ 400 := by
  obtain ⟨n, hn, hupper⟩ := m.exists_upper_le
  obtain ⟨k, hk, hquarter⟩ := Magnitude.exists_quarter_le
  have hhigh := places_le h (significand_ne_zero hm h) hupper
  have hlow := lt_places h (hquarter.trans (Nat.le_mul_of_pos_left _ (Magnitude.lower_pos hm)))
  clear hupper hquarter
  omega

theorem ofDecimal_of_admits (negative : Bool) (hm : m ≠ .zero) (h : m.admits d = true) :
    ofDecimal negative d = .finite negative m := by
  obtain ⟨hlow, hhigh⟩ := places_bounds hm h
  have hzero := significand_ne_zero hm h
  unfold ofDecimal
  dsimp only
  rw [if_neg (not_or.2 ⟨hzero, not_lt.2 hlow.le⟩), if_neg (not_lt.2 hhigh), Magnitude.nearest?_of_admits h]

theorem unsigned?_plainDigits (negative : Bool) (m : Magnitude) :
    unsigned? negative (plainDigits m) = some (.finite negative m) := by
  unfold plainDigits
  split
  · next hm =>
    rw [hm]
    cases negative <;> rfl
  · next hm =>
    have hdigits : ∀ c ∈ (Numeral.ofDecimal (m.shortest .upper)).digits, c.isDigit = true :=
      fun c hc => Numeral.isDigit_of_mem_ofDecimal hc
    have hvalue := (Numeral.value_positional _).trans (Numeral.value_ofDecimal (m.shortest .upper))
    have hread := ofDecimal_of_admits negative hm (Magnitude.admits_of_value_eq (Magnitude.admits_shortest .upper hm) hvalue)
    rw [unsigned?_pointed negative (Numeral.whole_ne_nil _) fun c => Numeral.isDigit_of_mem_positional hdigits, hread]

theorem plainDigits_eq_cons (m : Magnitude) : ∃ c cs, plainDigits m = c :: cs ∧ c.isDigit = true := by
  unfold plainDigits
  split
  · exact ⟨'0', [], rfl, rfl⟩
  · have hdigits : ∀ c ∈ (Numeral.ofDecimal (m.shortest .upper)).digits, c.isDigit = true :=
      fun c hc => Numeral.isDigit_of_mem_ofDecimal hc
    generalize Numeral.ofDecimal (m.shortest .upper) = n at hdigits ⊢
    obtain ⟨c, cs, hwhole⟩ := List.exists_cons_of_ne_nil n.whole_ne_nil
    have hc : c.isDigit = true := Numeral.isDigit_of_mem_positional hdigits (by simp [hwhole])
    dsimp only
    rw [hwhole, pointed]
    split
    · exact ⟨c, _, rfl, hc⟩
    · exact ⟨c, _, rfl, hc⟩

theorem ofList?_of_isDigit {c : Char} (hc : c.isDigit = true) (cs : List Char) :
    ofList? (c :: cs) = unsigned? false (c :: cs) := by
  unfold ofList?
  split
  · next heq =>
    obtain ⟨rfl, _⟩ := List.cons.inj heq
    exact absurd hc (by decide)
  · next heq =>
    obtain ⟨rfl, _⟩ := List.cons.inj heq
    exact absurd hc (by decide)
  · rfl

theorem ofList?_toList (x : Binary64) : ofList? x.toList = some x := by
  cases x with
  | nan => rfl
  | infinite negative => cases negative <;> rfl
  | finite negative m =>
    have hread := unsigned?_plainDigits negative m
    cases negative with
    | true => exact hread
    | false =>
      obtain ⟨c, cs, heq, hc⟩ := plainDigits_eq_cons m
      rw [toList, signed, if_neg Bool.false_ne_true, List.nil_append, heq, ofList?_of_isDigit hc, ← heq, hread]

end Binary64

end ClaimTables
