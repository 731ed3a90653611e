import RecordQuery.Proofs.Double.Quotient

/-!
How far rounded results are from exact ones. A sum or a product of finite doubles is off by at most
the 2^53rd part of the exact one, or half of the least double. Where the exact one comes within the
2^54th part of a double, the result is that double.
-/

namespace RecordQuery.Double

variable {x y : Double}

theorem isFinite_neg (hx : x.isFinite = true) : x.neg.isFinite = true := by
  cases x with
  | nan => cases hx
  | infinite negative => cases hx
  | finite negative m e h => rfl

theorem value_neg (x : Double) : x.neg.value = -x.value := by
  cases x with
  | nan => simp [neg, value]
  | infinite negative => simp [neg, value]
  | finite negative m e h => cases negative <;> simp [neg, value, signed]

-- A part of a sum at the common exponent.
theorem signed_shiftLeft_mul (negative : Bool) (m : ℕ) {e base : ℤ} (h : base ≤ e) :
    (signed negative (m <<< (e - base).toNat) : ℚ) * 2 ^ base = signed negative m * 2 ^ e := by
  obtain ⟨t, ht⟩ := Int.eq_ofNat_of_zero_le (sub_nonneg.mpr h)
  obtain rfl : e = base + t := by omega
  rw [ht, Int.toNat_natCast, cast_signed, cast_signed, Nat.shiftLeft_eq, zpow_add₀ two_ne_zero,
    zpow_natCast]
  split <;> push_cast <;> ring

theorem exists_add_eq_ofScaled (hx : x.isFinite = true) (hy : y.isFinite = true) :
    ∃ n e : ℤ, x + y = ofScaled (x.isNegative && y.isNegative) n e ∧
      (n : ℚ) * 2 ^ e = x.value + y.value := by
  by_cases hint : ∃ a b, x.toInt? = some a ∧ y.toInt? = some b
  · obtain ⟨a, b, ha, hb⟩ := hint
    refine ⟨a + b, 0, add_of_toInt? ha hb, ?_⟩
    rw [(toInt?_eq_some_iff.mp ha).2, (toInt?_eq_some_iff.mp hb).2, zpow_zero, mul_one, Int.cast_add]
  · cases x with
    | nan => cases hx
    | infinite negative => cases hx
    | finite negative m e h =>
      cases y with
      | nan => cases hy
      | infinite negative => cases hy
      | finite negative' n f h' =>
        refine ⟨signed negative (m <<< (e - min e f).toNat) +
          signed negative' (n <<< (f - min e f).toNat), min e f, ?_, ?_⟩
        · change add _ _ = _
          rw [add]
          split
          · next a b ha hb => exact absurd ⟨a, b, ha, hb⟩ hint
          · rfl
        · rw [Int.cast_add, add_mul, signed_shiftLeft_mul _ _ (min_le_left e f),
            signed_shiftLeft_mul _ _ (min_le_right e f)]
          rfl

-- The sign of a sum. Only a sum of zero has a choice.
def sumSign (negativeZero : Bool) (q : ℚ) : Bool :=
  if q = 0 then negativeZero else decide (q < 0)

theorem ite_neg_abs_sumSign (negativeZero : Bool) (q : ℚ) :
    (if sumSign negativeZero q = true then -|q| else |q|) = q := by
  unfold sumSign
  by_cases h0 : q = 0
  · simp [h0]
  · rw [if_neg h0]
    by_cases hneg : q < 0
    · rw [if_pos (decide_eq_true hneg), abs_of_neg hneg, neg_neg]
    · rw [if_neg (by simpa using hneg), abs_of_nonneg (not_lt.mp hneg)]

theorem add_eq_ofRat (hx : x.isFinite = true) (hy : y.isFinite = true) :
    x + y = ofRat (sumSign (x.isNegative && y.isNegative) (x.value + y.value))
      |x.value + y.value| := by
  obtain ⟨n, e, hadd, hvalue⟩ := exists_add_eq_ofScaled hx hy
  have hpow : (0 : ℚ) < 2 ^ e := by positivity
  rw [hadd, ofScaled_eq_ofRat, ← hvalue, abs_mul, abs_of_pos hpow, sumSign]
  simp only [mul_eq_zero, hpow.ne', or_false, Int.cast_eq_zero, mul_neg_iff, hpow, hpow.not_gt,
    and_true, and_false, false_or, Int.cast_lt_zero]

-- A sum that has a double is exact.
theorem value_add_of_representable (hx : x.isFinite = true) (hy : y.isFinite = true) {m : ℕ} {e : ℤ}
    (hm : m < 2 ^ 53) (he : -1074 ≤ e) (he' : e ≤ 971) (h : |x.value + y.value| = m * 2 ^ e) :
    (x + y).isFinite = true ∧ (x + y).value = x.value + y.value := by
  have hsign := ite_neg_abs_sumSign (x.isNegative && y.isNegative) (x.value + y.value)
  rw [add_eq_ofRat hx hy]
  set s := sumSign (x.isNegative && y.isNegative) (x.value + y.value)
  rw [h] at hsign ⊢
  obtain ⟨hf, -, hv⟩ := ofRat_of_representable s hm he he'
  refine ⟨hf, ?_⟩
  rw [hv, cast_signed, ite_mul, neg_mul]
  exact hsign

-- `x` is off `q` by at most the 2^53rd part of `q`, or half of the least double.
def Approximates (x : Double) (q : ℚ) : Prop :=
  x.isFinite = true ∧ |x.value - q| ≤ |q| * 2 ^ (-53 : ℤ) + 2 ^ (-1075 : ℤ)

theorem Approximates.abs_sub_le {q b : ℚ} (h : x.Approximates q) (hq : |q| ≤ b)
    (hb : 2 ^ (-100 : ℤ) ≤ b) : |x.value - q| ≤ b * 2 ^ (-52 : ℤ) := by
  have hleast : (2 : ℚ) ^ (-1075 : ℤ) ≤ 2 ^ (-100 : ℤ) * 2 ^ (-75 : ℤ) := by
    rw [← zpow_add₀ two_ne_zero]
    exact zpow_le_zpow_right₀ one_le_two (by norm_num)
  calc |x.value - q| ≤ |q| * 2 ^ (-53 : ℤ) + 2 ^ (-1075 : ℤ) := h.2
    _ ≤ b * 2 ^ (-53 : ℤ) + b * 2 ^ (-75 : ℤ) := by
      refine add_le_add (by gcongr) (hleast.trans ?_)
      gcongr
    _ = b * (2 ^ (-53 : ℤ) + 2 ^ (-75 : ℤ)) := by ring
    _ ≤ b * 2 ^ (-52 : ℤ) := by
      gcongr
      norm_num

-- A coarse bound, where only the order of magnitude counts.
theorem Approximates.abs_le {q b : ℚ} (h : x.Approximates q) (hq : |q| ≤ b)
    (hb : 2 ^ (-100 : ℤ) ≤ b) : |x.value| ≤ 2 * b := by
  have hsub := h.abs_sub_le hq hb
  have hb0 : 0 ≤ b := (abs_nonneg q).trans hq
  have hsmall : b * 2 ^ (-52 : ℤ) ≤ b := mul_le_of_le_one_right hb0 (by norm_num)
  have := abs_sub_abs_le_abs_sub x.value q
  linarith

theorem approximates_ofRat {negative : Bool} {q : ℚ}
    (hsign : (if negative = true then -|q| else |q|) = q) (h : |q| < 2 ^ (1023 : ℤ)) :
    (ofRat negative |q|).Approximates q := by
  by_cases h0 : q = 0
  · rw [h0, abs_zero, ofRat_zero]
    refine ⟨rfl, ?_⟩
    rw [value_zero, sub_zero, abs_zero, zero_mul, zero_add]
    positivity
  · have hpos := abs_pos.mpr h0
    have hf := isFinite_ofRat negative hpos h
    have herr := abs_value_ofRat_sub_le negative hpos hf
    rw [hsign] at herr
    refine ⟨hf, herr.trans ((two_zpow_lastPlace_sub_one_le hpos).trans (max_le ?_ ?_))⟩
    · exact le_add_of_nonneg_right (by positivity)
    · exact le_add_of_nonneg_left (by positivity)

theorem approximates_add (hx : x.isFinite = true) (hy : y.isFinite = true)
    (h : |x.value + y.value| < 2 ^ (1023 : ℤ)) : (x + y).Approximates (x.value + y.value) := by
  rw [add_eq_ofRat hx hy]
  exact approximates_ofRat (ite_neg_abs_sumSign _ _) h

theorem ite_neg_abs_mul (hx : x.isFinite = true) (hy : y.isFinite = true) :
    (if (x.isNegative != y.isNegative) = true then -|x.value * y.value| else |x.value * y.value|) =
      x.value * y.value := by
  rw [abs_mul]
  conv_rhs => rw [value_eq_of_isNegative hx, value_eq_of_isNegative hy]
  cases x.isNegative <;> cases y.isNegative <;> simp

theorem approximates_mul (hx : x.isFinite = true) (hy : y.isFinite = true)
    (h : |x.value * y.value| < 2 ^ (1023 : ℤ)) : (x * y).Approximates (x.value * y.value) := by
  rw [mul_eq_ofRat hx hy]
  exact approximates_ofRat (ite_neg_abs_mul hx hy) h

theorem approximates_div (hx : x.isFinite = true) (hy : y.isFinite = true) (hy0 : y.value ≠ 0)
    (h : |x.value / y.value| < 2 ^ (1023 : ℤ)) : (x / y).Approximates (x.value / y.value) := by
  rw [div_eq_ofRat hx hy hy0]
  exact approximates_ofRat (ite_neg_abs_div hx hy) h

-- A number that comes close to a double and has a lower last place is just below a power of two.
theorem eq_of_lastPlace_lt {m : ℕ} {e : ℤ} (h : Canonical m e) {q : ℚ} (hq : 0 < q)
    (hclose : |q / 2 ^ e - m| < 1) (hlt : lastPlace q < e) : m = 2 ^ 52 ∧ lastPlace q = e - 1 := by
  have hpow : (0 : ℚ) < 2 ^ e := by positivity
  have hbounds := abs_lt.mp hclose
  have hleast : -1074 ≤ lastPlace q := le_max_left _ _
  have hge : 2 ^ 52 ≤ m := h.2.2.2.resolve_right (by omega)
  have hge' : (2 : ℚ) ^ 52 ≤ m := by exact_mod_cast hge
  constructor
  · have hbelow : q / 2 ^ e < 2 ^ 52 := by
      rw [div_lt_iff₀ hpow]
      calc q < 2 ^ (lastPlace q + 53) := lt_two_zpow_lastPlace q
        _ ≤ 2 ^ ((52 : ℕ) + e) := zpow_le_zpow_right₀ one_le_two (by push_cast; omega)
        _ = 2 ^ 52 * 2 ^ e := by rw [zpow_add₀ two_ne_zero, zpow_natCast]
    have hmlt : m < 2 ^ 52 + 1 := by
      have hmlt' : (m : ℚ) < 2 ^ 52 + 1 := by linarith
      exact_mod_cast hmlt'
    omega
  · have hlarge : (2 : ℚ) ^ (e + 51) ≤ q := by
      rw [add_comm, zpow_add₀ two_ne_zero, ← le_div_iff₀ hpow]
      norm_num
      linarith
    have hlog := (Int.zpow_le_iff_le_log (R := ℚ) Nat.one_lt_two hq).mp (by exact_mod_cast hlarge)
    simp only [lastPlace] at hlt ⊢
    omega

-- There doubles are twice as dense, and a quarter of a place is half of the place below. The middle
-- between the two is rounded up, to the even one.
theorem ofRat_below_power (negative : Bool) {e : ℤ} (h : Canonical (2 ^ 52) e) {q : ℚ} (hq : 0 < q)
    (hlast : lastPlace q = e - 1) (hclose : |q / 2 ^ e - 2 ^ 52| ≤ 1 / 4) :
    ofRat negative q = .finite negative (2 ^ 52) e h := by
  have hdouble : q / 2 ^ (e - 1) - ((2 ^ 53 : ℕ) : ℚ) = 2 * (q / 2 ^ e - 2 ^ 52) := by
    rw [zpow_sub_one₀ two_ne_zero]
    push_cast
    field_simp
    ring
  have hhalf : |q / 2 ^ (e - 1) - ((2 ^ 53 : ℕ) : ℚ)| ≤ 1 / 2 := by
    rw [hdouble, abs_mul, abs_two]
    linarith
  have hnear : IsNearest (q / 2 ^ lastPlace q) (2 ^ 53) := by
    rw [hlast]
    rcases hhalf.lt_or_eq with hlt | htie
    · exact .inl hlt
    · exact .inr ⟨htie, by decide⟩
  rw [← ofParts_eq_ofRat negative hq hnear, hlast, ofParts,
    dif_neg (by simp only [Canonical]; omega), dif_pos (by simp only [Canonical] at h ⊢; omega)]
  simp only [finite.injEq, true_and]
  omega

-- Numbers this close to a double are rounded to it, also to a power of two from below.
theorem ofRat_of_close (negative : Bool) {m : ℕ} {e : ℤ} (h : Canonical m e) (hm : 0 < m) {q : ℚ}
    (hq : |q - m * 2 ^ e| ≤ m * 2 ^ e * 2 ^ (-54 : ℤ)) :
    ofRat negative q = .finite negative m e h := by
  have hpow : (0 : ℚ) < 2 ^ e := by positivity
  have hmpos : (1 : ℚ) ≤ m := by exact_mod_cast hm
  have hmlt : (m : ℚ) + 1 ≤ 2 ^ 53 := by exact_mod_cast h.1
  have hclose : |q / 2 ^ e - m| ≤ m * 2 ^ (-54 : ℤ) := by
    rw [div_sub' hpow.ne', abs_div, abs_of_pos hpow, div_le_iff₀ hpow, mul_comm (2 ^ e) (m : ℚ)]
    linarith
  have hhalf : (m : ℚ) * 2 ^ (-54 : ℤ) < 1 / 2 := by
    norm_num
    linarith
  have hbounds := abs_le.mp hclose
  have hqpos : 0 < q := by
    have : 0 < q / 2 ^ e := by linarith
    rwa [div_pos_iff_of_pos_right hpow] at this
  have hlast : lastPlace q ≤ e := by
    apply lastPlace_le_of_lt hqpos h.2.1
    rw [add_comm, zpow_add₀ two_ne_zero, ← div_lt_iff₀ hpow]
    norm_num at hmlt ⊢
    linarith
  rcases hlast.eq_or_lt with heq | hlt
  · have hnear : IsNearest (q / 2 ^ lastPlace q) m := by
      rw [heq]
      exact .inl (hclose.trans_lt hhalf)
    rw [← ofParts_eq_ofRat negative hqpos hnear, heq, ofParts, dif_pos h]
  · obtain ⟨rfl, hprevious⟩ := eq_of_lastPlace_lt h hqpos (by linarith) hlt
    refine ofRat_below_power negative h hqpos hprevious ?_
    norm_num at hclose ⊢
    exact hclose

-- Such a number has the sign of the double as well.
theorem isNegative_of_close {negative : Bool} {q : ℚ}
    (hsign : (if negative = true then -|q| else |q|) = q) (hy : y.isFinite = true) (hy0 : y.value ≠ 0)
    (h : |q - y.value| < |y.value|) : y.isNegative = negative := by
  have hnonneg := abs_nonneg q
  rw [isNegative_eq_decide hy hy0]
  rcases lt_or_gt_of_ne hy0 with hneg | hpos
  · rw [abs_of_neg hneg] at h
    have hq := (abs_lt.mp h).2
    cases negative with
    | false =>
      rw [if_neg Bool.false_ne_true] at hsign
      linarith
    | true => exact decide_eq_true hneg
  · rw [abs_of_pos hpos] at h
    have hq := (abs_lt.mp h).1
    cases negative with
    | false => exact decide_eq_false hpos.not_gt
    | true =>
      rw [if_pos rfl] at hsign
      linarith

theorem ofRat_abs_of_close {negative : Bool} {q : ℚ}
    (hsign : (if negative = true then -|q| else |q|) = q) (hy : y.isFinite = true) (hy0 : y.value ≠ 0)
    (h : |q - y.value| ≤ |y.value| * 2 ^ (-54 : ℤ)) : ofRat negative |q| = y := by
  have hclose := (abs_abs_sub_abs_le q y.value).trans h
  have hypos : 0 < |y.value| := abs_pos.mpr hy0
  have hsame : y.isNegative = negative := by
    refine isNegative_of_close hsign hy hy0 (h.trans_lt ?_)
    norm_num
    linarith
  cases y with
  | nan => cases hy
  | infinite negative => cases hy
  | finite negative' m e hc =>
    obtain rfl : negative' = negative := hsame
    rw [abs_value] at hclose hypos
    have hm : 0 < m := by
      rw [mul_pos_iff_of_pos_right (by positivity)] at hypos
      exact_mod_cast hypos
    exact ofRat_of_close _ hc hm hclose

theorem mul_of_close {r : Double} (hx : x.isFinite = true) (hy : y.isFinite = true)
    (hr : r.isFinite = true) (hr0 : r.value ≠ 0)
    (h : |x.value * y.value - r.value| ≤ |r.value| * 2 ^ (-54 : ℤ)) : x * y = r := by
  rw [mul_eq_ofRat hx hy]
  exact ofRat_abs_of_close (ite_neg_abs_mul hx hy) hr hr0 h

-- A quotient of an integer that comes close to an integer is that integer.
theorem toInt?_div_of_close {k z : ℤ} (hx : x.toInt? = some k) (hy : y.isFinite = true)
    (hy0 : y.value ≠ 0) (hz : |z| ≤ 2 ^ 53)
    (h : |k / y.value - z| ≤ |(z : ℚ)| * 2 ^ (-54 : ℤ)) : (x / y).toInt? = some z := by
  obtain ⟨hxf, hxv⟩ := toInt?_eq_some_iff.mp hx
  have hint := toInt?_ofScaled false hz
  obtain ⟨hzf, hzv⟩ := toInt?_eq_some_iff.mp hint
  rw [div_eq_ofRat hxf hy hy0]
  by_cases hz0 : z = 0
  · subst hz0
    rw [Int.cast_zero, abs_zero, zero_mul, sub_zero, ← hxv] at h
    rw [le_antisymm h (abs_nonneg _), ofRat_zero]
    cases x.isNegative != y.isNegative <;> rfl
  · rw [ofRat_abs_of_close (ite_neg_abs_div hxf hy) hzf (by rw [hzv]; exact_mod_cast hz0)
      (by rwa [hxv, hzv]), hint]

end RecordQuery.Double
