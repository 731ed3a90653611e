import RecordQuery.Proofs.Double.RoundEven

/-!
Powers of ten, the factors that scale by decimal places. Up to 22 places they are exact or close for
most places, and for some not close enough. Beyond what the exponent holds they are infinite or zero.
-/

namespace RecordQuery.Double

variable {x y : Double} {d : ℤ}

-- The factor for `d` decimal places.
def decimal (d : ℤ) : Double := pow (ofNat 10) (ofInt d)

-- The power depends on the integer that the exponent is, not on the sign of a zero.
theorem pow_ten_eq (hy : y.toInt? = some d) : pow (ofNat 10) y = decimal d := by
  by_cases hd : d = 0
  · subst hd
    have hzero : y.isZero = true := by
      obtain ⟨hf, hv⟩ := toInt?_eq_some_iff.mp hy
      rw [isZero_iff hf, hv, Int.cast_zero]
    have hone : decimal 0 = one := rfl
    rw [hone, pow.eq_def, if_pos hzero]
  · rw [eq_ofScaled hy, decimal, ofInt, ofScaled, ofScaled, if_neg hd, if_neg hd]

theorem toRat?_eq_some_iff {r : ℚ} : x.toRat? = some r ↔ x.isFinite = true ∧ x.value = r := by
  cases x with
  | nan => simp [toRat?, isFinite]
  | infinite negative => simp [toRat?, isFinite]
  | finite negative m e h => cases negative <;> simp [toRat?, isFinite, value, magnitude_eq, signed]

-- Checks on the exact value are computed.
theorem of_toRat?_any {p : ℚ → Bool} (h : x.toRat?.any p = true) :
    x.isFinite = true ∧ p x.value = true := by
  cases hr : x.toRat? with
  | none => rw [hr] at h; cases h
  | some r =>
    obtain ⟨hf, rfl⟩ := toRat?_eq_some_iff.mp hr
    rw [hr] at h
    exact ⟨hf, h⟩

-- The significand of an integer other than zero has all its bits.
theorem significand_of_toInt? {negative : Bool} {m : ℕ} {e : ℤ} {h : Canonical m e}
    (hy : (finite negative m e h).toInt? = some d) (hd : d ≠ 0) : 2 ^ 52 ≤ m := by
  refine h.2.2.2.resolve_right fun he => ?_
  have hone : (1 : ℚ) ≤ m * 2 ^ e := by
    rw [← abs_value negative m e h, (toInt?_eq_some_iff.mp hy).2]
    exact_mod_cast Int.one_le_abs hd
  have hlt : (m : ℚ) < 2 ^ 53 := by exact_mod_cast h.1
  have hpow : (2 : ℚ) ^ e ≤ 2 ^ (-53 : ℤ) := by
    rw [he]
    exact zpow_le_zpow_right₀ one_le_two (by norm_num)
  have := calc (m : ℚ) * 2 ^ e ≤ m * 2 ^ (-53 : ℤ) := by gcongr
    _ < 2 ^ 53 * 2 ^ (-53 : ℤ) := by gcongr
    _ = 1 := by norm_num
  linarith

theorem clearLow_finite (negative : Bool) {m : ℕ} {e : ℤ} (h : Canonical m e) (hm : 2 ^ 52 ≤ m) :
    ∃ k hk, clearLow 32 (finite negative m e h) = .finite negative k e hk ∧
      k ≤ m ∧ m ≤ k + 2 ^ 32 := by
  obtain ⟨k, hcut⟩ : ∃ k, m >>> 32 <<< 32 = k := ⟨_, rfl⟩
  have hrest : m / 2 ^ 32 * 2 ^ 32 = k := by
    rw [← hcut, Nat.shiftRight_eq_div_pow, Nat.shiftLeft_eq]
  have hk : Canonical k e := by
    obtain ⟨hlt, he, he', -⟩ := h
    exact ⟨by omega, he, he', .inl (by omega)⟩
  refine ⟨k, hk, ?_, by omega, by omega⟩
  rw [clearLow, hcut, ofParts, dif_pos hk]

-- Clearing low bits of an integer changes it by the 2^20th part at most.
theorem value_clearLow (hy : y.toInt? = some d) (hd : d ≠ 0) :
    (clearLow 32 y).isFinite = true ∧
      ∃ c : ℚ, 1 - 1 / 2 ^ 20 ≤ c ∧ c ≤ 1 ∧ (clearLow 32 y).value = y.value * c := by
  cases y with
  | nan => cases hy
  | infinite negative => cases hy
  | finite negative m e h =>
    have hm := significand_of_toInt? hy hd
    obtain ⟨k, hk, hclear, hkm, hmk⟩ := clearLow_finite negative h hm
    have hmpos : (0 : ℚ) < m := by exact_mod_cast (show 0 < m by omega)
    rw [hclear]
    refine ⟨rfl, k / m, ?_, ?_, ?_⟩
    · rw [le_div_iff₀ hmpos]
      have hlow : (m : ℚ) ≤ k + 2 ^ 32 := by exact_mod_cast hmk
      have hlarge : (2 : ℚ) ^ 52 ≤ m := by exact_mod_cast hm
      norm_num
      linarith
    · rw [div_le_one hmpos]
      exact_mod_cast hkm
    · simp only [value, cast_signed]
      split <;> field_simp

theorem ofNat_ten : ∃ h, ofNat 10 = .finite false 0x14000000000000 (-49) h :=
  ⟨by decide, rfl⟩

theorem pow_ten_eq_powerPositive (hy : y.toInt? = some d) (hd : d ∉ [0, 1, -1, 2]) :
    pow (ofNat 10) y = powerPositive 0x14000000000000 (-49) y := by
  obtain ⟨hf, hv⟩ := toInt?_eq_some_iff.mp hy
  have hzero : y.isZero = false := by
    rw [Bool.eq_false_iff, ne_eq, isZero_iff hf, hv]
    simp_all
  have hne {x : Double} {z : ℤ} (hx : x.toInt? = some z) (hz : z ∈ [0, 1, -1, 2]) : y ≠ x := by
    rintro rfl
    exact hd (Option.some.inj (hy.symm.trans hx) ▸ hz)
  have hone : y ≠ one := hne (z := 1) rfl (by decide)
  have hminus : y ≠ neg one := hne (z := -1) rfl (by decide)
  have htwo : y ≠ ofNat 2 := hne (z := 2) rfl (by decide)
  have hhalf : y ≠ ofBits 0x3FE0000000000000 := by
    rintro rfl
    cases hy
  obtain ⟨hcanonical, hten⟩ := ofNat_ten
  have hten1 : (ofNat 10).abs ≠ one := by decide
  rw [hten] at hten1
  rw [hten, pow.eq_def, hzero]
  cases y with
  | nan => cases hf
  | infinite negative => cases hf
  | finite negative m e h =>
    simp [isNaN, hone, hminus, htwo, hhalf, hten1, isNegative]

def logTen : Split := logOf 0x14000000000000 (-49)

-- The only evaluation of the logarithm.
theorem logTen_checked : logTen.high.toRat? = some (1741647 / 524288) ∧
    logTen.low.toRat?.any (fun r => |r| ≤ 1 / 2 ^ 20) = true := by
  decide +kernel

theorem logTen_high : logTen.high.isFinite = true ∧ logTen.high.value = 1741647 / 524288 :=
  toRat?_eq_some_iff.mp logTen_checked.1

theorem logTen_low : logTen.low.isFinite = true ∧ |logTen.low.value| ≤ 1 / 2 ^ 20 :=
  (of_toRat?_any logTen_checked.2).imp_right of_decide_eq_true

-- The exponent with its low bits cleared decides whether it is huge.
theorem powerPositive_ten (y : Double) : powerPositive 0x14000000000000 (-49) y =
    if lt (ofNat 0x80000000) (clearLow 32 y.abs) = true then
      if y.isNegative = true then zero false else .infinite false
    else expOf ⟨clearLow 32 y * logTen.high,
      (y - clearLow 32 y) * logTen.high + y * logTen.low⟩ := by
  have hbelow : lt (ofParts false 0x14000000000000 (-49)) one = false := rfl
  have habove : lt (ofParts false 0x14000000000000 (-49)) (ofBits 0x3FF0000100000000) = false :=
    rfl
  have hnormal : normalized 0x14000000000000 (-49) = (0x14000000000000, -49) := rfl
  rw [powerPositive]
  simp only [hbelow, habove, hnormal, Bool.and_false, Bool.not_false, Bool.or_true, Bool.and_true]
  split
  · cases y.isNegative <;> rfl
  · rfl

-- What is no more than some multiple of the exponent is far from overflowing.
theorem lt_of_le_of_le {q b : ℚ} (h : |q| ≤ b) (hb : b ≤ 2 ^ (40 : ℤ)) : |q| < 2 ^ (1023 : ℤ) :=
  (h.trans hb).trans_lt (zpow_lt_zpow_right₀ one_lt_two (by norm_num))

-- What the parts of the exponent are measured by.
theorem abs_cast_bounds (hd : d ≠ 0) (hmax : |d| ≤ 2 ^ 33) :
    1 ≤ |(d : ℚ)| ∧ |(d : ℚ)| ≤ 2 ^ 33 :=
  ⟨by exact_mod_cast Int.one_le_abs hd, by exact_mod_cast hmax⟩

-- The part of the exponent that is cleared, times the logarithm.
theorem exponent_rest_le (hy : y.toInt? = some d) (hd : d ≠ 0) (hmax : |d| ≤ 2 ^ 33) :
    ((y - clearLow 32 y) * logTen.high).isFinite = true ∧
      |((y - clearLow 32 y) * logTen.high).value| ≤ |(d : ℚ)| * (1 / 2 ^ 16) := by
  obtain ⟨hyf, hyv⟩ := toInt?_eq_some_iff.mp hy
  obtain ⟨hhf, hhv⟩ := logTen_high
  obtain ⟨hcf, c, hc, hc1, hcv⟩ := value_clearLow hy hd
  obtain ⟨hone, hlarge⟩ := abs_cast_bounds hd hmax
  have hrestq : |y.value + (clearLow 32 y).neg.value| ≤ |(d : ℚ)| * (1 / 2 ^ 20) := by
    rw [value_neg, hcv, hyv, ← sub_eq_add_neg, ← mul_one_sub, abs_mul,
      abs_of_nonneg (by linarith : 0 ≤ 1 - c)]
    exact mul_le_mul_of_nonneg_left (by linarith) (abs_nonneg _)
  have hrest : (y - clearLow 32 y).Approximates _ :=
    approximates_add hyf (isFinite_neg hcf) (lt_of_le_of_le hrestq (by norm_num; linarith))
  have hrestv := hrest.abs_le hrestq (by norm_num; linarith)
  have hproductq : |(y - clearLow 32 y).value * logTen.high.value| ≤ |(d : ℚ)| * (1 / 2 ^ 17) := by
    rw [hhv, abs_mul]
    norm_num at hrestv ⊢
    linarith
  have hproduct :=
    approximates_mul hrest.1 hhf (lt_of_le_of_le hproductq (by norm_num; linarith))
  have hproductv := hproduct.abs_le hproductq (by norm_num; linarith)
  refine ⟨hproduct.1, ?_⟩
  norm_num at hproductv ⊢
  linarith

-- The low part of the exponent is small against the high one.
theorem exponent_low_le (hy : y.toInt? = some d) (hd : d ≠ 0) (hmax : |d| ≤ 2 ^ 33) :
    ((y - clearLow 32 y) * logTen.high + y * logTen.low).isFinite = true ∧
      |((y - clearLow 32 y) * logTen.high + y * logTen.low).value| ≤ |(d : ℚ)| * (1 / 2 ^ 14) := by
  obtain ⟨hyf, hyv⟩ := toInt?_eq_some_iff.mp hy
  obtain ⟨hlf, hlv⟩ := logTen_low
  obtain ⟨hrestf, hrestv⟩ := exponent_rest_le hy hd hmax
  obtain ⟨hone, hlarge⟩ := abs_cast_bounds hd hmax
  have hlowq : |y.value * logTen.low.value| ≤ |(d : ℚ)| * (1 / 2 ^ 20) := by
    rw [hyv, abs_mul]
    gcongr
  have hlow := approximates_mul hyf hlf (lt_of_le_of_le hlowq (by norm_num; linarith))
  have hlowv := hlow.abs_le hlowq (by norm_num; linarith)
  have hsumq : |((y - clearLow 32 y) * logTen.high).value + (y * logTen.low).value| ≤
      |(d : ℚ)| * (1 / 2 ^ 15) := by
    refine (abs_add_le _ _).trans ?_
    norm_num at hrestv hlowv ⊢
    linarith
  have hsum := approximates_add hrestf hlow.1 (lt_of_le_of_le hsumq (by norm_num; linarith))
  have hsumv := hsum.abs_le hsumq (by norm_num; linarith)
  refine ⟨hsum.1, ?_⟩
  norm_num at hsumv ⊢
  linarith

-- The high part is the exponent, up to what is cleared and rounded.
theorem exponent_high_close (hy : y.toInt? = some d) (hd : d ≠ 0) (hmax : |d| ≤ 2 ^ 33) :
    (clearLow 32 y * logTen.high).isFinite = true ∧
      |(clearLow 32 y * logTen.high).value - d * (1741647 / 524288)| ≤
        |(d : ℚ)| * (1 / 2 ^ 17) := by
  obtain ⟨hhf, hhv⟩ := logTen_high
  obtain ⟨hcf, c, hc, hc1, hcv⟩ := value_clearLow hy hd
  obtain ⟨hone, hlarge⟩ := abs_cast_bounds hd hmax
  rw [(toInt?_eq_some_iff.mp hy).2] at hcv
  have hproductq : |(clearLow 32 y).value * logTen.high.value| ≤ |(d : ℚ)| * 4 := by
    rw [hcv, hhv, abs_mul, abs_mul, abs_of_nonneg (by linarith : 0 ≤ c)]
    have := mul_le_mul_of_nonneg_left hc1 (abs_nonneg (d : ℚ))
    norm_num
    linarith
  have hproduct := approximates_mul hcf hhf (lt_of_le_of_le hproductq (by norm_num; linarith))
  have hrounded := hproduct.abs_sub_le hproductq (by norm_num; linarith)
  have hcut : |d * c * (1741647 / 524288) - d * (1741647 / 524288 : ℚ)| ≤
      |(d : ℚ)| * (1 / 2 ^ 18) := by
    have hfactor : d * c * (1741647 / 524288) - d * (1741647 / 524288 : ℚ) =
        -(d * ((1 - c) * (1741647 / 524288))) := by ring
    rw [hfactor, abs_neg, abs_mul,
      abs_of_nonneg (mul_nonneg (by linarith : 0 ≤ 1 - c) (by norm_num))]
    exact mul_le_mul_of_nonneg_left (by linarith) (abs_nonneg _)
  refine ⟨hproduct.1, ?_⟩
  rw [hcv, hhv] at hrounded
  have htriangle := abs_sub_le (clearLow 32 y * logTen.high).value (d * c * (1741647 / 524288))
    (d * (1741647 / 524288))
  norm_num at hrounded hcut htriangle ⊢
  linarith

-- The binary exponent of the power: its parts are rounded six times, and what the low one adds is
-- small against the high one.
theorem exponent_close (hy : y.toInt? = some d) (hd : d ≠ 0) (hmax : |d| ≤ 2 ^ 33) :
    ((y - clearLow 32 y) * logTen.high + y * logTen.low + clearLow 32 y * logTen.high).isFinite =
        true ∧
      |((y - clearLow 32 y) * logTen.high + y * logTen.low + clearLow 32 y * logTen.high).value
        - d * (1741647 / 524288)| ≤ |(d : ℚ)| * (1 / 2 ^ 13) := by
  obtain ⟨hlowf, hlowv⟩ := exponent_low_le hy hd hmax
  obtain ⟨hhighf, hhighv⟩ := exponent_high_close hy hd hmax
  obtain ⟨hone, hlarge⟩ := abs_cast_bounds hd hmax
  generalize (y - clearLow 32 y) * logTen.high + y * logTen.low = low at *
  generalize clearLow 32 y * logTen.high = high at *
  have hsumv : |low.value + high.value - d * (1741647 / 524288)| ≤ |(d : ℚ)| * (9 / 2 ^ 17) := by
    rw [add_sub_assoc]
    refine (abs_add_le _ _).trans ?_
    norm_num at hlowv hhighv ⊢
    linarith
  have hsumq : |low.value + high.value| ≤ |(d : ℚ)| * 4 := by
    have htriangle := abs_sub_abs_le_abs_sub (low.value + high.value) (d * (1741647 / 524288))
    rw [abs_mul] at htriangle
    norm_num at hsumv htriangle ⊢
    linarith
  have hsum := approximates_add hlowf hhighf (lt_of_le_of_le hsumq (by norm_num; linarith))
  have hrounded := hsum.abs_sub_le hsumq (by norm_num; linarith)
  refine ⟨hsum.1, ?_⟩
  have htriangle := abs_sub_le (low + high).value (low.value + high.value) (d * (1741647 / 524288))
  norm_num at hrounded hsumv htriangle ⊢
  linarith

-- What is not huge is small enough for the bound.
theorem abs_le_of_not_huge (hy : y.toInt? = some d) (hd : d ≠ 0) (hsafe : |d| < 2 ^ 53)
    (h : ¬lt (ofNat 0x80000000) (clearLow 32 y.abs) = true) : |d| ≤ 2 ^ 33 := by
  have hlimit : (ofNat 0x80000000).toInt? = some 0x80000000 := rfl
  obtain ⟨hlf, hlv⟩ := toInt?_eq_some_iff.mp hlimit
  have habs : y.abs.toInt? = some (d.natAbs : ℤ) := by
    rw [← ofInt_natAbs hy]
    exact toInt?_ofScaled false (by rw [Nat.abs_cast, ← Int.abs_eq_natAbs]; exact hsafe.le)
  obtain ⟨hcf, c, hc, -, hcv⟩ := value_clearLow habs (by omega)
  rw [lt_eq_decide hlf hcf, decide_eq_true_iff, not_lt, hcv, hlv,
    (toInt?_eq_some_iff.mp habs).2] at h
  have hle : ((d.natAbs : ℤ) : ℚ) ≤ 2 ^ 33 := by
    have hmul := mul_le_mul_of_nonneg_left hc (by positivity : (0 : ℚ) ≤ ((d.natAbs : ℤ) : ℚ))
    push_cast at h hmul ⊢
    linarith
  rw [Int.abs_eq_natAbs]
  exact_mod_cast hle

theorem expOf_of_gt {p : Split} (hf : (p.low + p.high).isFinite = true)
    (h : 1024 < (p.low + p.high).value) : expOf p = .infinite false := by
  have htop : (ofNat 1024).toInt? = some 1024 := rfl
  obtain ⟨htf, htv⟩ := toInt?_eq_some_iff.mp htop
  have hlt : lt (ofNat 1024) (p.low + p.high) = true := by
    rw [lt_eq_decide htf hf, htv]
    exact decide_eq_true h
  simp only [expOf, hlt, Bool.true_or, if_true]

theorem expOf_of_lt {p : Split} (hf : (p.low + p.high).isFinite = true)
    (h : (p.low + p.high).value < -1075) : expOf p = zero false := by
  have htop : (ofNat 1024).toInt? = some 1024 := rfl
  have hbottom : (neg (ofNat 1075)).toInt? = some (-1075) := rfl
  obtain ⟨htf, htv⟩ := toInt?_eq_some_iff.mp htop
  obtain ⟨hbf, hbv⟩ := toInt?_eq_some_iff.mp hbottom
  have hgt : lt (ofNat 1024) (p.low + p.high) = false := by
    rw [lt_eq_decide htf hf, htv]
    exact decide_eq_false (by push_cast; linarith)
  have hne : p.low + p.high ≠ ofNat 1024 := by
    intro heq
    rw [heq, htv] at h
    norm_num at h
  have hlt : lt (p.low + p.high) (neg (ofNat 1075)) = true := by
    rw [lt_eq_decide hf hbf, hbv]
    exact decide_eq_true (by push_cast; exact h)
  simp only [expOf, hgt, hne, hlt, decide_false, Bool.false_and, Bool.or_false, Bool.true_or, if_true,
    Bool.false_eq_true, if_false]

-- Beyond 308 places the factor is infinite, and beyond 323 before the point it is zero.
theorem decimal_extreme (hy : y.toInt? = some d) (hsafe : |d| < 2 ^ 53) :
    (309 ≤ d → decimal d = .infinite false) ∧ (d ≤ -324 → decimal d = zero false) := by
  rw [← pow_ten_eq hy]
  by_cases hd : d ∈ [0, 1, -1, 2]
  · simp only [List.mem_cons, List.not_mem_nil, or_false] at hd
    constructor <;> intro <;> omega
  · have hd0 : d ≠ 0 := by
      rintro rfl
      exact hd (by decide)
    rw [pow_ten_eq_powerPositive hy hd, powerPositive_ten]
    split
    · rw [isNegative_of_toInt? hy hd0]
      constructor
      · intro hlarge
        rw [if_neg (by simpa using by omega)]
      · intro hsmall
        rw [if_pos (decide_eq_true (by omega))]
    · next hhuge =>
      obtain ⟨hf, hclose⟩ := exponent_close hy hd0 (abs_le_of_not_huge hy hd0 hsafe hhuge)
      have hbounds := abs_le.mp hclose
      constructor
      · intro hlarge
        apply expOf_of_gt hf
        have hdq : (309 : ℚ) ≤ d := by exact_mod_cast hlarge
        rw [abs_of_nonneg (by linarith)] at hbounds
        linarith
      · intro hsmall
        apply expOf_of_lt hf
        have hdq : (d : ℚ) ≤ -324 := by exact_mod_cast hsmall
        rw [abs_of_nonpos (by linarith)] at hbounds
        linarith

-- Scaling by such a factor leaves no number.
theorem roundEven_mul_div_extreme (hx : x.isFinite = true) {y : Double}
    (hy : y = .infinite false ∨ y = zero false) : (x * y).roundEven / y = .nan := by
  rcases hy with rfl | rfl
  · have hproduct : x * infinite false = .nan ∨ ∃ s, x * infinite false = .infinite s := by
      cases x with
      | nan => cases hx
      | infinite negative => cases hx
      | finite negative m e h =>
        change mul _ _ = _ ∨ ∃ s, mul _ _ = _
        have hnone : (infinite false).toInt? = none := rfl
        cases hint : (finite negative m e h).toInt? <;>
        · simp only [mul, hint, hnone]
          split
          · exact .inl rfl
          · exact .inr ⟨_, rfl⟩
    rcases hproduct with h | ⟨s, h⟩
    · rw [h]
      rfl
    · rw [h]
      cases s <;> rfl
  · rw [mul_eq_ofRat hx rfl, value_zero, mul_zero, abs_zero, ofRat_zero]
    cases x.isNegative != (zero false).isNegative <;> rfl

end RecordQuery.Double
