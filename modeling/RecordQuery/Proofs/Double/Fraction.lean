import RecordQuery.Proofs.Double.Integer

/-!
Fractions of a count. A product is the exact product rounded once, and for a fraction below one
rounding never reaches the count, so the fraction rounded down is the number of a place.
-/

namespace RecordQuery.Double

theorem isNegative_eq_decide {x : Double} (hx : x.isFinite = true) (h0 : x.value ≠ 0) :
    x.isNegative = decide (x.value < 0) := by
  have hvalue := value_eq_of_isNegative hx
  have hpos : 0 < |x.value| := abs_pos.mpr h0
  cases hsign : x.isNegative with
  | false =>
    rw [hsign, if_neg Bool.false_ne_true] at hvalue
    rw [decide_eq_false (by rw [hvalue]; exact not_lt.mpr hpos.le)]
  | true =>
    rw [hsign, if_pos rfl] at hvalue
    rw [decide_eq_true (by rw [hvalue]; exact neg_neg_of_pos hpos)]

-- The sign of a product of integers.
theorem ofScaled_mul_eq_ofRat {x y : Double} {a b : ℤ} (hx : x.toInt? = some a)
    (hy : y.toInt? = some b) :
    ofScaled (x.isNegative != y.isNegative) (a * b) 0 =
      ofRat (x.isNegative != y.isNegative) |x.value * y.value| := by
  obtain ⟨hxf, hxv⟩ := toInt?_eq_some_iff.mp hx
  obtain ⟨hyf, hyv⟩ := toInt?_eq_some_iff.mp hy
  rw [ofScaled_zero_eq_ofRat, hxv, hyv, Nat.cast_natAbs, Int.cast_abs, Int.cast_mul]
  by_cases h : a * b = 0
  · rw [if_pos h]
  · have ha : (a : ℚ) ≠ 0 := by exact_mod_cast left_ne_zero_of_mul h
    have hb : (b : ℚ) ≠ 0 := by exact_mod_cast right_ne_zero_of_mul h
    rw [if_neg h, isNegative_eq_decide hxf (by rwa [hxv]), isNegative_eq_decide hyf (by rwa [hyv]),
      hxv, hyv]
    congr 1
    rw [Bool.eq_iff_iff, decide_eq_true_iff, bne_iff_ne, ne_eq, decide_eq_decide, Int.cast_lt_zero,
      Int.cast_lt_zero, mul_neg_iff]
    have ha' : a ≠ 0 := left_ne_zero_of_mul h
    have hb' : b ≠ 0 := right_ne_zero_of_mul h
    omega

theorem mul_eq_ofRat {x y : Double} (hx : x.isFinite = true) (hy : y.isFinite = true) :
    x * y = ofRat (x.isNegative != y.isNegative) |x.value * y.value| := by
  cases x with
  | nan => cases hx
  | infinite negative => cases hx
  | finite negative m e h =>
    cases y with
    | nan => cases hy
    | infinite negative => cases hy
    | finite negative' n f h' =>
      change mul _ _ = _
      rw [mul]
      split
      · next a b ha hb => exact ofScaled_mul_eq_ofRat ha hb
      · rw [abs_mul, abs_value, abs_value, mul_mul_mul_comm, ← zpow_add₀ two_ne_zero, ← Nat.cast_mul,
          ← ofDyadic_eq_ofRat]

-- Below one, doubles stop at the last of 53 binary places.
theorem value_le_of_lt_one {x : Double} (hlt : x.value < 1) : x.value ≤ 1 - 2 ^ (-53 : ℤ) := by
  cases x with
  | nan => norm_num [value]
  | infinite negative => norm_num [value]
  | finite negative m e h =>
    cases negative with
    | true =>
      have hnonpos : (finite true m e h).value ≤ 0 := by
        simp only [value, cast_signed, if_true]
        exact mul_nonpos_of_nonpos_of_nonneg (by simp) (by positivity)
      exact hnonpos.trans (by norm_num)
    | false =>
      simp only [value, cast_signed, Bool.false_eq_true, if_false] at hlt ⊢
      have hm : (m : ℚ) ≤ 2 ^ 53 - 1 := by
        have : (m : ℚ) + 1 ≤ 2 ^ 53 := by exact_mod_cast h.1
        linarith
      have he : e ≤ -53 := by
        by_contra hgt
        have hm52 : (2 : ℚ) ^ 52 ≤ m := by exact_mod_cast h.2.2.2.resolve_right (by omega)
        have hone : (1 : ℚ) ≤ m * 2 ^ e := by
          calc (1 : ℚ) = 2 ^ 52 * 2 ^ (-52 : ℤ) := by norm_num
            _ ≤ m * 2 ^ e := by
              gcongr
              · exact one_le_two
              · omega
        linarith
      calc (m : ℚ) * 2 ^ e ≤ (2 ^ 53 - 1) * 2 ^ (-53 : ℤ) := by
            gcongr
            exact one_le_two
        _ = 1 - 2 ^ (-53 : ℤ) := by norm_num

-- Half of the last place is at most the 2^53rd part of a number, or half of the least double.
theorem two_zpow_lastPlace_sub_one_le {q : ℚ} (hq : 0 < q) :
    2 ^ (lastPlace q - 1) ≤ max (q * 2 ^ (-53 : ℤ)) (2 ^ (-1075 : ℤ)) := by
  by_cases hmin : lastPlace q = -1074
  · rw [hmin]
    exact le_max_right _ _
  · refine le_trans ?_ (le_max_left _ _)
    have hle := mul_le_mul_of_nonneg_right (two_zpow_lastPlace_le hq hmin)
      (by positivity : (0 : ℚ) ≤ 2 ^ (-53 : ℤ))
    rwa [← zpow_add₀ two_ne_zero, show lastPlace q + 52 + -53 = lastPlace q - 1 by ring] at hle

theorem abs_value_ofRat_le (negative : Bool) {q : ℚ} (hq : 0 < q)
    (hf : (ofRat negative q).isFinite = true) :
    |(ofRat negative q).value| ≤ q + max (q * 2 ^ (-53 : ℤ)) (2 ^ (-1075 : ℤ)) := by
  have herr := abs_value_ofRat_sub_le negative hq hf
  have habs : |(ofRat negative q).value| ≤ q + 2 ^ (lastPlace q - 1) := by
    rw [abs_le] at herr
    rw [abs_le]
    cases negative <;> simp at herr <;> constructor <;> linarith
  exact habs.trans (add_le_add_right (two_zpow_lastPlace_sub_one_le hq) q)

theorem value_ofRat_nonneg {q : ℚ} (hq : 0 < q) : 0 ≤ (ofRat false q).value := by
  obtain ⟨k, -, ⟨hinf, -⟩ | ⟨-, -, hv⟩⟩ := ofRat_cases false hq
  · rw [hinf]
    rfl
  · rw [hv, cast_signed, if_neg Bool.false_ne_true]
    positivity

-- A product with a fraction below one is rounded to less than the other factor.
theorem value_mul_lt {p x : Double} (hp : p.isFinite = true) (hx : x.isFinite = true)
    (hnonneg : 0 ≤ p.value) (hlt : p.value < 1) (hle : 1 ≤ x.value)
    (hmax : x.value ≤ 2 ^ (1023 : ℤ)) :
    (p * x).isFinite = true ∧ 0 ≤ (p * x).value ∧ (p * x).value < x.value := by
  rw [mul_eq_ofRat hp hx]
  have hxpos : 0 < x.value := by linarith
  rcases hnonneg.eq_or_lt with hzero | hpos
  · rw [← hzero, zero_mul, abs_zero, ofRat_zero, value_zero]
    exact ⟨rfl, le_rfl, hxpos⟩
  · have hq : 0 < p.value * x.value := mul_pos hpos hxpos
    have hqlt : p.value * x.value < x.value := mul_lt_of_lt_one_left hxpos hlt
    rw [abs_of_pos hq, isNegative_eq_decide hp hpos.ne', isNegative_eq_decide hx hxpos.ne',
      decide_eq_false (not_lt.mpr hpos.le), decide_eq_false (not_lt.mpr hxpos.le), bne_self_eq_false]
    have hf := isFinite_ofRat false hq (hqlt.trans_le hmax)
    have hround := abs_value_ofRat_le false hq hf
    have hfraction := mul_le_mul_of_nonneg_right (value_le_of_lt_one hlt) hxpos.le
    have hvalue : 0 ≤ (ofRat false (p.value * x.value)).value := value_ofRat_nonneg hq
    refine ⟨hf, hvalue, ?_⟩
    rw [abs_of_nonneg hvalue] at hround
    have hleast : (2 : ℚ) ^ (-1075 : ℤ) < 2 ^ (-53 : ℤ) :=
      zpow_lt_zpow_right₀ one_lt_two (by norm_num)
    have hu : (0 : ℚ) < 2 ^ (-53 : ℤ) := by positivity
    generalize (2 : ℚ) ^ (-53 : ℤ) = u at *
    generalize (2 : ℚ) ^ (-1075 : ℤ) = least at *
    rcases max_cases (p.value * x.value * u) least with ⟨hm, -⟩ | ⟨hm, -⟩
    · rw [hm] at hround
      calc (ofRat false (p.value * x.value)).value ≤ p.value * x.value * (1 + u) := by linarith
        _ ≤ (1 - u) * x.value * (1 + u) := by gcongr
        _ = x.value - u ^ 2 * x.value := by ring
        _ < x.value := sub_lt_self _ (by positivity)
    · rw [hm] at hround
      have hux : u ≤ u * x.value := le_mul_of_one_le_right hu.le hle
      linarith

theorem ofNat_eq_ofRat (n : ℕ) : ofNat n = ofRat false n := by
  rw [ofNat, ofDyadic_eq_ofRat, zpow_zero, mul_one]

theorem value_ofNat_one : (ofNat 1).isFinite = true ∧ (ofNat 1).value = 1 := by
  have hint : (ofNat 1).toInt? = some 1 := by decide +kernel
  simpa using toInt?_eq_some_iff.mp hint

-- Rounding does not pass a double on either side.
theorem le_value_ofRat {x : Double} {q : ℚ} (hx : x.isFinite = true) (hpos : 0 < x.value)
    (hle : x.value ≤ q) (hf : (ofRat false q).isFinite = true) : x.value ≤ (ofRat false q).value := by
  have hself := ofRat_abs_value hx
  rw [abs_of_pos hpos] at hself
  have hmono := abs_value_ofRat_mono x.isNegative false hpos hle (by rwa [hself]) hf
  rwa [hself, abs_of_pos hpos, abs_of_nonneg (value_ofRat_nonneg (hpos.trans_le hle))] at hmono

theorem value_ofRat_le {x : Double} {q : ℚ} (hx : x.isFinite = true) (hq : 0 < q)
    (hle : q ≤ x.value) (hf : (ofRat false q).isFinite = true) : (ofRat false q).value ≤ x.value := by
  have hself := ofRat_abs_value hx
  rw [abs_of_pos (hq.trans_le hle)] at hself
  have hmono := abs_value_ofRat_mono false x.isNegative hq hle hf (by rwa [hself])
  rwa [hself, abs_of_pos (hq.trans_le hle), abs_of_nonneg (value_ofRat_nonneg hq)] at hmono

theorem le_value_ofNat {x : Double} {n : ℕ} (hx : x.isFinite = true) (hpos : 0 < x.value)
    (hle : x.value ≤ n) (hn : (ofNat n).isFinite = true) : x.value ≤ (ofNat n).value := by
  rw [ofNat_eq_ofRat] at hn ⊢
  exact le_value_ofRat hx hpos hle hn

theorem value_ofNat_le {x : Double} {n : ℕ} (hx : x.isFinite = true) (hn : 0 < n)
    (hle : n ≤ x.value) (hf : (ofNat n).isFinite = true) : (ofNat n).value ≤ x.value := by
  rw [ofNat_eq_ofRat] at hf ⊢
  exact value_ofRat_le hx (by exact_mod_cast hn) hle hf

theorem exists_value_eq_two_zpow : ∃ x : Double, x.isFinite = true ∧ x.value = 2 ^ (1023 : ℤ) := by
  obtain ⟨hf, -, hv⟩ := ofRat_of_representable false (m := 2 ^ 52) (e := 971) (by norm_num)
    (by norm_num) (by norm_num)
  refine ⟨_, hf, ?_⟩
  rw [hv, cast_signed, if_neg Bool.false_ne_true, Nat.cast_pow, Nat.cast_ofNat, ← zpow_natCast,
    ← zpow_add₀ two_ne_zero]
  rfl

theorem value_ofNat_bounds {n : ℕ} (hn : 0 < n) (hmax : n < 2 ^ 1023) :
    (ofNat n).isFinite = true ∧ 1 ≤ (ofNat n).value ∧ (ofNat n).value ≤ 2 ^ (1023 : ℤ) := by
  have hnmax : (n : ℚ) < 2 ^ (1023 : ℤ) := by exact_mod_cast hmax
  have hf : (ofNat n).isFinite = true := by
    rw [ofNat_eq_ofRat]
    exact isFinite_ofRat false (by exact_mod_cast hn) hnmax
  obtain ⟨hone, hvone⟩ := value_ofNat_one
  obtain ⟨x, hx, hvx⟩ := exists_value_eq_two_zpow
  refine ⟨hf, ?_, ?_⟩
  · rw [← hvone]
    exact le_value_ofNat hone (by rw [hvone]; exact one_pos) (by rw [hvone]; exact_mod_cast hn) hf
  · rw [← hvx]
    exact value_ofNat_le hx hn (by rw [hvx]; exact hnmax.le) hf

-- A fraction of a count, rounded down, is the number of a place among so many.
theorem floor_mul_ofNat {p : Double} {n : ℕ} (hp : p.isFinite = true) (hnonneg : 0 ≤ p.value)
    (hlt : p.value < 1) (hn : 0 < n) (hmax : n < 2 ^ 1023) :
    ∃ k : ℕ, (p * ofNat n).floor.toInt? = some (k : ℤ) ∧ k < n := by
  obtain ⟨hf, hone, hle⟩ := value_ofNat_bounds hn hmax
  obtain ⟨hpf, hpnonneg, hplt⟩ := value_mul_lt hp hf hnonneg hlt hone hle
  -- the rounded count may be above the count, but then no double lies between them
  have hltn : (p * ofNat n).value < n := by
    by_contra hge
    exact absurd hplt (not_lt.mpr (value_ofNat_le hpf hn (not_lt.mp hge) hf))
  obtain ⟨k, hk⟩ := Int.eq_ofNat_of_zero_le (Int.floor_nonneg.mpr hpnonneg)
  refine ⟨k, by rw [toInt?_floor hpf, hk], ?_⟩
  have hfloor : ⌊(p * ofNat n).value⌋ < n := Int.floor_lt.mpr (by exact_mod_cast hltn)
  omega

end RecordQuery.Double
