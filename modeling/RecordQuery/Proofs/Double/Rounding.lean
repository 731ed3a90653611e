import Mathlib.Data.Int.Log
import RecordQuery.Proofs.Double.Value

/-!
Rounding to the nearest double as a function of the exact number alone. Quotients and products with a
power of two are rounded by two different computations; both are `ofRat`, whose result is exact for
numbers that have a double and at most half a place away from all others.
-/

namespace RecordQuery.Double

-- `k` is the natural number nearest to `q`, the even one of two that are equally near.
def IsNearest (q : ℚ) (k : ℕ) : Prop := |q - k| < 1 / 2 ∨ |q - k| = 1 / 2 ∧ Even k

theorem isNearest_natCast (k : ℕ) : IsNearest k k := by
  left
  norm_num

theorem IsNearest.abs_sub_le {q : ℚ} {k : ℕ} (h : IsNearest q k) : |q - k| ≤ 1 / 2 := by
  rcases h with h | h
  · exact h.le
  · exact h.1.le

theorem IsNearest.le_of_natCast_le {q : ℚ} {j k : ℕ} (h : IsNearest q k) (hj : (j : ℚ) ≤ q) :
    j ≤ k := by
  by_contra hlt
  have hk : (k : ℚ) + 1 ≤ j := by exact_mod_cast Nat.lt_of_not_le hlt
  have ha := abs_le.mp h.abs_sub_le
  linarith [ha.2]

theorem IsNearest.le_of_le_natCast {q : ℚ} {j k : ℕ} (h : IsNearest q k) (hj : q ≤ j) :
    k ≤ j := by
  by_contra hlt
  have hk : (j : ℚ) + 1 ≤ k := by exact_mod_cast Nat.lt_of_not_le hlt
  have ha := abs_le.mp h.abs_sub_le
  linarith [ha.1]

-- Two candidates are at most one apart, and then the number lies halfway between an odd and an even
-- one.
theorem IsNearest.le_of_le {q r : ℚ} {j k : ℕ} (hj : IsNearest q j) (hk : IsNearest r k)
    (hqr : q ≤ r) : j ≤ k := by
  by_contra hlt
  have hstep : (k : ℚ) + 1 ≤ j := by exact_mod_cast Nat.lt_of_not_le hlt
  have hq := abs_le.mp hj.abs_sub_le
  have hr := abs_le.mp hk.abs_sub_le
  obtain rfl : j = k + 1 := by
    have : (j : ℚ) = k + 1 := by linarith
    exact_mod_cast this
  push_cast at hq
  have hq' : q - ((k + 1 : ℕ) : ℚ) = -(1 / 2) := by push_cast; linarith
  have hr' : r - (k : ℚ) = 1 / 2 := by linarith
  have hodd : Even (k + 1) := by
    rcases hj with h | h
    · rw [hq'] at h; norm_num at h
    · exact h.2
  have heven : Even k := by
    rcases hk with h | h
    · rw [hr'] at h; norm_num at h
    · exact h.2
  exact (Nat.even_add_one.mp hodd) heven

theorem IsNearest.unique {q : ℚ} {j k : ℕ} (hj : IsNearest q j) (hk : IsNearest q k) : j = k :=
  Nat.le_antisymm (hj.le_of_le hk le_rfl) (hk.le_of_le hj le_rfl)

theorem isNearest_nearest (n : ℕ) {d : ℕ} (hd : 0 < d) : IsNearest (n / d) (nearest n d) := by
  have hd' : (0 : ℚ) < d := by exact_mod_cast hd
  have hdiv : (d * (n / d : ℕ) + (n % d : ℕ) : ℚ) = n := by exact_mod_cast Nat.div_add_mod n d
  have hfrac : (n : ℚ) / d - (n / d : ℕ) = (n % d : ℕ) / d := by
    rw [eq_div_iff hd'.ne', sub_mul, div_mul_cancel₀ _ hd'.ne']
    linarith
  have hrest : ((n % d : ℕ) : ℚ) < d := by exact_mod_cast Nat.mod_lt n hd
  simp only [nearest]
  split
  · next h =>
    left
    rw [hfrac, abs_of_nonneg (by positivity), div_lt_iff₀ hd']
    have : (2 * (n % d : ℕ) : ℚ) < d := by exact_mod_cast h
    linarith
  · split
    · next h =>
      right
      have hhalf : ((n % d : ℕ) : ℚ) / d = 1 / 2 := by
        rw [div_eq_iff hd'.ne']
        have : (2 * (n % d : ℕ) : ℚ) = d := by exact_mod_cast h
        linarith
      rcases Nat.mod_two_eq_zero_or_one (n / d) with h2 | h2
      · rw [h2, Nat.add_zero, hfrac, hhalf]
        exact ⟨by norm_num, Nat.even_iff.mpr h2⟩
      · rw [h2, Nat.cast_add, ← sub_sub, hfrac, hhalf]
        exact ⟨by norm_num, Nat.even_add_one.mpr (Nat.not_even_iff.mpr h2)⟩
    · next hlt hne =>
      left
      have hgt : (d : ℚ) < 2 * (n % d : ℕ) := by
        exact_mod_cast Nat.lt_of_le_of_ne (Nat.le_of_not_lt hlt) (Ne.symm hne)
      have hhalf : 1 / 2 < ((n % d : ℕ) : ℚ) / d := by rw [lt_div_iff₀ hd']; linarith
      have hone : ((n % d : ℕ) : ℚ) / d < 1 := by rwa [div_lt_one hd']
      rw [Nat.cast_add, Nat.cast_one, ← sub_sub, hfrac, abs_lt]
      constructor <;> linarith

-- The exponent of the last binary place that doubles near `q` have.
def lastPlace (q : ℚ) : ℤ := max (-1074) (Int.log 2 q - 52)

-- The double nearest to a number that is not negative, with the given sign.
def ofRat (negative : Bool) (q : ℚ) : Double :=
  if q = 0 then zero negative
  else
    let scaled := q / 2 ^ lastPlace q
    ofParts negative (nearest scaled.num.natAbs scaled.den) (lastPlace q)

theorem exists_ofRat_eq (negative : Bool) {q : ℚ} (hq : 0 < q) :
    ∃ k, IsNearest (q / 2 ^ lastPlace q) k ∧
      ofRat negative q = ofParts negative k (lastPlace q) := by
  refine ⟨_, ?_, by rw [ofRat, if_neg hq.ne']⟩
  set r := q / 2 ^ lastPlace q
  have hr : 0 ≤ r.num := Rat.num_nonneg.mpr (by positivity)
  have hnum : ((r.num.natAbs : ℕ) : ℚ) = (r.num : ℚ) := by
    rw [Nat.cast_natAbs, abs_of_nonneg hr]
  have h := isNearest_nearest r.num.natAbs r.den_pos
  rwa [hnum, Rat.num_div_den] at h

-- The computations below all have this form.
theorem ofParts_eq_ofRat (negative : Bool) {q : ℚ} {k : ℕ} (hq : 0 < q)
    (h : IsNearest (q / 2 ^ lastPlace q) k) :
    ofParts negative k (lastPlace q) = ofRat negative q := by
  obtain ⟨j, hj, he⟩ := exists_ofRat_eq negative hq
  rw [he, hj.unique h]

theorem log_eq_of_le_of_lt {q : ℚ} {k : ℤ} (hl : 2 ^ k ≤ q) (hu : q < 2 ^ (k + 1)) :
    Int.log 2 q = k := by
  have hq : 0 < q := lt_of_lt_of_le (by positivity) hl
  have h1 := (Int.zpow_le_iff_le_log (R := ℚ) Nat.one_lt_two hq).mp (by exact_mod_cast hl)
  have h2 := (Int.lt_zpow_iff_log_lt (R := ℚ) Nat.one_lt_two hq).mp (by exact_mod_cast hu)
  omega

theorem two_zpow_log_le {q : ℚ} (hq : 0 < q) : (2 : ℚ) ^ Int.log 2 q ≤ q := by
  exact_mod_cast Int.zpow_log_le_self Nat.one_lt_two hq

theorem lt_two_zpow_log_add_one (q : ℚ) : q < (2 : ℚ) ^ (Int.log 2 q + 1) := by
  exact_mod_cast Int.lt_zpow_succ_log_self Nat.one_lt_two q

theorem two_zpow_natLog2_le {n : ℕ} (hn : 0 < n) : (2 : ℚ) ^ (n.log2 : ℤ) ≤ n := by
  rw [zpow_natCast]
  exact_mod_cast Nat.log2_self_le hn.ne'

theorem lt_two_zpow_natLog2_add_one (n : ℕ) : (n : ℚ) < 2 ^ ((n.log2 : ℤ) + 1) := by
  have h : (n : ℚ) < (2 ^ (n.log2 + 1) : ℕ) := by exact_mod_cast Nat.lt_log2_self
  rwa [Nat.cast_pow, ← zpow_natCast, Nat.cast_ofNat, Nat.cast_add, Nat.cast_one] at h

theorem log2_eq_log {n d : ℕ} (hn : 0 < n) (hd : 0 < d) : log2 n d = Int.log 2 (n / d : ℚ) := by
  have hd' : (0 : ℚ) < d := by exact_mod_cast hd
  have hn1 := two_zpow_natLog2_le hn
  have hn2 := lt_two_zpow_natLog2_add_one n
  have hd1 := two_zpow_natLog2_le hd
  have hd2 := lt_two_zpow_natLog2_add_one d
  symm
  -- the shifted comparison asks whether the quotient reaches 2 ^ k
  have hiff (k : ℤ) : d <<< k.toNat ≤ n <<< (-k).toNat ↔ (2 : ℚ) ^ k ≤ n / d := by
    rw [le_div_iff₀ hd', zpow_eq_div 2, div_mul_eq_mul_div, div_le_iff₀ (by positivity),
      Nat.shiftLeft_eq, Nat.shiftLeft_eq, mul_comm d]
    exact_mod_cast Iff.rfl
  unfold log2
  simp only [hiff]
  set k : ℤ := (n.log2 : ℤ) - d.log2
  have hk : (n.log2 : ℤ) = k + d.log2 := by omega
  rw [hk, zpow_add₀ two_ne_zero] at hn1
  rw [hk, show k + (d.log2 : ℤ) + 1 = (k + 1) + d.log2 by ring, zpow_add₀ two_ne_zero] at hn2
  split
  · next h =>
    apply log_eq_of_le_of_lt h
    rw [div_lt_iff₀ hd']
    exact hn2.trans_le (mul_le_mul_of_nonneg_left hd1 (by positivity))
  · next h =>
    apply log_eq_of_le_of_lt
    · rw [le_div_iff₀ hd']
      refine le_trans ?_ hn1
      rw [zpow_add_one₀ two_ne_zero] at hd2
      rw [zpow_sub_one₀ two_ne_zero, mul_assoc]
      refine mul_le_mul_of_nonneg_left ?_ (by positivity)
      linarith
    · rw [sub_add_cancel]
      exact lt_of_not_ge h

theorem ofFraction_eq_ofRat (negative : Bool) (n : ℕ) {d : ℕ} (hd : 0 < d) :
    ofFraction negative n d = ofRat negative (n / d) := by
  have hd' : (0 : ℚ) < d := by exact_mod_cast hd
  by_cases hn : n = 0
  · simp [ofFraction, ofRat, hn]
  · have hpos : 0 < n := Nat.pos_of_ne_zero hn
    have hq : (0 : ℚ) < n / d := by positivity
    unfold ofFraction
    rw [if_neg hn, log2_eq_log hpos hd]
    apply ofParts_eq_ofRat negative hq
    change IsNearest (n / d / 2 ^ lastPlace (n / d))
      (nearest (n <<< (-lastPlace (n / d)).toNat) (d <<< (lastPlace (n / d)).toNat))
    set e := lastPlace (n / d)
    convert isNearest_nearest (n <<< (-e).toNat) (d := d <<< e.toNat)
      (by rw [Nat.shiftLeft_eq]; positivity) using 1
    rw [zpow_eq_div 2, Nat.shiftLeft_eq, Nat.shiftLeft_eq]
    push_cast
    field_simp

theorem log_natCast_mul_zpow {n : ℕ} (hn : 0 < n) (e : ℤ) :
    Int.log 2 ((n : ℚ) * 2 ^ e) = e + n.log2 := by
  apply log_eq_of_le_of_lt
  · rw [add_comm, zpow_add₀ two_ne_zero]
    exact mul_le_mul_of_nonneg_right (two_zpow_natLog2_le hn) (by positivity)
  · rw [show e + (n.log2 : ℤ) + 1 = (n.log2 + 1) + e by ring, zpow_add₀ two_ne_zero]
    exact mul_lt_mul_of_pos_right (lt_two_zpow_natLog2_add_one n) (by positivity)

theorem ofDyadic_eq_ofRat (negative : Bool) (n : ℕ) (e : ℤ) :
    ofDyadic negative n e = ofRat negative (n * 2 ^ e) := by
  by_cases hn : n = 0
  · simp [ofDyadic, ofRat, hn]
  · have hpos : 0 < n := Nat.pos_of_ne_zero hn
    have hq : (0 : ℚ) < n * 2 ^ e := by positivity
    have ht : max (-1074) (e + (n.log2 : ℤ) - 52) = lastPlace (n * 2 ^ e) := by
      rw [lastPlace, log_natCast_mul_zpow hpos]
    simp only [ofDyadic, if_neg hn, ht]
    set t := lastPlace (n * 2 ^ e) with hlast
    have hscaled : (n : ℚ) * 2 ^ e / 2 ^ t = n * 2 ^ (e - t) := by
      rw [zpow_sub₀ two_ne_zero, mul_div_assoc]
    split
    · next h =>
      apply ofParts_eq_ofRat negative hq
      rw [← hlast, hscaled, zpow_eq_div 2, show (-(e - t)).toNat = 0 by omega, Nat.shiftLeft_eq]
      convert isNearest_natCast (n * 2 ^ (e - t).toNat) using 1
      push_cast
      ring
    · next h =>
      apply ofParts_eq_ofRat negative hq
      rw [← hlast, hscaled, zpow_eq_div 2, show (e - t).toNat = 0 by omega,
        show -(e - t) = t - e by ring, powerOfTwo_eq]
      convert isNearest_nearest n (d := 2 ^ (t - e).toNat) (by positivity) using 1
      push_cast
      ring

theorem ofScaled_eq_ofRat (negativeZero : Bool) (n e : ℤ) :
    ofScaled negativeZero n e =
      ofRat (if n = 0 then negativeZero else decide (n < 0)) (|(n : ℚ)| * 2 ^ e) := by
  rw [ofScaled, ofDyadic_eq_ofRat, Nat.cast_natAbs, Int.cast_abs]

end RecordQuery.Double
