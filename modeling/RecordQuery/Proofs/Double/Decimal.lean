import RecordQuery.Proofs.Double.Nearest
import RecordQuery.Proofs.Text.Decimal

/-!
Doubles as decimals. Reading a decimal is rounding its exact value, the decimal chosen for a double is
read as that double, and so is the text laid out from it.
-/

namespace RecordQuery.Double

theorem two_zpow_three_mul_le (n : ℕ) : (2 : ℚ) ^ (3 * n : ℤ) ≤ 10 ^ (n : ℤ) := by
  rw [zpow_mul, zpow_natCast, zpow_natCast]
  gcongr
  norm_num

-- A decimal whose exponent alone puts it below all doubles, however long its coefficient.
theorem decimal_lt_of_exponent_lt {c : ℕ} {e : ℤ} (h : e < -(402 + c.log2 : ℤ)) :
    (c : ℚ) * 10 ^ e < 2 ^ (-1075 : ℤ) := by
  have hc : (c : ℚ) < 2 * 2 ^ c.log2 := by
    have hlt := lt_two_zpow_natLog2_add_one c
    rwa [zpow_add_one₀ two_ne_zero, zpow_natCast, mul_comm] at hlt
  have he : (10 : ℚ) ^ e ≤ 10 ^ (-403 : ℤ) * (10 ^ c.log2)⁻¹ := by
    rw [← zpow_natCast, ← zpow_neg, ← zpow_add₀ (by norm_num)]
    exact zpow_le_zpow_right₀ (by norm_num) (by omega)
  have hle : (2 : ℚ) ^ c.log2 * (10 ^ c.log2)⁻¹ ≤ 1 := by
    rw [← div_eq_mul_inv, div_le_one (by positivity)]
    gcongr
    norm_num
  calc (c : ℚ) * 10 ^ e ≤ 2 * 2 ^ c.log2 * (10 ^ (-403 : ℤ) * (10 ^ c.log2)⁻¹) := by gcongr
    _ = 2 * 10 ^ (-403 : ℤ) * (2 ^ c.log2 * (10 ^ c.log2)⁻¹) := by ring
    _ ≤ 2 * 10 ^ (-403 : ℤ) * 1 := by gcongr
    _ ≤ 2 * 2 ^ (-1209 : ℤ) * 1 := by
      have hten := two_zpow_three_mul_le 403
      rw [zpow_neg, zpow_neg]
      gcongr
      exact hten
    _ = 2 ^ (-1208 : ℤ) := by
      rw [mul_one, show (-1208 : ℤ) = -1209 + 1 by rfl, zpow_add_one₀ two_ne_zero, mul_comm]
    _ < 2 ^ (-1075 : ℤ) := zpow_lt_zpow_right₀ (by norm_num) (by norm_num)

theorem ofDecimal_eq_ofRat (negative : Bool) (c : ℕ) (e : ℤ) :
    ofDecimal negative c e = ofRat negative (c * 10 ^ e) := by
  unfold ofDecimal
  split
  · next hc => rw [hc, Nat.cast_zero, zero_mul, ofRat_zero]
  · next hc =>
    have hpos : (1 : ℚ) ≤ c := by exact_mod_cast Nat.one_le_iff_ne_zero.mpr hc
    split
    · next he =>
      symm
      apply ofRat_eq_infinite
      calc (2 : ℚ) ^ (1024 : ℤ) ≤ 2 ^ (1203 : ℤ) := zpow_le_zpow_right₀ (by norm_num) (by norm_num)
        _ ≤ 10 ^ (401 : ℤ) := two_zpow_three_mul_le 401
        _ ≤ 1 * 10 ^ e := by
          rw [one_mul]
          exact zpow_le_zpow_right₀ (by norm_num) (by omega)
        _ ≤ c * 10 ^ e := by gcongr
    · split
      · next he =>
        exact (ofRat_eq_zero negative (by positivity) (decimal_lt_of_exponent_lt he)).symm
      · rw [ofFraction_eq_ofRat _ _ (by rw [Nat.pow_eq]; positivity), zpow_eq_div 10]
        congr 1
        push_cast [Nat.pow_eq]
        ring

-- What the search for a short decimal returns reads back.
theorem multiple?_eq_some {x : Double} {n d c : ℕ} {e : ℤ} (h : multiple? x n d e = some c) :
    ofDecimal false c e = x := by
  simp only [multiple?, decide_eq_true_eq] at h
  split at h
  · next hread =>
    cases h
    exact hread
  · split at h
    · next hread =>
      cases h
      exact hread
    · split at h
      · next hread =>
        cases h
        exact hread
      · cases h

theorem coarsest?_eq_some {x : Double} {n d c : ℕ} {e : ℤ} {grids : List ℤ}
    (h : coarsest? x n d grids = some (c, e)) : ofDecimal false c e = x := by
  induction grids with
  | nil => cases h
  | cons grid finer ih =>
    simp only [coarsest?] at h
    split at h
    · next found hfound =>
      cases h
      exact multiple?_eq_some hfound
    · exact ih h

-- The exact value as a decimal, which the search falls back on.
theorem exact_decimal (m : ℕ) (e : ℤ) :
    ((m <<< e.toNat * Nat.pow 5 (-e).toNat : ℕ) : ℚ) * 10 ^ min e 0 = m * 2 ^ e := by
  rw [zpow_eq_div 2, Nat.shiftLeft_eq]
  rcases le_total 0 e with h | h
  · rw [min_eq_right h, show (-e).toNat = 0 by omega]
    simp
  · rw [min_eq_left h, zpow_eq_div 10, show e.toNat = 0 by omega,
      show (10 : ℚ) ^ (-e).toNat = 2 ^ (-e).toNat * 5 ^ (-e).toNat by rw [← mul_pow]; norm_num]
    push_cast [Nat.pow_eq]
    field_simp

theorem ofRat_shortest {m : ℕ} {e : ℤ} (h : Canonical m e) :
    ofRat false ((shortest m e).1 * 10 ^ (shortest m e).2) = .finite false m e h := by
  have hparts : ofParts false m e = .finite false m e h := by rw [ofParts, dif_pos h]
  simp only [shortest, hparts]
  set found := coarsest? (finite false m e h) (m <<< e.toNat) (powerOfTwo (-e).toNat)
    ((List.range 17).map fun i : ℕ =>
      log10 (m <<< e.toNat) (powerOfTwo (-e).toNat) - ((i : ℤ) + 1)) with hfound
  cases hf : found with
  | none =>
    rw [Option.getD_none, exact_decimal]
    have hround := ofRat_abs_value (x := .finite false m e h) rfl
    rwa [abs_value] at hround
  | some decimal =>
    rw [Option.getD_some, ← ofDecimal_eq_ofRat]
    exact coarsest?_eq_some (by rw [← hfound, hf])

theorem withoutZeros_eq (c : ℕ) (e : ℤ) :
    ((withoutZeros c e).1 : ℚ) * 10 ^ (withoutZeros c e).2 = c * 10 ^ e := by
  fun_induction withoutZeros c e with
  | case1 c e h ih =>
    rw [ih, zpow_add_one₀ (by norm_num)]
    have hc : (c : ℚ) = (c / 10 : ℕ) * 10 := by
      exact_mod_cast (Nat.div_mul_cancel (Nat.dvd_of_mod_eq_zero h.2)).symm
    rw [hc]
    ring
  | case2 => rfl

end RecordQuery.Double
