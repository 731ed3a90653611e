import Mathlib.Data.Rat.Floor
import Mathlib.Tactic
import RecordQuery.Number.Order

/-!
The exact value of a double. A finite double is the rational number `significand * 2 ^ exponent` with
its sign; which integer it is, where it lies among the others and what it is rounded down to are
facts about that number.
-/

namespace RecordQuery.Double

-- The rational number that a finite double is. Doubles that are not finite count as zero here, so
-- statements about `value` ask for `isFinite` first.
def value : Double → ℚ
  | .finite negative significand exponent _ => signed negative significand * 2 ^ exponent
  | _ => 0

-- The integers that the safe range holds.
def IsSafe (n : ℤ) : Prop := -maxSafe ≤ n ∧ n ≤ maxSafe

instance (n : ℤ) : Decidable (IsSafe n) := inferInstanceAs (Decidable (_ ∧ _))

theorem isSafe_iff {n : ℤ} : IsSafe n ↔ |n| < 2 ^ 53 := by
  simp only [IsSafe, maxSafe, abs_lt]
  omega

@[simp] theorem powerOfTwo_eq (k : ℕ) : powerOfTwo k = 2 ^ k := by
  simp [powerOfTwo, Nat.shiftLeft_eq]

-- A power with an integer exponent, as the quotient of the two powers that the definitions use.
theorem zpow_eq_div (b : ℚ) (e : ℤ) : b ^ e = b ^ e.toNat / b ^ (-e).toNat := by
  rcases le_total 0 e with h | h
  · obtain ⟨k, rfl⟩ := Int.eq_ofNat_of_zero_le h
    simp
  · obtain ⟨k, hk⟩ := Int.eq_ofNat_of_zero_le (Int.neg_nonneg_of_nonpos h)
    obtain rfl : e = -(k : ℤ) := by omega
    simp

theorem magnitude_eq (m : ℕ) (e : ℤ) : magnitude m e = m * 2 ^ e := by
  rw [zpow_eq_div 2]
  unfold magnitude
  split
  · next h =>
    have hz : (-e).toNat = 0 := by omega
    simp [hz, Nat.shiftLeft_eq]
  · next h =>
    have hz : e.toNat = 0 := by omega
    simp only [powerOfTwo_eq, hz, pow_zero]
    split
    · next hd =>
      rw [Nat.cast_div (Nat.dvd_of_mod_eq_zero hd) (by positivity)]
      push_cast
      ring
    · rw [Rat.mkRat_eq_div]
      push_cast
      ring

theorem cast_signed (negative : Bool) (n : ℕ) :
    (signed negative n : ℚ) = if negative then -(n : ℚ) else n := by
  cases negative <;> simp [signed]

@[simp] theorem natAbs_signed (negative : Bool) (n : ℕ) : (signed negative n).natAbs = n := by
  cases negative <;> simp [signed]

theorem abs_value (negative : Bool) (m : ℕ) (e : ℤ) (h : Canonical m e) :
    |value (.finite negative m e h)| = m * 2 ^ e := by
  have hm : |(signed negative m : ℚ)| = m := by cases negative <;> simp [signed]
  rw [value, abs_mul, hm, abs_of_pos (by positivity : (0 : ℚ) < 2 ^ e)]

theorem isNaN_iff {x : Double} : x.isNaN = true ↔ x = .nan := by
  cases x <;> simp [isNaN]

theorem isNaN_of_isFinite {x : Double} (hx : x.isFinite = true) : x.isNaN = false := by
  cases x with
  | nan => cases hx
  | infinite negative => rfl
  | finite negative m e h => rfl

theorem isZero_iff {x : Double} (hx : x.isFinite = true) : x.isZero = true ↔ x.value = 0 := by
  cases x with
  | nan => cases hx
  | infinite negative => cases hx
  | finite negative m e h =>
    have hpow : (2 : ℚ) ^ e ≠ 0 := by positivity
    rw [← abs_eq_zero, abs_value, mul_eq_zero, or_iff_left hpow, Nat.cast_eq_zero]
    exact beq_iff_eq

theorem place_of_isFinite {x : Double} (hx : x.isFinite = true) : x.place = .at x.value := by
  cases x with
  | nan => cases hx
  | infinite negative => cases hx
  | finite negative m e h =>
    cases negative <;> simp [place, value, magnitude_eq, signed]

theorem lt_eq_decide {x y : Double} (hx : x.isFinite = true) (hy : y.isFinite = true) :
    lt x y = decide (x.value < y.value) := by
  rw [lt, place_of_isFinite hx, place_of_isFinite hy]

-- The integer that a double is, read off its parts, is the integer that its value is.
theorem toInt?_eq_some_iff {x : Double} {n : ℤ} :
    x.toInt? = some n ↔ x.isFinite = true ∧ x.value = n := by
  cases x with
  | nan => simp [toInt?, isFinite]
  | infinite negative => simp [toInt?, isFinite]
  | finite negative m e h =>
    simp only [toInt?, isFinite, value, true_and, zpow_eq_div 2, powerOfTwo_eq]
    split
    · next he =>
      have hz : (-e).toNat = 0 := by omega
      simp only [hz, pow_zero, div_one, Option.some.injEq, Nat.shiftLeft_eq]
      rw [← Int.cast_inj (α := ℚ), cast_signed, cast_signed]
      cases negative <;> push_cast <;> simp
    · next he =>
      have hz : e.toNat = 0 := by omega
      simp only [hz, pow_zero, mul_one_div]
      set d : ℕ := (-e).toNat
      split
      · next hd =>
        rw [Option.some.injEq, ← Int.cast_inj (α := ℚ), cast_signed, cast_signed,
          Nat.cast_div (Nat.dvd_of_mod_eq_zero hd) (by positivity)]
        cases negative <;> simp [neg_div]
      · next hd =>
        simp only [reduceCtorEq, false_iff]
        intro heq
        apply hd
        rw [div_eq_iff (by positivity)] at heq
        have hint : signed negative m = n * 2 ^ d := by exact_mod_cast heq
        have habs := congrArg Int.natAbs hint
        rw [natAbs_signed, Int.natAbs_mul, Int.natAbs_pow] at habs
        rw [habs]
        exact Nat.mul_mod_left _ _

theorem toInt?_eq_none_iff {x : Double} (hx : x.isFinite = true) :
    x.toInt? = none ↔ ∀ n : ℤ, x.value ≠ n := by
  rw [Option.eq_none_iff_forall_ne_some]
  simp only [ne_eq, toInt?_eq_some_iff, hx, true_and]

theorem toSafeInt?_eq_some_iff {x : Double} {n : ℤ} :
    x.toSafeInt? = some n ↔ x.toInt? = some n ∧ IsSafe n := by
  unfold toSafeInt? IsSafe
  cases x.toInt? with
  | none => simp
  | some m =>
    simp only [Option.ite_none_right_eq_some, Option.some.injEq]
    constructor
    · rintro ⟨h, rfl⟩
      exact ⟨rfl, h⟩
    · rintro ⟨rfl, h⟩
      exact ⟨h, rfl⟩

-- A double with a fraction is smaller than any integer that is not safe.
theorem abs_value_lt_of_toInt?_eq_none {x : Double} (hx : x.isFinite = true)
    (hn : x.toInt? = none) : |x.value| < 2 ^ 53 := by
  cases x with
  | nan => cases hx
  | infinite negative => cases hx
  | finite negative m e h =>
    have he : e < 0 := by
      by_contra he
      simp [toInt?, show 0 ≤ e by omega] at hn
    have hm : (m : ℚ) < 2 ^ 53 := by exact_mod_cast h.1
    rw [abs_value]
    calc (m : ℚ) * 2 ^ e ≤ m * 1 := by
          gcongr
          exact zpow_le_one_of_nonpos₀ (by norm_num) he.le
      _ < 2 ^ 53 := by rwa [mul_one]

end RecordQuery.Double
