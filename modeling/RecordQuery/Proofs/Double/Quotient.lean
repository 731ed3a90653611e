import Mathlib.Algebra.Order.Floor.Semifield
import RecordQuery.Proofs.Double.Fraction

/-!
Integers beyond 2^53, and quotients rounded up. Up to 2^54 an integer is rounded to an even neighbour
at most. The quotient of two integers is rounded to a double before it is rounded up, and what the
first rounding drops is not rounded up any more.
-/

namespace RecordQuery.Double

-- The integer that an integer up to 2^54 is rounded to: itself, or if there is no such double the
-- neighbour that four divides.
def rounded (n : ℤ) : ℤ :=
  if (-2 ^ 53 ≤ n ∧ n ≤ 2 ^ 53) ∨ n % 2 = 0 then n
  else if n % 4 = 1 then n - 1 else n + 1

theorem toInt?_ofScaled_rounded (negativeZero : Bool) {n : ℤ} (h : |n| < 2 ^ 54) :
    (ofScaled negativeZero n 0).toInt? = some (rounded n) := by
  by_cases hsmall : |n| ≤ 2 ^ 53
  · rw [toInt?_ofScaled negativeZero hsmall, rounded, if_pos (.inl (abs_le.mp hsmall))]
  · by_cases heven : n % 2 = 0
    · rw [toInt?_ofScaled_of_even negativeZero h (Int.even_iff.mpr heven), rounded,
        if_pos (.inr heven)]
    · have hodd : Odd n := Int.not_even_iff_odd.mp fun hn => heven (Int.even_iff.mp hn)
      have hneither : ¬((-2 ^ 53 ≤ n ∧ n ≤ 2 ^ 53) ∨ n % 2 = 0) :=
        not_or.mpr ⟨fun hn => hsmall (abs_le.mpr hn), heven⟩
      rw [toInt?_ofScaled_of_odd negativeZero (not_le.mp hsmall) h hodd, rounded, if_neg hneither]

theorem rounded_of_abs_le {n : ℤ} (h : |n| ≤ 2 ^ 53) : rounded n = n :=
  if_pos (.inl (abs_le.mp h))

theorem rounded_pos_iff {n : ℤ} : 0 < rounded n ↔ 0 < n := by
  simp only [rounded]
  split_ifs <;> omega

theorem rounded_neg_iff {n : ℤ} : rounded n < 0 ↔ n < 0 := by
  simp only [rounded]
  split_ifs <;> omega

theorem rounded_neg (n : ℤ) : rounded (-n) = -rounded n := by
  simp only [rounded]
  split_ifs <;> omega

-- Rounding moves by one at most, and beyond 2^53 only to even integers.
theorem rounded_bounds (n : ℤ) :
    (n - 1 ≤ rounded n ∧ rounded n ≤ n + 1) ∧
      (rounded n % 2 = 0 ∨ -2 ^ 53 ≤ rounded n ∧ rounded n ≤ 2 ^ 53) := by
  simp only [rounded]
  split_ifs <;> omega

-- Rounding does not pass an integer that is a double.
theorem rounded_le {n m : ℤ} (hm : m ≤ 2 ^ 53 ∨ m % 2 = 0) (hn : 0 ≤ n) (h : n ≤ m) :
    0 ≤ rounded n ∧ rounded n ≤ m := by
  simp only [rounded]
  split_ifs <;> omega

variable {n d : ℕ}

theorem div_eq_add (n : ℕ) (hd : 0 < d) : (n / d : ℚ) = (n / d : ℕ) + (n % d : ℕ) / d := by
  have hd' : (d : ℚ) ≠ 0 := by exact_mod_cast hd.ne'
  have hdiv : (n : ℚ) = d * (n / d : ℕ) + (n % d : ℕ) := by
    exact_mod_cast (Nat.div_add_mod n d).symm
  field_simp
  linarith

theorem lastPlace_div (hd : 0 < d) (hle : d ≤ n) :
    lastPlace (n / d : ℚ) = max (-1074) (Nat.log 2 (n / d) - 52 : ℤ) := by
  have hd' : (0 : ℚ) < d := by exact_mod_cast hd
  have hone : (1 : ℚ) ≤ n / d := by
    rw [le_div_iff₀ hd', one_mul]
    exact_mod_cast hle
  rw [lastPlace, Int.log_of_one_le_right 2 hone, Nat.floor_div_eq_div]

-- The quotient is rounded to its whole part if what is left is less than half of the last place.
theorem isNearest_whole_iff {t : ℕ} (hd : 0 < d) :
    IsNearest (n / d * 2 ^ t) (n / d * 2 ^ t) ↔
      2 * (n % d * 2 ^ t) < d ∨ 2 * (n % d * 2 ^ t) = d ∧ Even (n / d * 2 ^ t) := by
  have hd' : (0 : ℚ) < d := by exact_mod_cast hd
  have hrest : (n / d * 2 ^ t : ℚ) - (n / d * 2 ^ t : ℕ) = (n % d * 2 ^ t : ℕ) / d := by
    rw [div_eq_add n hd]
    push_cast
    ring
  rw [IsNearest, hrest, abs_of_nonneg (by positivity), div_lt_div_iff₀ hd' two_pos,
    div_eq_div_iff hd'.ne' two_ne_zero]
  norm_cast
  rw [one_mul, mul_comm _ 2]

-- The rounded quotient is a whole number if nothing of the rest is left in its last place.
theorem value_ofRat_div_eq_iff (hd : 0 < d) (hle : d ≤ n) (hlt : n / d < 2 ^ 53)
    (hf : (ofRat false (n / d)).isFinite = true) :
    (ofRat false (n / d)).value = (n / d : ℕ) ↔
      IsNearest (n / d * 2 ^ (52 - Nat.log 2 (n / d))) (n / d * 2 ^ (52 - Nat.log 2 (n / d))) := by
  have hlog : Nat.log 2 (n / d) < 53 :=
    (Nat.log_lt_iff_lt_pow one_lt_two (Nat.div_pos hle hd).ne').mpr hlt
  set t := 52 - Nat.log 2 (n / d) with ht
  have hplace : (2 : ℚ) ^ lastPlace (n / d : ℚ) = (2 ^ t)⁻¹ := by
    have hlast : lastPlace (n / d : ℚ) = -(t : ℤ) := by
      rw [lastPlace_div hd hle]
      omega
    rw [hlast, zpow_neg, zpow_natCast]
  have hq : (0 : ℚ) < n / d := by
    have hd' : (0 : ℚ) < d := by exact_mod_cast hd
    have hn' : (0 : ℚ) < n := by exact_mod_cast hd.trans_le hle
    positivity
  obtain ⟨j, hj, ⟨hinf, -⟩ | ⟨-, -, hv⟩⟩ := ofRat_cases false hq
  · rw [hinf] at hf
    cases hf
  · rw [hplace, div_inv_eq_mul] at hj
    rw [hv, cast_signed, if_neg Bool.false_ne_true, hplace, mul_inv_eq_iff_eq_mul₀ (by positivity)]
    constructor
    · intro heq
      have hjk : j = n / d * 2 ^ t := by exact_mod_cast heq
      rwa [← hjk]
    · intro hnear
      have hjk := hj.unique hnear
      exact_mod_cast hjk

-- The number of whole steps of `d` in `n`, and one more for a rest that the rounded quotient has any
-- of. A rest of one is dropped if it is at most half of the last place.
def stepsTo (n d : ℕ) : ℕ :=
  if n % d = 0 ∨ n % d = 1 ∧ 2 ^ 53 ≤ d * 2 ^ Nat.log 2 (n / d) then n / d else n / d + 1

-- A rest that is at most half of the last place is one. It takes a dividend below 2^54 for that.
theorem rest_of_le_half {u w : ℕ} (hn : n < 2 ^ 54) (hrest : n % d ≠ 0) (hsplit : u * w = 2 ^ 52)
    (hwhole : d * w ≤ d * (n / d)) (hhalf : 2 * (n % d * u) ≤ d) :
    n % d = 1 ∧ 2 ^ 53 ≤ d * w := by
  have hdiv := Nat.div_add_mod n d
  have hrestPow : n % d * 2 ^ 53 ≤ d * w := by
    calc n % d * 2 ^ 53 = 2 * (n % d) * (u * w) := by rw [hsplit]; ring
      _ = 2 * (n % d * u) * w := by ring
      _ ≤ d * w := Nat.mul_le_mul_right w hhalf
  omega

-- Only a rest of one can be so small. It makes a tie with a whole part in the last place only if two
-- divides an odd number, and that has no double then.
theorem isNearest_whole_iff_rest {k : ℕ} (hd : 0 < d) (hle : d ≤ n) (hn : n < 2 ^ 54)
    (heven : 2 ^ 53 < n → n % 2 = 0) (hrest : n % d ≠ 0) (hk : k = Nat.log 2 (n / d))
    (hk52 : k ≤ 52) :
    IsNearest (n / d * 2 ^ (52 - k)) (n / d * 2 ^ (52 - k)) ↔ n % d = 1 ∧ 2 ^ 53 ≤ d * 2 ^ k := by
  have hsplit : 2 ^ (52 - k) * 2 ^ k = 2 ^ 52 := by rw [← pow_add, Nat.sub_add_cancel hk52]
  have hpow : 2 ^ k ≤ n / d := by
    rw [hk]
    exact Nat.pow_log_le_self 2 (Nat.div_pos hle hd).ne'
  have hplace : 2 ^ (52 - k) = 1 ∨ Even (2 ^ (52 - k)) := by
    by_cases hzero : 52 - k = 0
    · exact .inl (by rw [hzero, pow_zero])
    · exact .inr (Nat.even_pow.mpr ⟨even_two, hzero⟩)
  have hwhole : d * 2 ^ k ≤ d * (n / d) := Nat.mul_le_mul_left d hpow
  have hdiv := Nat.div_add_mod n d
  have hpos : 0 < 2 ^ k := by positivity
  rw [isNearest_whole_iff hd]
  generalize 2 ^ (52 - k) = u at *
  generalize 2 ^ k = w at *
  constructor
  · exact fun hhalf => rest_of_le_half hn hrest hsplit hwhole (by omega)
  · rintro ⟨hone, hlarge⟩
    have hmul : 2 * u * w ≤ d * w := by
      calc 2 * u * w = 2 * (u * w) := by ring
        _ = 2 ^ 53 := by rw [hsplit]; norm_num
        _ ≤ d * w := hlarge
    have hdouble : 2 * u ≤ d := Nat.le_of_mul_le_mul_right hmul hpos
    rw [hone, one_mul]
    rcases hdouble.lt_or_eq with hlt | htie
    · exact .inl hlt
    · refine .inr ⟨htie, ?_⟩
      rcases hplace with rfl | hu
      · exfalso
        subst htie
        omega
      · exact hu.mul_left _

theorem value_ofInt {z : ℤ} (hz : |z| ≤ 2 ^ 53) :
    (ofInt z).isFinite = true ∧ (ofInt z).value = z :=
  toInt?_eq_some_iff.mp (toInt?_ofScaled false hz)

theorem isFinite_ofRat_div (negative : Bool) (hn : 0 < n) (hn' : n < 2 ^ 54) (hd : 0 < d) :
    (ofRat negative (n / d)).isFinite = true := by
  have hnpos : (0 : ℚ) < n := by exact_mod_cast hn
  have hone : (1 : ℚ) ≤ d := by exact_mod_cast hd
  have hmax : (n : ℚ) < 2 ^ (1023 : ℤ) := by
    calc (n : ℚ) < 2 ^ (54 : ℤ) := by exact_mod_cast hn'
      _ ≤ 2 ^ (1023 : ℤ) := zpow_le_zpow_right₀ one_le_two (by norm_num)
  exact isFinite_ofRat negative (by positivity) ((div_le_self hnpos.le hone).trans_lt hmax)

-- The rounded quotient lies between the whole numbers that the quotient lies between.
theorem value_ofRat_div_bounds (hd : 0 < d) (hrest : n % d ≠ 0) (hlt : n / d < 2 ^ 53)
    (hf : (ofRat false (n / d)).isFinite = true) :
    (n / d : ℕ) ≤ (ofRat false (n / d)).value ∧
      (ofRat false (n / d)).value ≤ ((n / d + 1 : ℕ) : ℚ) := by
  have hd' : (0 : ℚ) < d := by exact_mod_cast hd
  have hsplit := div_eq_add n hd
  have hpart : (0 : ℚ) < (n % d : ℕ) / d := by
    have hpos : (0 : ℚ) < (n % d : ℕ) := by exact_mod_cast Nat.pos_of_ne_zero hrest
    positivity
  have hpart' : ((n % d : ℕ) : ℚ) / d < 1 := by
    rw [div_lt_one hd']
    exact_mod_cast Nat.mod_lt n hd
  have hq : (0 : ℚ) < n / d := by
    rw [hsplit]
    positivity
  constructor
  · rcases Nat.eq_zero_or_pos (n / d) with hzero | hpos
    · rw [hzero, Nat.cast_zero]
      exact value_ofRat_nonneg hq
    · obtain ⟨hfinite, hvalue⟩ := value_ofInt (z := (n / d : ℕ)) (by rw [Nat.abs_cast]; omega)
      rw [Int.cast_natCast] at hvalue
      rw [← hvalue]
      apply le_value_ofRat hfinite _ _ hf
      · rw [hvalue]
        exact_mod_cast hpos
      · rw [hvalue, hsplit]
        linarith
  · obtain ⟨hfinite, hvalue⟩ := value_ofInt (z := (n / d + 1 : ℕ)) (by rw [Nat.abs_cast]; omega)
    rw [Int.cast_natCast] at hvalue
    rw [← hvalue]
    apply value_ofRat_le hfinite hq _ hf
    rw [hvalue, hsplit]
    push_cast
    linarith

-- A quotient of safe integers is not rounded to zero.
theorem value_ofRat_div_pos (hn : 0 < n) (hd : 0 < d) (hd' : d < 2 ^ 53)
    (hf : (ofRat false (n / d)).isFinite = true) : 0 < (ofRat false (n / d)).value := by
  obtain ⟨hfinite, -, hvalue⟩ := ofRat_of_representable false (m := 1) (e := -53) (by norm_num)
    (by norm_num) (by norm_num)
  have hpos : (0 : ℚ) < (ofRat false ((1 : ℕ) * 2 ^ (-53 : ℤ))).value := by
    rw [hvalue]
    norm_num [signed]
  apply hpos.trans_le
  apply le_value_ofRat hfinite hpos _ hf
  have hdpos : (0 : ℚ) < d := by exact_mod_cast hd
  have hone : (1 : ℚ) ≤ n := by exact_mod_cast hn
  have hle : (d : ℚ) ≤ 2 ^ 53 := by exact_mod_cast hd'.le
  rw [hvalue, le_div_iff₀ hdpos]
  norm_num [signed]
  linarith

theorem ofInt_natCast (n : ℕ) : ofInt n = ofRat false n := by
  rw [ofInt_eq_ofRat, Int.natAbs_natCast, decide_eq_false (by omega)]

-- A quotient that is a whole number has a double as the dividend has one.
theorem value_ofRat_div_of_dvd (hn : n < 2 ^ 54) (hd : 0 < d) (heven : 2 ^ 53 < n → n % 2 = 0)
    (hrest : n % d = 0) : (ofRat false (n / d)).value = (n / d : ℕ) := by
  have hwhole : n / d ≤ n := Nat.div_le_self n d
  have hfixed : rounded (n / d : ℕ) = (n / d : ℕ) := by
    rcases Nat.lt_or_ge 1 d with hd1 | hd1
    · have hhalf : n / d ≤ n / 2 := Nat.div_le_div_left hd1 two_pos
      exact rounded_of_abs_le (by rw [Nat.abs_cast]; omega)
    · obtain rfl : d = 1 := by omega
      rw [Nat.div_one, rounded, if_pos]
      omega
  have hint := toInt?_ofScaled_rounded false (n := (n / d : ℕ)) (by rw [Nat.abs_cast]; omega)
  rw [hfixed, ← ofInt, ofInt_natCast] at hint
  rw [div_eq_add n hd, hrest, Nat.cast_zero, zero_div, add_zero, (toInt?_eq_some_iff.mp hint).2]
  rfl

-- Of a quotient that is none, nothing but the whole part is left just if the rest is one and small.
theorem value_ofRat_div_eq_whole_iff (hn : 0 < n) (hn' : n < 2 ^ 54) (hd : 0 < d) (hd' : d < 2 ^ 53)
    (heven : 2 ^ 53 < n → n % 2 = 0) (hrest : n % d ≠ 0) (hlt : n / d < 2 ^ 53) :
    (ofRat false (n / d)).value = (n / d : ℕ) ↔
      n % d = 1 ∧ 2 ^ 53 ≤ d * 2 ^ Nat.log 2 (n / d) := by
  have hf := isFinite_ofRat_div false hn hn' hd
  by_cases hle : d ≤ n
  · have hlog : Nat.log 2 (n / d) < 53 :=
      (Nat.log_lt_iff_lt_pow one_lt_two (Nat.div_pos hle hd).ne').mpr hlt
    rw [value_ofRat_div_eq_iff hd hle hlt hf,
      isNearest_whole_iff_rest hd hle hn' heven hrest rfl (by omega)]
  · rw [Nat.div_eq_of_lt (by omega), Nat.log_zero_right, pow_zero, mul_one, Nat.cast_zero]
    exact iff_of_false (value_ofRat_div_pos hn hd hd' hf).ne' (by omega)

-- The rounded quotient, rounded up.
theorem ceil_value_ofRat_div (hn : 0 < n) (hn' : n < 2 ^ 54) (hd : 0 < d) (hd' : d < 2 ^ 53)
    (heven : 2 ^ 53 < n → n % 2 = 0) : ⌈(ofRat false (n / d)).value⌉ = stepsTo n d := by
  by_cases hrest : n % d = 0
  · rw [value_ofRat_div_of_dvd hn' hd heven hrest, Int.ceil_natCast, stepsTo, if_pos (.inl hrest)]
  · have hd2 : 1 < d := by
      by_contra hd1
      obtain rfl : d = 1 := by omega
      exact hrest (Nat.mod_one n)
    have hhalf : n / d ≤ n / 2 := Nat.div_le_div_left hd2 two_pos
    have hlt : n / d < 2 ^ 53 := by omega
    obtain ⟨hlow, hhigh⟩ :=
      value_ofRat_div_bounds hd hrest hlt (isFinite_ofRat_div false hn hn' hd)
    simp only [stepsTo, hrest, false_or,
      ← value_ofRat_div_eq_whole_iff hn hn' hd hd' heven hrest hlt]
    split
    · next heq => rw [heq, Int.ceil_natCast]
    · next hne =>
      have hgt : ((n / d : ℕ) : ℚ) < (ofRat false (n / d)).value := lt_of_le_of_ne hlow (Ne.symm hne)
      rw [Int.ceil_eq_iff, Int.cast_natCast]
      refine ⟨?_, hhigh⟩
      rwa [Nat.cast_add_one, add_sub_cancel_right]

theorem value_ofRat_true_nonpos {q : ℚ} (hq : 0 < q) : (ofRat true q).value ≤ 0 := by
  obtain ⟨k, -, ⟨hinf, -⟩ | ⟨-, -, hv⟩⟩ := ofRat_cases true hq
  · rw [hinf]
    rfl
  · rw [hv, cast_signed, if_pos rfl, neg_mul]
    exact neg_nonpos_of_nonneg (by positivity)

-- A quotient of doubles that are integers, rounded up. It counts steps where the signs agree and is
-- not positive elsewhere.
theorem ceil_div {x y : Double} {m c : ℤ} (hx : x.toInt? = some m) (hy : y.toInt? = some c)
    (hm : |m| < 2 ^ 54) (heven : 2 ^ 53 < |m| → m % 2 = 0) (hc : |c| < 2 ^ 53) (hc0 : c ≠ 0) :
    (x / y).isFinite = true ∧
      if 0 < m * c then ⌈(x / y).value⌉ = stepsTo m.natAbs c.natAbs else ⌈(x / y).value⌉ ≤ 0 := by
  obtain ⟨hxf, hxv⟩ := toInt?_eq_some_iff.mp hx
  obtain ⟨hyf, hyv⟩ := toInt?_eq_some_iff.mp hy
  have hyv0 : y.value ≠ 0 := by
    rw [hyv]
    exact_mod_cast hc0
  have hq : |x.value / y.value| = (m.natAbs : ℚ) / c.natAbs := by
    rw [hxv, hyv, abs_div, Nat.cast_natAbs, Nat.cast_natAbs, Int.cast_abs, Int.cast_abs]
  rw [div_eq_ofRat hxf hyf hyv0, hq]
  rw [Int.abs_eq_natAbs] at hm heven hc
  by_cases hm0 : m = 0
  · subst hm0
    rw [Int.natAbs_zero, Nat.cast_zero, zero_div, ofRat_zero, zero_mul, if_neg (lt_irrefl 0)]
    exact ⟨rfl, by simp⟩
  · have hmpos : 0 < m.natAbs := Int.natAbs_pos.mpr hm0
    have hcpos : 0 < c.natAbs := Int.natAbs_pos.mpr hc0
    refine ⟨isFinite_ofRat_div _ hmpos (by omega) hcpos, ?_⟩
    rw [isNegative_of_toInt? hx hm0, isNegative_of_toInt? hy hc0]
    split
    · next hsame =>
      have hsign : (decide (m < 0) != decide (c < 0)) = false := by
        rw [bne_eq_false_iff_eq, decide_eq_decide]
        rcases mul_pos_iff.mp hsame with h | h <;> omega
      rw [hsign, ceil_value_ofRat_div hmpos (by omega) hcpos (by omega) (by omega)]
    · next hopposite =>
      have hsign : (decide (m < 0) != decide (c < 0)) = true := by
        rw [bne_iff_ne, ne_eq, decide_eq_decide]
        rcases mul_neg_iff.mp (lt_of_le_of_ne (not_lt.mp hopposite) (mul_ne_zero hm0 hc0))
          with h | h <;> omega
      have hpos : (0 : ℚ) < m.natAbs / c.natAbs := by
        have hm : (0 : ℚ) < m.natAbs := by exact_mod_cast hmpos
        have hc : (0 : ℚ) < c.natAbs := by exact_mod_cast hcpos
        positivity
      rw [hsign]
      exact Int.ceil_le.mpr (by simpa using value_ofRat_true_nonpos hpos)

theorem mul_le_of_lt_stepsTo {i : ℕ} (h : i < stepsTo n d) : i * d ≤ n := by
  have hle : i ≤ n / d := by
    unfold stepsTo at h
    split at h <;> omega
  exact (Nat.mul_le_mul_right d hle).trans (Nat.div_mul_le_self n d)

-- Up to 2^53 no rest is dropped.
theorem lt_stepsTo_iff {i : ℕ} (hd : 0 < d) (hd' : d < 2 ^ 53) (hn : n ≤ 2 ^ 53) :
    i < stepsTo n d ↔ i * d < n := by
  have hdiv := Nat.div_add_mod n d
  have hkept : ¬(n % d = 1 ∧ 2 ^ 53 ≤ d * 2 ^ Nat.log 2 (n / d)) := by
    rintro ⟨hone, hlarge⟩
    rcases Nat.eq_zero_or_pos (n / d) with hzero | hpos
    · rw [hzero, Nat.log_zero_right, pow_zero] at hlarge
      omega
    · have hwhole := Nat.mul_le_mul_left d (Nat.pow_log_le_self 2 hpos.ne')
      omega
  simp only [stepsTo, hkept, or_false]
  split
  · next hrest =>
    have hn : n = n / d * d := by rw [mul_comm]; omega
    conv_rhs => rw [hn]
    exact (Nat.mul_lt_mul_right hd).symm
  · next hrest =>
    rw [Nat.lt_succ_iff, Nat.le_div_iff_mul_le hd, Nat.le_iff_lt_or_eq, or_iff_left]
    rintro rfl
    exact hrest (Nat.mul_mod_left i d)

end RecordQuery.Double
