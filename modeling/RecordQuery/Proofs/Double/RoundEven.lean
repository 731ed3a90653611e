import RecordQuery.Double.Rounding
import RecordQuery.Proofs.Double.Error

/-!
Rounding to the nearest integer, and to a multiple by scaling. What a number is over its floor has a
double unless the number lies between minus one half and zero, and there both ways to break a tie
agree; so rounding to an integer is right for every finite number. Scaling by a factor that is close
enough to the exact one keeps ties, sides of ties and multiples.
-/

namespace RecordQuery.Double

variable {x y : Double}

-- `k` is the integer nearest to `q`, the even one of two that are equally near.
def IsNearestInt (q : ℚ) (k : ℤ) : Prop := |q - k| < 1 / 2 ∨ |q - k| = 1 / 2 ∧ Even k

theorem isNearestInt_floor {q : ℚ} (h : Int.fract q < 1 / 2 ∨ Int.fract q = 1 / 2 ∧ Even ⌊q⌋) :
    IsNearestInt q ⌊q⌋ := by
  rwa [IsNearestInt, Int.self_sub_floor, abs_of_nonneg (Int.fract_nonneg q)]

theorem isNearestInt_floor_add_one {q : ℚ}
    (h : 1 / 2 < Int.fract q ∨ Int.fract q = 1 / 2 ∧ ¬Even ⌊q⌋) : IsNearestInt q (⌊q⌋ + 1) := by
  have hone := Int.fract_lt_one q
  rw [IsNearestInt, Int.cast_add, Int.cast_one, ← sub_sub, Int.self_sub_floor, abs_of_neg (by linarith),
    Int.even_add_one]
  rcases h with hgt | ⟨htie, hodd⟩
  · exact .inl (by linarith)
  · exact .inr ⟨by rw [htie]; norm_num, hodd⟩

theorem IsNearestInt.abs_sub_le {q : ℚ} {k : ℤ} (h : IsNearestInt q k) : |q - k| ≤ 1 / 2 := by
  rcases h with h | h
  · exact h.le
  · exact h.1.le

theorem IsNearestInt.unique {q : ℚ} {j k : ℤ} (hj : IsNearestInt q j) (hk : IsNearestInt q k) :
    j = k := by
  wlog hle : j ≤ k generalizing j k
  · exact (this hk hj (le_of_not_ge hle)).symm
  rcases hle.lt_or_eq with hlt | rfl
  · have hstep : (j : ℚ) + 1 ≤ k := by exact_mod_cast hlt
    have hjq := abs_le.mp hj.abs_sub_le
    have hkq := abs_le.mp hk.abs_sub_le
    have hnext : k = j + 1 := by
      have : (k : ℚ) = j + 1 := by linarith
      exact_mod_cast this
    subst hnext
    push_cast at hkq
    have hjtie : |q - j| = 1 / 2 := by rw [abs_of_nonneg] <;> linarith
    have hktie : |q - ((j + 1 : ℤ) : ℚ)| = 1 / 2 := by
      push_cast
      rw [abs_of_nonpos] <;> linarith
    have hjeven := (hj.resolve_left (by rw [hjtie]; exact lt_irrefl _)).2
    have hkeven := (hk.resolve_left (by rw [hktie]; exact lt_irrefl _)).2
    exact absurd hjeven (Int.even_add_one.mp hkeven)
  · rfl

-- A number that comes close to `q` on the scale of its distance to the ties has the same nearest
-- integer.
theorem IsNearestInt.of_abs_sub_lt {p q δ : ℚ} {k : ℤ} (h : IsNearestInt p k) (hp : |p - q| < δ)
    (hq : ∀ j : ℤ, q = j + 1 / 2 ∨ δ ≤ |q - (j + 1 / 2)|) (htie : ∀ j : ℤ, q = j + 1 / 2 → p = q) :
    IsNearestInt q k := by
  by_cases hpq : p = q
  · rwa [← hpq]
  · have hfar (j : ℤ) : δ ≤ |q - (j + 1 / 2)| := (hq j).resolve_left fun hj => hpq (htie j hj)
    have hpk := abs_le.mp h.abs_sub_le
    have hpq := abs_lt.mp hp
    left
    rw [abs_lt]
    constructor
    · by_contra hle
      have hlow := hfar (k - 1)
      rw [abs_of_nonpos (by push_cast; linarith)] at hlow
      push_cast at hlow
      linarith
    · by_contra hge
      have hhigh := hfar k
      rw [abs_of_nonneg (by linarith)] at hhigh
      linarith

theorem exists_value_eq (hx : x.isFinite = true) :
    ∃ (negative : Bool) (m : ℕ) (e : ℤ), m < 2 ^ 53 ∧ -1074 ≤ e ∧ e ≤ 971 ∧
      x.value = signed negative m * 2 ^ e := by
  cases x with
  | nan => cases hx
  | infinite negative => cases hx
  | finite negative m e h => exact ⟨negative, m, e, h.1, h.2.1, h.2.2.1, rfl⟩

-- The rest of a positive number is no larger than the number. So one with more bits is that of a
-- negative number, which the divisor dwarfs.
theorem div_bounds_of_rest_large {negative : Bool} {m t r : ℕ} (hm : m < 2 ^ 53)
    (hr : signed negative m % (2 ^ t : ℕ) = r) (hlarge : 2 ^ 53 ≤ r) :
    -(1 / 2) < (signed negative m / (2 ^ t : ℕ) : ℚ) ∧
      (signed negative m / (2 ^ t : ℕ) : ℚ) < 0 := by
  cases negative with
  | false =>
    rw [signed, if_neg Bool.false_ne_true] at hr
    have hle := Nat.mod_le m (2 ^ t)
    omega
  | true =>
    have hm0 : m ≠ 0 := by
      rintro rfl
      rw [show signed true 0 = 0 from rfl, Int.zero_emod] at hr
      omega
    have hrest := Int.emod_lt_of_pos (signed true m) (b := (2 ^ t : ℕ)) (by positivity)
    have ht54 : 54 ≤ t := (Nat.pow_lt_pow_iff_right (a := 2) one_lt_two).mp (by omega)
    have hdivisor : (2 : ℚ) ^ 54 ≤ (2 ^ t : ℕ) := by
      exact_mod_cast Nat.pow_le_pow_right two_pos ht54
    have hpos : (0 : ℚ) < (2 ^ t : ℕ) := by positivity
    rw [cast_signed, if_pos rfl]
    constructor
    · rw [lt_div_iff₀ hpos]
      have hmq : (m : ℚ) < 2 ^ 53 := by exact_mod_cast hm
      linarith
    · rw [neg_div, neg_lt_zero]
      have hmpos : (0 : ℚ) < m := by exact_mod_cast Nat.pos_of_ne_zero hm0
      positivity

-- What a double is over its floor has few enough bits, unless the double lies shortly below zero.
theorem exists_fract_eq (hx : x.isFinite = true) :
    (-(1 / 2) < x.value ∧ x.value < 0) ∨
      ∃ (m : ℕ) (e : ℤ), m < 2 ^ 53 ∧ -1074 ≤ e ∧ e ≤ 971 ∧ Int.fract x.value = m * 2 ^ e := by
  obtain ⟨negative, m, e, hm, he, he', hvalue⟩ := exists_value_eq hx
  rcases le_or_gt 0 e with hnonneg | hneg
  · right
    obtain ⟨d, rfl⟩ := Int.eq_ofNat_of_zero_le hnonneg
    refine ⟨0, 0, by norm_num, by norm_num, by norm_num, ?_⟩
    have hint : x.value = ((signed negative m * 2 ^ d : ℤ) : ℚ) := by
      rw [hvalue, zpow_natCast]
      push_cast
      rfl
    rw [hint, Int.fract_intCast, Nat.cast_zero, zero_mul]
  · obtain ⟨t, ht⟩ := Int.eq_ofNat_of_zero_le (Int.neg_nonneg_of_nonpos hneg.le)
    obtain rfl : e = -(t : ℤ) := by omega
    have hquotient : x.value = (signed negative m : ℚ) / (2 ^ t : ℕ) := by
      rw [hvalue, zpow_neg, zpow_natCast, div_eq_mul_inv, Nat.cast_pow, Nat.cast_ofNat]
    have hrest := Int.emod_nonneg (signed negative m) (b := (2 ^ t : ℕ)) (by positivity)
    obtain ⟨r, hr⟩ := Int.eq_ofNat_of_zero_le hrest
    by_cases hsmall : r < 2 ^ 53
    · refine .inr ⟨r, -t, hsmall, he, he', ?_⟩
      rw [hquotient, Int.fract_div_intCast_eq_div_intCast_mod, hr, zpow_neg, zpow_natCast,
        div_eq_mul_inv, Int.cast_natCast, Nat.cast_pow, Nat.cast_ofNat]
    · rw [hquotient]
      exact .inl (div_bounds_of_rest_large hm hr (not_lt.mp hsmall))

theorem floor_of_shortly_negative {q : ℚ} (hlow : -(1 / 2) < q) (hhigh : q < 0) :
    ⌊q⌋ = -1 ∧ 1 / 2 < Int.fract q := by
  have hminus : ⌊q⌋ = -1 := by
    rw [Int.floor_eq_iff]
    constructor <;> push_cast <;> linarith
  refine ⟨hminus, ?_⟩
  rw [← Int.self_sub_floor, hminus]
  push_cast
  linarith

-- One half as a result of rounding, which the results of other roundings are compared to.
theorem ofRat_half : (ofRat false ((1 : ℕ) * 2 ^ (-1 : ℤ))).isFinite = true ∧
    (ofRat false ((1 : ℕ) * 2 ^ (-1 : ℤ))).value = 1 / 2 := by
  obtain ⟨hf, -, hv⟩ := ofRat_of_representable false (m := 1) (e := -1) (by norm_num) (by norm_num)
    (by norm_num)
  refine ⟨hf, ?_⟩
  rw [hv]
  norm_num [signed]

-- The excess over the floor as it is computed, at a distance of one half from what is exact at most.
theorem value_sub_floor (hx : x.isFinite = true) :
    (x - x.floor).isFinite = true ∧
      ((x - x.floor).value = Int.fract x.value ∨
        ⌊x.value⌋ = -1 ∧ 1 / 2 < Int.fract x.value ∧ 1 / 2 ≤ (x - x.floor).value) := by
  obtain ⟨hfloor, hbelow⟩ := toInt?_eq_some_iff.mp (toInt?_floor hx)
  have hneg := isFinite_neg hfloor
  have hdiff : x.value + x.floor.neg.value = Int.fract x.value := by
    rw [value_neg, hbelow, ← sub_eq_add_neg, Int.self_sub_floor]
  rcases exists_fract_eq hx with ⟨hlow, hhigh⟩ | ⟨m, e, hm, he, he', hfract⟩
  · obtain ⟨hminus, hhalf⟩ := floor_of_shortly_negative hlow hhigh
    have hone := Int.fract_lt_one x.value
    have hsub : x - x.floor = ofRat false (Int.fract x.value) := by
      change x + x.floor.neg = _
      rw [add_eq_ofRat hx hneg, hdiff, abs_of_pos (by linarith), sumSign, if_neg (by linarith),
        decide_eq_false (by linarith)]
    have hf : (ofRat false (Int.fract x.value)).isFinite = true :=
      isFinite_ofRat false (by linarith) (hone.trans (one_lt_zpow₀ one_lt_two (by norm_num)))
    obtain ⟨hhf, hhv⟩ := ofRat_half
    rw [hsub]
    refine ⟨hf, .inr ⟨hminus, hhalf, ?_⟩⟩
    rw [← hhv]
    exact le_value_ofRat hhf (by rw [hhv]; norm_num) (by rw [hhv]; exact hhalf.le) hf
  · have hexact := value_add_of_representable hx hneg hm he he'
      (by rw [hdiff, abs_of_nonneg (Int.fract_nonneg _), hfract])
    rw [hdiff] at hexact
    exact ⟨hexact.1, .inl hexact.2⟩

theorem toInt?_floor_add_one (hx : x.isFinite = true) (hfract : Int.fract x.value ≠ 0) :
    (x.floor + one).toInt? = some (⌊x.value⌋ + 1) := by
  have hone : one.toInt? = some 1 := rfl
  have hnone : x.toInt? = none := by
    rw [toInt?_eq_none_iff hx]
    intro n hn
    exact hfract (by rw [hn, Int.fract_intCast])
  have hbound := abs_lt.mp (abs_value_lt_of_toInt?_eq_none hx hnone)
  have hlow : -2 ^ 53 ≤ ⌊x.value⌋ := Int.le_floor.mpr (by push_cast; exact hbound.1.le)
  have hhigh : ⌊x.value⌋ < 2 ^ 53 := Int.floor_lt.mpr (by push_cast; exact hbound.2)
  rw [add_of_toInt? (toInt?_floor hx) hone]
  exact toInt?_ofScaled _ (by rw [abs_le]; omega)

theorem isEven_iff {n : ℤ} (hx : x.toInt? = some n) : x.isEven = true ↔ Even n := by
  rw [isEven, hx, beq_iff_eq, Int.even_iff]

-- Rounding half to even is right for every finite number.
theorem roundEven_spec (hx : x.isFinite = true) :
    ∃ k : ℤ, x.roundEven.toInt? = some k ∧ IsNearestInt x.value k := by
  have hhalf : (ofBits 0x3FE0000000000000).isFinite = true ∧
      (ofBits 0x3FE0000000000000).value = 1 / 2 := by
    refine ⟨rfl, ?_⟩
    change ((0x10000000000000 : ℕ) : ℚ) * 2 ^ (-53 : ℤ) = 1 / 2
    norm_num
  obtain ⟨hexcess, hvalue⟩ := value_sub_floor hx
  have hfloor := toInt?_floor hx
  have hup := toInt?_floor_add_one hx
  simp only [roundEven, lt_eq_decide hhalf.1 hexcess, lt_eq_decide hexcess hhalf.1, hhalf.2,
    decide_eq_true_iff, Bool.or_eq_true, isEven_iff hfloor]
  rcases hvalue with hexact | ⟨hminus, hfract, hge⟩
  · rw [hexact]
    split
    · next hgt => exact ⟨_, hup (by linarith), isNearestInt_floor_add_one (.inl hgt)⟩
    · next hle =>
      split
      · next h =>
        have hbelow : Int.fract x.value < 1 / 2 ∨ Int.fract x.value = 1 / 2 ∧ Even ⌊x.value⌋ := by
          rcases (not_lt.mp hle).lt_or_eq with hlt | htie
          · exact .inl hlt
          · exact .inr ⟨htie, h.resolve_left (by rw [htie]; exact lt_irrefl _)⟩
        exact ⟨_, hfloor, isNearestInt_floor hbelow⟩
      · next h =>
        obtain ⟨hge, hodd⟩ := not_or.mp h
        have htie : Int.fract x.value = 1 / 2 := le_antisymm (not_lt.mp hle) (not_lt.mp hge)
        exact ⟨_, hup (by rw [htie]; norm_num), isNearestInt_floor_add_one (.inr ⟨htie, hodd⟩)⟩
  · -- the tie that rounding can make is broken upwards, which is where the number belongs
    have hodd : ¬Even ⌊x.value⌋ := by
      rw [hminus]
      decide
    have hresult := hup (by linarith)
    rw [if_neg (not_or.mpr ⟨not_lt.mpr hge, hodd⟩), ite_self]
    exact ⟨_, hresult, isNearestInt_floor_add_one (.inl hfract)⟩

theorem isNearestInt_intCast (n : ℤ) : IsNearestInt n n := by
  left
  norm_num

-- Scaling up by an integer is undone if the product has a double.
theorem toInt?_roundEven_mul_div {n t : ℤ} (hy : y.toInt? = some t)
    (ht : t ≠ 0) (hn : |n| ≤ 2 ^ 53) (hproduct : (x * y).toInt? = some (n * t)) :
    ((x * y).roundEven / y).toInt? = some n := by
  obtain ⟨hf, hv⟩ := toInt?_eq_some_iff.mp hproduct
  obtain ⟨hyf, hyv⟩ := toInt?_eq_some_iff.mp hy
  obtain ⟨k, hk, hnear⟩ := roundEven_spec hf
  rw [hv] at hnear
  obtain rfl := hnear.unique (isNearestInt_intCast _)
  have ht' : (t : ℚ) ≠ 0 := by exact_mod_cast ht
  refine toInt?_div_of_close hk hyf (by rwa [hyv]) hn ?_
  rw [hyv, Int.cast_mul, mul_div_cancel_right₀ _ ht', sub_self, abs_zero]
  positivity

-- `f` is `1 / t` but for the 2^54th part.
def IsInverse (f t : ℚ) : Prop := 1 ≤ f * t * (1 + 2 ^ (-54 : ℤ)) ∧ f * t ≤ 1 + 2 ^ (-54 : ℤ)

theorem abs_sub_one_le {c u : ℚ} (hu : 0 ≤ u) (h : 1 ≤ c * (1 + u)) (h' : c ≤ 1 + u) :
    |c - 1| ≤ u := by
  rw [abs_le]
  refine ⟨?_, by linarith⟩
  rcases le_total c 1 with hle | hge
  · have hmul := mul_le_mul_of_nonneg_right hle hu
    linarith
  · linarith

-- Scaling down, and back up, is right but for the 2^54th part.
theorem IsInverse.abs_mul_sub_le {f t : ℚ} (h : IsInverse f t) (ht : 0 < t) (a : ℚ) :
    |a * f - a / t| ≤ |a / t| * 2 ^ (-54 : ℤ) := by
  have hfactor : a * f - a / t = a / t * (f * t - 1) := by
    field_simp
  rw [hfactor, abs_mul]
  gcongr
  exact abs_sub_one_le (by positivity) h.1 h.2

theorem IsInverse.abs_div_sub_le {f t : ℚ} (h : IsInverse f t) (hf : 0 < f) (ht : 0 < t) (a : ℚ) :
    |a / f - a * t| ≤ |a * t| * 2 ^ (-54 : ℤ) := by
  have hpos : 0 < f * t := mul_pos hf ht
  have hfactor : a / f - a * t = a * t * ((f * t)⁻¹ - 1) := by
    field_simp
  rw [hfactor, abs_mul]
  gcongr
  apply abs_sub_one_le (by positivity)
  · rw [inv_mul_eq_div, one_le_div hpos]
    exact h.2
  · rw [inv_le_iff_one_le_mul₀ hpos, mul_comm]
    exact h.1

-- The three errors together stay below the distance to a tie.
theorem abs_scaled_sub_lt {n : ℤ} {t a p : ℚ} (hn : |n| ≤ 5 * 10 ^ 15) (ht : 0 < t) (ht' : t ≤ 10 ^ 15)
    (ha : |a - n / t| ≤ |n / t| * 2 ^ (-54 : ℤ))
    (hp : |p - a| ≤ |a| * 2 ^ (-53 : ℤ) + 2 ^ (-1075 : ℤ)) : |p - n / t| < 1 / t := by
  have hn' : |(n : ℚ)| ≤ 5 * 10 ^ 15 := by exact_mod_cast hn
  have hleast : (2 : ℚ) ^ (-1075 : ℤ) ≤ 2 ^ (-100 : ℤ) := zpow_le_zpow_right₀ one_le_two (by norm_num)
  have hsize : |a| ≤ |n / t| * (1 + 2 ^ (-54 : ℤ)) := by
    have := abs_sub_abs_le_abs_sub a (n / t)
    linarith
  have hsum : |p - n / t| ≤
      |n / t| * (1 + 2 ^ (-54 : ℤ)) * 2 ^ (-53 : ℤ) + 2 ^ (-100 : ℤ) + |n / t| * 2 ^ (-54 : ℤ) := by
    refine (abs_sub_le p a (n / t)).trans (add_le_add (hp.trans ?_) ha)
    gcongr
  rw [lt_div_iff₀ ht]
  have hq : |(n / t : ℚ)| * t = |(n : ℚ)| := by
    rw [abs_div, abs_of_pos ht, div_mul_cancel₀ _ ht.ne']
  calc |p - n / t| * t ≤ (|n / t| * (1 + 2 ^ (-54 : ℤ)) * 2 ^ (-53 : ℤ) + 2 ^ (-100 : ℤ)
        + |n / t| * 2 ^ (-54 : ℤ)) * t := by gcongr
    _ = |(n : ℚ)| * ((1 + 2 ^ (-54 : ℤ)) * 2 ^ (-53 : ℤ) + 2 ^ (-54 : ℤ)) + 2 ^ (-100 : ℤ) * t := by
        rw [← hq]
        ring
    _ ≤ 5 * 10 ^ 15 * ((1 + 2 ^ (-54 : ℤ)) * 2 ^ (-53 : ℤ) + 2 ^ (-54 : ℤ))
        + 2 ^ (-100 : ℤ) * 10 ^ 15 := by gcongr
    _ < 1 := by norm_num

variable {n : ℤ} {k : ℕ}

theorem eq_or_le_abs_sub_tie (hk : 0 < k) (j : ℤ) :
    (n / 10 ^ k : ℚ) = j + 1 / 2 ∨ 1 / 10 ^ k ≤ |(n / 10 ^ k : ℚ) - (j + 1 / 2)| := by
  obtain ⟨i, rfl⟩ := Nat.exists_eq_add_of_lt hk
  rw [zero_add]
  have hshift : (((n - 5 * 10 ^ i : ℤ) : ℚ) / ((10 ^ (i + 1) : ℤ) : ℚ)) =
      n / 10 ^ (i + 1) - 1 / 2 := by
    push_cast
    field_simp
    ring
  have hcases := intCast_div_eq_or_le (n - 5 * 10 ^ i) j (b := 10 ^ (i + 1)) (by positivity)
  rw [hshift] at hcases
  refine hcases.imp (fun h => by linarith) fun h => ?_
  rw [abs_of_pos (by positivity)] at h
  push_cast at h
  rwa [sub_sub, add_comm (1 / 2 : ℚ)] at h

-- A tie is half of an odd number, which has a double.
theorem exists_value_eq_tie {j : ℤ} (hj : |j| < 2 ^ 52) :
    ∃ r : Double, r.isFinite = true ∧ r.value = j + 1 / 2 := by
  obtain ⟨hf, -, hv⟩ := ofRat_of_representable (decide (2 * j + 1 < 0)) (m := (2 * j + 1).natAbs)
    (e := -1) (by rw [abs_lt] at hj; omega) (by norm_num) (by norm_num)
  refine ⟨_, hf, ?_⟩
  have hsigned : signed (decide (2 * j + 1 < 0)) (2 * j + 1).natAbs = 2 * j + 1 := by
    have := signed_natAbs (decide (2 * j + 1 < 0)) (2 * j + 1)
    rwa [ite_self] at this
  rw [hv, hsigned, zpow_neg_one]
  push_cast
  ring

-- A product this close to a tie is the tie.
theorem value_mul_of_tie {j : ℤ} (hx : x.isFinite = true) (hy : y.isFinite = true)
    (hj : |j| < 2 ^ 52)
    (h : |x.value * y.value - (j + 1 / 2)| ≤ |(j + 1 / 2 : ℚ)| * 2 ^ (-54 : ℤ)) :
    (x * y).value = j + 1 / 2 := by
  have hne : (j + 1 / 2 : ℚ) ≠ 0 := by
    intro h0
    have : (2 * j + 1 : ℚ) = 0 := by linarith
    have : 2 * j + 1 = 0 := by exact_mod_cast this
    omega
  obtain ⟨r, hr, hrv⟩ := exists_value_eq_tie hj
  rw [mul_of_close hx hy hr (by rwa [hrv]) (by rwa [hrv]), hrv]

-- The integer that the scaled number is rounded to is the right one.
theorem isNearestInt_roundEven_mul (hk : 0 < k) (hk' : k ≤ 15) (hx : x.toInt? = some n)
    (hn : |n| ≤ 5 * 10 ^ 15) (hy : y.isFinite = true) (hinv : IsInverse y.value (10 ^ k)) :
    ∃ m : ℤ, (x * y).roundEven.toInt? = some m ∧ IsNearestInt (n / 10 ^ k) m := by
  obtain ⟨hxf, hxv⟩ := toInt?_eq_some_iff.mp hx
  have ht : (10 : ℚ) ≤ 10 ^ k := le_self_pow₀ (by norm_num) hk.ne'
  have ht' : (10 : ℚ) ^ k ≤ 10 ^ 15 := pow_le_pow_right₀ (by norm_num) hk'
  have hn' : |(n : ℚ)| ≤ 5 * 10 ^ 15 := by exact_mod_cast hn
  have hq : |(n / 10 ^ k : ℚ)| ≤ 5 * 10 ^ 14 := by
    rw [abs_div, abs_of_pos (by positivity : (0 : ℚ) < 10 ^ k), div_le_iff₀ (by positivity)]
    linarith
  have hscaled := hinv.abs_mul_sub_le (by positivity) n
  have hsize : |x.value * y.value| < 2 ^ (1023 : ℤ) := by
    have hle : |(n * y.value : ℚ)| ≤ |(n / 10 ^ k : ℚ)| * (1 + 2 ^ (-54 : ℤ)) := by
      have := abs_sub_abs_le_abs_sub (n * y.value : ℚ) (n / 10 ^ k)
      linarith
    rw [hxv]
    calc |(n * y.value : ℚ)| ≤ 5 * 10 ^ 14 * (1 + 2 ^ (-54 : ℤ)) := by
          refine hle.trans ?_
          gcongr
      _ < 2 ^ (50 : ℤ) := by norm_num
      _ ≤ 2 ^ (1023 : ℤ) := zpow_le_zpow_right₀ one_le_two (by norm_num)
  have happrox := approximates_mul hxf hy hsize
  rw [hxv] at happrox
  obtain ⟨m, hm, hnear⟩ := roundEven_spec happrox.1
  refine ⟨m, hm, hnear.of_abs_sub_lt (abs_scaled_sub_lt hn (by positivity) ht' hscaled happrox.2)
    (eq_or_le_abs_sub_tie hk) fun j hj => ?_⟩
  have hj52 : |j| < 2 ^ 52 := by
    rw [hj] at hq
    have hq := abs_le.mp hq
    have hjq : |(j : ℚ)| < 2 ^ 52 := by
      rw [abs_lt]
      constructor <;> linarith
    exact_mod_cast hjq
  rw [hj]
  exact value_mul_of_tie hxf hy hj52 (by rwa [hxv, ← hj])

-- The multiple that the integer stands for is the result.
theorem toInt?_roundEven_mul_div_of_isInverse (hk : 0 < k) (hk' : k ≤ 15) (hx : x.toInt? = some n)
    (hn : |n| ≤ 5 * 10 ^ 15) (hy : y.isFinite = true) (hypos : 0 < y.value)
    (hinv : IsInverse y.value (10 ^ k)) :
    ∃ m : ℤ, IsNearestInt (n / 10 ^ k) m ∧
      ((x * y).roundEven / y).toInt? = some (m * 10 ^ k) ∧ |m * 10 ^ k| < 2 ^ 53 := by
  obtain ⟨m, hm, hnear⟩ := isNearestInt_roundEven_mul hk hk' hx hn hy hinv
  have hbound : |m * 10 ^ k| < 2 ^ 53 := by
    have hpos : (0 : ℚ) < 10 ^ k := by positivity
    have ht' : (10 : ℚ) ^ k ≤ 10 ^ 15 := pow_le_pow_right₀ (by norm_num) hk'
    have hn' : |(n : ℚ)| ≤ 5 * 10 ^ 15 := by exact_mod_cast hn
    have hrest := hnear.abs_sub_le
    rw [div_sub' hpos.ne', abs_div, abs_of_pos hpos, div_le_iff₀ hpos, mul_comm _ (m : ℚ)] at hrest
    have hmultiple : |(m * 10 ^ k : ℚ)| < 2 ^ 53 := by
      have := abs_sub_abs_le_abs_sub (m * 10 ^ k : ℚ) n
      rw [abs_sub_comm] at hrest
      linarith
    exact_mod_cast hmultiple
  refine ⟨m, hnear, toInt?_div_of_close hm hy hypos.ne' hbound.le ?_, hbound⟩
  have hclose := hinv.abs_div_sub_le hypos (by positivity) m
  exact_mod_cast hclose

-- A factor that scales to one half at most leaves zero.
theorem toInt?_roundEven_mul_div_of_small (hx : x.toInt? = some n) (hn : |n| ≤ 5 * 10 ^ 15)
    (hy : y.isFinite = true) (hypos : 0 < y.value) (hsmall : y.value * 10 ^ 16 ≤ 1) :
    ((x * y).roundEven / y).toInt? = some 0 := by
  obtain ⟨hxf, hxv⟩ := toInt?_eq_some_iff.mp hx
  have hn' : |(n : ℚ)| ≤ 5 * 10 ^ 15 := by exact_mod_cast hn
  have hproduct : |x.value * y.value| ≤ ((1 : ℕ) : ℚ) * 2 ^ (-1 : ℤ) := by
    rw [hxv, abs_mul, abs_of_pos hypos]
    calc |(n : ℚ)| * y.value ≤ 5 * 10 ^ 15 * y.value := by gcongr
      _ ≤ _ := by norm_num at hsmall ⊢; linarith
  have hhalf : (x * y).isFinite = true ∧ |(x * y).value| ≤ 1 / 2 := by
    rw [mul_eq_ofRat hxf hy]
    rcases (abs_nonneg (x.value * y.value)).eq_or_lt with hzero | hpos
    · rw [← hzero, ofRat_zero, value_zero, abs_zero]
      exact ⟨rfl, by norm_num⟩
    · obtain ⟨hf, hv⟩ := ofRat_half
      have hlt : |x.value * y.value| < 2 ^ (1023 : ℤ) := by
        calc |x.value * y.value| ≤ ((1 : ℕ) : ℚ) * 2 ^ (-1 : ℤ) := hproduct
          _ < 1 := by norm_num
          _ < 2 ^ (1023 : ℤ) := one_lt_zpow₀ one_lt_two (by norm_num)
      have hfinite := isFinite_ofRat (x.isNegative != y.isNegative) hpos hlt
      have hmono := abs_value_ofRat_mono _ _ hpos hproduct hfinite hf
      rw [hv, abs_of_pos (by norm_num : (0 : ℚ) < 1 / 2)] at hmono
      exact ⟨hfinite, hmono⟩
  obtain ⟨m, hm, hnear⟩ := roundEven_spec hhalf.1
  have hnear0 : IsNearestInt (x * y).value 0 := by
    rw [IsNearestInt, Int.cast_zero, sub_zero]
    rcases hhalf.2.lt_or_eq with hlt | htie
    · exact .inl hlt
    · exact .inr ⟨htie, by decide⟩
  obtain rfl := hnear.unique hnear0
  refine toInt?_div_of_close hm hy hypos.ne' (by norm_num) ?_
  rw [Int.cast_zero, zero_div, sub_zero, abs_zero, zero_mul]

-- A factor of moderate size leaves a finite number.
theorem isFinite_roundEven_mul_div (hx : x.toInt? = some n) (hn : |n| < 2 ^ 53)
    (hy : y.isFinite = true) (hlow : 1 ≤ y.value * 10 ^ 23) (hhigh : y.value ≤ 10 ^ 23) :
    ((x * y).roundEven / y).isFinite = true := by
  obtain ⟨hxf, hxv⟩ := toInt?_eq_some_iff.mp hx
  have hn' : |(n : ℚ)| ≤ 2 ^ 53 := by exact_mod_cast hn.le
  have hypos : 0 < y.value := by linarith
  have hlarge : (2 : ℚ) ^ (250 : ℤ) < 2 ^ (1023 : ℤ) :=
    zpow_lt_zpow_right₀ one_lt_two (by norm_num)
  have hproduct : |x.value * y.value| ≤ 2 ^ 53 * 10 ^ 23 := by
    rw [hxv, abs_mul, abs_of_pos hypos]
    gcongr
  have happrox := approximates_mul hxf hy (hproduct.trans_lt (lt_trans (by norm_num) hlarge))
  have hsize := happrox.abs_le hproduct (by norm_num)
  obtain ⟨k, hk, hnear⟩ := roundEven_spec happrox.1
  obtain ⟨hkf, hkv⟩ := toInt?_eq_some_iff.mp hk
  have hquotient : |(x * y).roundEven.value / y.value| ≤ 2 ^ 55 * 10 ^ 46 := by
    have hksize : |(k : ℚ)| ≤ 2 ^ 55 * 10 ^ 23 := by
      have hclose := hnear.abs_sub_le
      have := abs_sub_abs_le_abs_sub (k : ℚ) (x * y).value
      rw [abs_sub_comm] at hclose
      linarith
    rw [hkv, abs_div, abs_of_pos hypos, div_le_iff₀ hypos]
    calc |(k : ℚ)| ≤ 2 ^ 55 * 10 ^ 23 := hksize
      _ ≤ 2 ^ 55 * 10 ^ 23 * (y.value * 10 ^ 23) := le_mul_of_one_le_right (by norm_num) hlow
      _ = 2 ^ 55 * 10 ^ 46 * y.value := by ring
  exact (approximates_div hkf hy hypos.ne' (hquotient.trans_lt (lt_trans (by norm_num) hlarge))).1

end RecordQuery.Double
