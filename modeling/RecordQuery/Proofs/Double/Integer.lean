import RecordQuery.Proofs.Double.Nearest

/-!
Arithmetic of doubles that are integers. Sums and products are the integer results rounded once, so
they are exact up to 2^53; beyond it a result loses at most its last bit up to 2^54. The floor of a
rounded quotient is the floor of the exact one.
-/

namespace RecordQuery.Double

-- The sign that a rounded integer has.
theorem signed_natAbs (negativeZero : Bool) (n : ℤ) :
    signed (if n = 0 then negativeZero else decide (n < 0)) n.natAbs = n := by
  by_cases h0 : n = 0
  · subst h0
    cases negativeZero <;> rfl
  · by_cases hneg : n < 0
    · simp only [h0, hneg, if_false, decide_true, signed, if_true]
      omega
    · simp only [h0, hneg, if_false, decide_false, signed, Bool.false_eq_true]
      omega

theorem ofScaled_zero_eq_ofRat (negativeZero : Bool) (n : ℤ) :
    ofScaled negativeZero n 0 =
      ofRat (if n = 0 then negativeZero else decide (n < 0)) (n.natAbs : ℚ) := by
  rw [ofScaled_eq_ofRat, zpow_zero, mul_one, Nat.cast_natAbs, Int.cast_abs]

theorem ofInt_eq_ofRat (n : ℤ) : ofInt n = ofRat (decide (n < 0)) (n.natAbs : ℚ) := by
  rw [ofInt, ofScaled_zero_eq_ofRat]
  by_cases h : n = 0
  · simp [h]
  · rw [if_neg h]

theorem toInt?_ofScaled_of_natAbs_eq (negativeZero : Bool) {n : ℤ} {m e : ℕ} (hm : m < 2 ^ 53)
    (he : e ≤ 971) (h : n.natAbs = m * 2 ^ e) : (ofScaled negativeZero n 0).toInt? = some n := by
  rw [ofScaled_zero_eq_ofRat, toInt?_eq_some_iff]
  set negative := if n = 0 then negativeZero else decide (n < 0) with hneg
  obtain ⟨hf, -, hv⟩ := ofRat_of_representable negative hm (e := e) (by omega) (by omega)
  have hcast : ((n.natAbs : ℕ) : ℚ) = m * 2 ^ (e : ℤ) := by
    rw [h, zpow_natCast]
    push_cast
    rfl
  rw [hcast]
  refine ⟨hf, ?_⟩
  have hn : signed negative (m * 2 ^ e) = n := by rw [← h, hneg, signed_natAbs]
  rw [hv, ← hn, cast_signed, cast_signed, zpow_natCast]
  cases negative <;> simp

theorem toInt?_ofScaled (negativeZero : Bool) {n : ℤ} (h : |n| ≤ 2 ^ 53) :
    (ofScaled negativeZero n 0).toInt? = some n := by
  rw [abs_le] at h
  by_cases hlt : n.natAbs < 2 ^ 53
  · exact toInt?_ofScaled_of_natAbs_eq negativeZero (e := 0) hlt (by omega) (by simp)
  · exact toInt?_ofScaled_of_natAbs_eq negativeZero (m := 2 ^ 52) (e := 1) (by norm_num) (by omega)
      (by omega)

theorem toInt?_ofScaled_of_even (negativeZero : Bool) {n : ℤ} (h : |n| < 2 ^ 54)
    (heven : Even n) : (ofScaled negativeZero n 0).toInt? = some n := by
  rw [abs_lt] at h
  obtain ⟨j, rfl⟩ := heven
  exact toInt?_ofScaled_of_natAbs_eq negativeZero (m := j.natAbs) (e := 1) (by omega) (by omega)
    (by omega)

-- An integer beyond 2^53 is rounded to a double beyond 2^53, so never into the safe range.
theorem le_abs_value_ofScaled (negativeZero : Bool) {n : ℤ} (h : 2 ^ 53 ≤ |n|)
    (hf : (ofScaled negativeZero n 0).isFinite = true) :
    2 ^ 53 ≤ |(ofScaled negativeZero n 0).value| := by
  rw [ofScaled_zero_eq_ofRat] at hf ⊢
  obtain ⟨hf', -, hv'⟩ := ofRat_of_representable false (m := 2 ^ 52) (e := 1) (by norm_num)
    (by norm_num) (by norm_num)
  rw [Int.abs_eq_natAbs] at h
  have hle : ((2 ^ 52 : ℕ) : ℚ) * 2 ^ (1 : ℤ) ≤ (n.natAbs : ℚ) := by
    have : ((2 ^ 53 : ℕ) : ℚ) ≤ n.natAbs := by exact_mod_cast h
    norm_num at this ⊢
    exact this
  have hmono := abs_value_ofRat_mono false _ (by norm_num) hle hf' hf
  rw [hv'] at hmono
  norm_num [signed] at hmono ⊢
  exact hmono

theorem toSafeInt?_ofScaled_eq_none (negativeZero : Bool) {n : ℤ} (h : 2 ^ 53 ≤ |n|) :
    (ofScaled negativeZero n 0).toSafeInt? = none := by
  rw [Option.eq_none_iff_forall_ne_some]
  intro k hk
  rw [toSafeInt?_eq_some_iff, toInt?_eq_some_iff, isSafe_iff] at hk
  obtain ⟨⟨hf, hv⟩, hsafe⟩ := hk
  have hlarge := le_abs_value_ofScaled negativeZero h hf
  rw [hv, ← Int.cast_abs] at hlarge
  have hge : (2 : ℤ) ^ 53 ≤ |k| := by exact_mod_cast hlarge
  omega

-- So a rounded integer that looks safe is the integer itself.
theorem eq_of_toSafeInt?_ofScaled {negativeZero : Bool} {n z : ℤ}
    (h : (ofScaled negativeZero n 0).toSafeInt? = some z) : z = n := by
  by_cases hn : |n| ≤ 2 ^ 53
  · have hint := (toSafeInt?_eq_some_iff.mp h).1
    rw [toInt?_ofScaled negativeZero hn] at hint
    exact (Option.some.inj hint).symm
  · rw [toSafeInt?_ofScaled_eq_none negativeZero (le_of_not_ge hn)] at h
    cases h

-- Half an odd number lies midway between two integers, and the even one is taken.
theorem isNearest_half_of_odd {m : ℕ} (hodd : m % 2 = 1) :
    IsNearest (m / 2) (if m % 4 = 1 then m / 2 else m / 2 + 1) := by
  right
  have hhalf : (m : ℚ) = 2 * (m / 2 : ℕ) + 1 := by
    exact_mod_cast (show m = 2 * (m / 2) + 1 by omega)
  split
  · refine ⟨?_, Nat.even_iff.mpr (by omega)⟩
    rw [show (m : ℚ) / 2 - (m / 2 : ℕ) = 1 / 2 by linarith]
    norm_num
  · refine ⟨?_, Nat.even_iff.mpr (by omega)⟩
    push_cast
    rw [show (m : ℚ) / 2 - ((m / 2 : ℕ) + 1) = -(1 / 2) by linarith]
    norm_num

theorem lastPlace_natCast_eq_one {m : ℕ} (hlow : 2 ^ 53 ≤ m) (hhigh : m < 2 ^ 54) :
    lastPlace m = 1 := by
  have hlog : Int.log 2 (m : ℚ) = 53 := by
    apply log_eq_of_le_of_lt
    · exact_mod_cast hlow
    · exact_mod_cast hhigh
  rw [lastPlace, hlog]
  norm_num

-- Between 2^53 and 2^54 an odd integer is rounded to the neighbour that four divides.
theorem toInt?_ofScaled_of_odd (negativeZero : Bool) {n : ℤ} (h : 2 ^ 53 < |n|)
    (h' : |n| < 2 ^ 54) (hodd : Odd n) :
    (ofScaled negativeZero n 0).toInt? = some (if n % 4 = 1 then n - 1 else n + 1) := by
  rw [Int.abs_eq_natAbs] at h h'
  rw [ofScaled_zero_eq_ofRat, toInt?_eq_some_iff]
  set negative := if n = 0 then negativeZero else decide (n < 0) with hneg
  set m := n.natAbs with hm
  have hsign : signed negative m = n := by rw [hneg, hm, signed_natAbs]
  have hlow : 2 ^ 53 < m := by omega
  have hhigh : m < 2 ^ 54 := by omega
  have hlast : lastPlace m = 1 := lastPlace_natCast_eq_one hlow.le hhigh
  have hmodd : m % 2 = 1 := by
    rw [hm, ← Nat.odd_iff, Int.natAbs_odd]
    exact hodd
  have hnear := isNearest_half_of_odd hmodd
  set k : ℕ := if m % 4 = 1 then m / 2 else m / 2 + 1 with hk
  obtain ⟨j, hj, ⟨-, hbig⟩ | ⟨hf, -, hv⟩⟩ := ofRat_cases negative (q := m) (by positivity)
  · have hjle : (j : ℚ) ≤ 2 ^ 53 := by exact_mod_cast nearest_le_of_scaled hj
    have hmax : (2 : ℚ) ^ (55 : ℤ) ≤ j * 2 ^ lastPlace m :=
      (zpow_le_zpow_right₀ one_le_two (by norm_num)).trans hbig
    rw [hlast] at hmax
    norm_num at hmax
    linarith
  · rw [hlast, zpow_one] at hj
    obtain rfl := hj.unique hnear
    refine ⟨hf, ?_⟩
    rw [hv, hlast, zpow_one]
    have hint : signed negative k * 2 = if n % 4 = 1 then n - 1 else n + 1 := by
      clear_value k negative m
      cases negative <;> simp only [signed, if_true, Bool.false_eq_true, if_false] at hsign ⊢ <;>
        split at hk <;> split <;> omega
    exact_mod_cast congrArg (Int.cast (R := ℚ)) hint

theorem toInt?_neg {x : Double} {n : ℤ} (h : x.toInt? = some n) : x.neg.toInt? = some (-n) := by
  rw [toInt?_eq_some_iff] at h ⊢
  cases x with
  | nan => exact absurd h.1 (by simp [isFinite])
  | infinite negative => exact absurd h.1 (by simp [isFinite])
  | finite negative m e hc =>
    obtain ⟨-, hv⟩ := h
    refine ⟨rfl, ?_⟩
    rw [Int.cast_neg, ← hv]
    cases negative <;> simp [neg, value, signed]

theorem abs_eq_self {x : Double} (h : x.isNegative = false) : x.abs = x := by
  cases x with
  | nan => rfl
  | infinite negative => simp_all [isNegative, abs]
  | finite negative m e hc => simp_all [isNegative, abs]

theorem neg_abs {x : Double} (h : x.isNegative = true) : x.abs.neg = x := by
  cases x with
  | nan => rfl
  | infinite negative => simp_all [isNegative, abs, neg]
  | finite negative m e hc => simp_all [isNegative, abs, neg]

-- The magnitude of a double that is an integer.
theorem ofInt_natAbs {x : Double} {z : ℤ} (h : x.toInt? = some z) : ofInt z.natAbs = x.abs := by
  obtain ⟨hf, hv⟩ := toInt?_eq_some_iff.mp h
  cases x with
  | nan => cases hf
  | infinite negative => cases hf
  | finite negative m e hc =>
    have habs : |(finite false m e hc).value| = (z.natAbs : ℤ).natAbs := by
      rw [abs_value, ← abs_value negative m e hc, hv, Int.natAbs_natCast, Nat.cast_natAbs,
        Int.cast_abs]
    have h := ofRat_abs_value (x := finite false m e hc) rfl
    rw [habs] at h
    rw [ofInt_eq_ofRat, decide_eq_false (by omega)]
    exact h

-- The sign of a double that is an integer. Only zero has a choice.
theorem isNegative_of_toInt? {x : Double} {z : ℤ} (h : x.toInt? = some z) (hz : z ≠ 0) :
    x.isNegative = decide (z < 0) := by
  obtain ⟨hf, hv⟩ := toInt?_eq_some_iff.mp h
  have hvalue := value_eq_of_isNegative hf
  have hpos : (0 : ℚ) < |x.value| := by
    rw [hv]
    exact abs_pos.mpr (by exact_mod_cast hz)
  cases hneg : x.isNegative with
  | false =>
    rw [hneg, if_neg (by decide), hv] at hvalue
    rw [hv, ← hvalue] at hpos
    have : 0 < z := by exact_mod_cast hpos
    exact (decide_eq_false (by omega)).symm
  | true =>
    rw [hneg, if_pos rfl] at hvalue
    have hlt : (z : ℚ) < 0 := by
      rw [← hv, hvalue]
      linarith
    exact (decide_eq_true (by exact_mod_cast hlt)).symm

theorem nonpos_of_isNegative {x : Double} {z : ℤ} (h : x.toInt? = some z)
    (hneg : x.isNegative = true) : z ≤ 0 := by
  by_contra hz
  rw [isNegative_of_toInt? h (by omega), decide_eq_true_iff] at hneg
  omega

-- A double that is an integer is that integer rounded.
theorem eq_ofScaled {x : Double} {z : ℤ} (h : x.toInt? = some z) :
    x = ofScaled x.isNegative z 0 := by
  obtain ⟨hf, hv⟩ := toInt?_eq_some_iff.mp h
  have hsign : (if z = 0 then x.isNegative else decide (z < 0)) = x.isNegative := by
    by_cases hz : z = 0
    · rw [if_pos hz]
    · rw [if_neg hz, isNegative_of_toInt? h hz]
  have hround := ofRat_abs_value hf
  rw [hv, ← Int.cast_abs, ← Nat.cast_natAbs] at hround
  rw [ofScaled_zero_eq_ofRat, hsign, hround]

theorem add_of_toInt? {x y : Double} {a b : ℤ} (hx : x.toInt? = some a) (hy : y.toInt? = some b) :
    x + y = ofScaled (x.isNegative && y.isNegative) (a + b) 0 := by
  change add x y = _
  simp only [add, hx, hy]

theorem sub_of_toInt? {x y : Double} {a b : ℤ} (hx : x.toInt? = some a) (hy : y.toInt? = some b) :
    x - y = ofScaled (x.isNegative && y.neg.isNegative) (a - b) 0 :=
  add_of_toInt? hx (toInt?_neg hy)

theorem mul_of_toInt? {x y : Double} {a b : ℤ} (hx : x.toInt? = some a) (hy : y.toInt? = some b) :
    x * y = ofScaled (x.isNegative != y.isNegative) (a * b) 0 := by
  change mul x y = _
  simp only [mul, hx, hy]

theorem div_eq_ofRat {x y : Double} (hx : x.isFinite = true) (hy : y.isFinite = true)
    (hy0 : y.value ≠ 0) :
    x / y = ofRat (x.isNegative != y.isNegative) |x.value / y.value| := by
  cases x with
  | nan => cases hx
  | infinite negative => cases hx
  | finite negative m e h =>
    cases y with
    | nan => cases hy
    | infinite negative => cases hy
    | finite negative' n f h' =>
      have hn : n ≠ 0 := by
        rintro rfl
        apply hy0
        cases negative' <;> simp [value, signed]
      have hd : 0 < n <<< (f - e).toNat := by
        rw [Nat.shiftLeft_eq]
        positivity
      change div _ _ = _
      simp only [div, if_pos hn]
      rw [ofFraction_eq_ofRat _ _ hd, abs_div, abs_value, abs_value, mul_div_mul_comm,
        ← zpow_sub₀ two_ne_zero, zpow_eq_div 2, neg_sub, div_mul_div_comm]
      simp only [isNegative, Nat.shiftLeft_eq, Nat.cast_mul, Nat.cast_pow, Nat.cast_ofNat]

-- Rounding by `f` is rounding of the value by `g`, if that is what `f` does to fractions.
theorem toInt?_roundBy {f : ℤ → ℤ → ℤ} {g : ℚ → ℤ} (hint : ∀ n : ℤ, g n = n)
    (hfraction : ∀ (n : ℤ) (d : ℕ), f n d = g (n / d))
    (hle : ∀ (n : ℤ) (d : ℕ), (f n d).natAbs ≤ n.natAbs) {x : Double} (hx : x.isFinite = true) :
    (roundBy f x).toInt? = some (g x.value) := by
  cases x with
  | nan => cases hx
  | infinite negative => cases hx
  | finite negative m e h =>
    simp only [roundBy]
    split
    · next hi =>
      have hvalue : ∃ n : ℤ, (finite negative m e h).value = n := by
        rcases hi with rfl | he
        · exact ⟨0, by cases negative <;> simp [value, signed]⟩
        · obtain ⟨d, rfl⟩ := Int.eq_ofNat_of_zero_le he
          exact ⟨signed negative m * 2 ^ d, by simp [value]⟩
      obtain ⟨n, hn⟩ := hvalue
      rw [toInt?_eq_some_iff, hn, hint]
      exact ⟨rfl, rfl⟩
    · next hi =>
      have he : e.toNat = 0 := by omega
      have hround : g (finite negative m e h).value =
          f (signed negative m) (powerOfTwo (-e).toNat) := by
        rw [hfraction, powerOfTwo_eq, value, zpow_eq_div 2, he]
        push_cast
        rw [pow_zero, mul_one_div]
      rw [hround]
      apply toInt?_ofScaled
      have hm : (signed negative m).natAbs < 2 ^ 53 := by
        rw [natAbs_signed]
        exact h.1
      have hbound := hle (signed negative m) (powerOfTwo (-e).toNat)
      rw [Int.abs_eq_natAbs]
      omega

theorem toInt?_floor {x : Double} (hx : x.isFinite = true) :
    x.floor.toInt? = some ⌊x.value⌋ := by
  refine toInt?_roundBy (g := Int.floor) Int.floor_intCast (fun n d => ?_)
    (fun n d => Int.natAbs_fdiv_le_natAbs n d) hx
  rw [Int.fdiv_eq_ediv_of_nonneg _ (by positivity), Rat.floor_intCast_div_natCast]

theorem toInt?_ceil {x : Double} (hx : x.isFinite = true) :
    x.ceil.toInt? = some ⌈x.value⌉ := by
  refine toInt?_roundBy (g := Int.ceil) Int.ceil_intCast (fun n d => ?_) (fun n d => ?_) hx
  · rw [Int.fdiv_eq_ediv_of_nonneg _ (by positivity), ← Rat.floor_intCast_div_natCast,
      ← Int.ceil_neg, Int.cast_neg, neg_div, neg_neg]
  · rw [Int.natAbs_neg, ← Int.natAbs_neg n]
    exact Int.natAbs_fdiv_le_natAbs (-n) d

-- A number that comes close to `q` on the scale of its distance to the integers has the same floor.
theorem floor_eq_of_abs_sub_lt {q v δ : ℚ} (hv : |v - q| < δ)
    (hq : ∀ j : ℤ, q = j ∨ δ ≤ |q - j|) (hint : ∀ j : ℤ, q = j → v = q) : ⌊v⌋ = ⌊q⌋ := by
  rw [abs_lt] at hv
  rcases hq ⌊q⌋ with h | hlow
  · rw [hint _ h]
  rcases hq (⌊q⌋ + 1) with h | hhigh
  · rw [hint _ h]
  rw [abs_of_nonneg (sub_nonneg.mpr (Int.floor_le q))] at hlow
  rw [abs_of_neg (by push_cast; linarith [Int.lt_floor_add_one q])] at hhigh
  push_cast at hhigh
  rw [Int.floor_eq_iff]
  constructor <;> linarith

theorem intCast_div_eq_or_le (a j : ℤ) {b : ℤ} (hb : b ≠ 0) :
    (a / b : ℚ) = j ∨ 1 / |(b : ℚ)| ≤ |(a / b : ℚ) - j| := by
  have hb' : (b : ℚ) ≠ 0 := by exact_mod_cast hb
  rcases eq_or_ne (a - j * b) 0 with h | h
  · left
    rw [div_eq_iff hb']
    exact_mod_cast sub_eq_zero.mp h
  · right
    have hone : (1 : ℚ) ≤ |((a - j * b : ℤ) : ℚ)| := by exact_mod_cast Int.one_le_abs h
    rw [div_sub' hb', abs_div]
    gcongr
    push_cast at hone
    rwa [mul_comm] at hone

-- Half of the last place of a quotient is less than the reciprocal of its divisor.
theorem two_zpow_lastPlace_mul_lt {q b : ℚ} (hq : 0 < q) (hb : 0 < b) (hb' : b < 2 ^ 53)
    (h : q * b < 2 ^ 53) : 2 ^ (lastPlace q - 1) * b < 1 := by
  by_cases hmin : lastPlace q = -1074
  · rw [hmin]
    calc (2 : ℚ) ^ (-1074 - 1 : ℤ) * b ≤ 2 ^ (-53 : ℤ) * b := by
          gcongr
          · exact one_le_two
          · norm_num
      _ < 2 ^ (-53 : ℤ) * 2 ^ 53 := by gcongr
      _ = 1 := by norm_num
  · have hle := two_zpow_lastPlace_le hq hmin
    have hsplit : (2 : ℚ) ^ (lastPlace q + 52) = 2 ^ (lastPlace q - 1) * 2 ^ 53 := by
      rw [show lastPlace q + 52 = (lastPlace q - 1) + (53 : ℕ) by push_cast; ring,
        zpow_add₀ two_ne_zero, zpow_natCast]
    rw [hsplit] at hle
    have hmul := (mul_le_mul_of_nonneg_right hle hb.le).trans_lt h
    linarith

theorem ite_neg_abs_div {x y : Double} (hx : x.isFinite = true) (hy : y.isFinite = true) :
    (if (x.isNegative != y.isNegative) = true then -|x.value / y.value| else |x.value / y.value|) =
      x.value / y.value := by
  rw [abs_div]
  conv_rhs => rw [value_eq_of_isNegative hx, value_eq_of_isNegative hy]
  cases x.isNegative <;> cases y.isNegative <;> simp [neg_div, div_neg]

theorem value_ofRat_abs_intCast (negative : Bool) {j : ℤ} (hj : |(j : ℚ)| < 2 ^ 53) :
    (ofRat negative |(j : ℚ)|).value = if negative = true then -|(j : ℚ)| else |(j : ℚ)| := by
  have hnat : |(j : ℚ)| = (j.natAbs : ℕ) * 2 ^ (0 : ℤ) := by
    rw [zpow_zero, mul_one, Nat.cast_natAbs, Int.cast_abs]
  have hlt : j.natAbs < 2 ^ 53 := by
    rw [hnat, zpow_zero, mul_one] at hj
    exact_mod_cast hj
  obtain ⟨-, -, hv⟩ := ofRat_of_representable negative hlt (e := 0) (by norm_num) (by norm_num)
  rw [hnat, hv, cast_signed, zpow_zero, mul_one, mul_one]

-- A quotient that is no integer is too far from the next one for rounding to reach it.
theorem floor_value_ofRat_div {negative : Bool} {a b : ℤ} (ha : |a| < 2 ^ 53) (hb : |b| < 2 ^ 53)
    (ha0 : a ≠ 0) (hb0 : b ≠ 0)
    (hsign : (if negative = true then -|(a / b : ℚ)| else |(a / b : ℚ)|) = a / b) :
    (ofRat negative |(a / b : ℚ)|).isFinite = true ∧
      ⌊(ofRat negative |(a / b : ℚ)|).value⌋ = ⌊(a / b : ℚ)⌋ := by
  have ha' : (a : ℚ) ≠ 0 := by exact_mod_cast ha0
  have hb' : (b : ℚ) ≠ 0 := by exact_mod_cast hb0
  have hbpos : 0 < |(b : ℚ)| := abs_pos.mpr hb'
  have hbone : 1 ≤ |(b : ℚ)| := by exact_mod_cast Int.one_le_abs hb0
  have hblt : |(b : ℚ)| < 2 ^ 53 := by exact_mod_cast hb
  have hq : 0 < |(a / b : ℚ)| := by positivity
  have hqb : |(a / b : ℚ)| * |(b : ℚ)| < 2 ^ 53 := by
    rw [abs_div, div_mul_cancel₀ _ hbpos.ne']
    exact_mod_cast ha
  have hqlt : |(a / b : ℚ)| < 2 ^ 53 := (le_mul_of_one_le_right hq.le hbone).trans_lt hqb
  have hlarge : (2 : ℚ) ^ 53 < 2 ^ (1023 : ℤ) := by
    exact_mod_cast (zpow_lt_zpow_right₀ one_lt_two (by norm_num) :
      (2 : ℚ) ^ (53 : ℤ) < 2 ^ (1023 : ℤ))
  have hf := isFinite_ofRat negative hq (hqlt.trans hlarge)
  have herr := abs_value_ofRat_sub_le negative hq hf
  rw [hsign] at herr
  refine ⟨hf, floor_eq_of_abs_sub_lt (δ := 1 / |(b : ℚ)|) (herr.trans_lt ?_)
    (fun j => intCast_div_eq_or_le a j hb0) fun j hj => ?_⟩
  · rw [lt_div_iff₀ hbpos]
    exact two_zpow_lastPlace_mul_lt hq hbpos hblt hqb
  · rw [hj] at hsign hqlt ⊢
    rw [value_ofRat_abs_intCast negative hqlt, hsign]

-- The quotient of two integers is rounded to a double and then to an integer.
theorem toInt?_floor_div {x y : Double} {a b : ℤ} (hx : x.toInt? = some a) (hy : y.toInt? = some b)
    (ha : |a| < 2 ^ 53) (hb : |b| < 2 ^ 53) (hb0 : b ≠ 0) :
    (x / y).floor.toInt? = some ⌊(a / b : ℚ)⌋ := by
  obtain ⟨hxf, hxv⟩ := toInt?_eq_some_iff.mp hx
  obtain ⟨hyf, hyv⟩ := toInt?_eq_some_iff.mp hy
  have hyv0 : y.value ≠ 0 := by
    rw [hyv]
    exact_mod_cast hb0
  have hsign := ite_neg_abs_div hxf hyf
  rw [div_eq_ofRat hxf hyf hyv0]
  rw [hxv, hyv] at hsign ⊢
  rcases eq_or_ne a 0 with rfl | ha0
  · rw [Int.cast_zero, zero_div, abs_zero, ofRat_zero, toInt?_floor rfl, value_zero]
  · obtain ⟨hf, hfloor⟩ := floor_value_ofRat_div ha hb ha0 hb0 hsign
    rw [toInt?_floor hf, hfloor]

end RecordQuery.Double
