import RecordQuery.Proofs.Double.Rounding

/-!
What rounding to a double does to the value: nothing to a number that has a double, at most half a
place to any other, and it keeps the order.
-/

namespace RecordQuery.Double

theorem lastPlace_le_of_lt {q : ℚ} {e : ℤ} (hq : 0 < q) (he : -1074 ≤ e) (h : q < 2 ^ (e + 53)) :
    lastPlace q ≤ e := by
  have hlog := (Int.lt_zpow_iff_log_lt (R := ℚ) Nat.one_lt_two hq).mp (by exact_mod_cast h)
  simp only [lastPlace]
  omega

theorem lastPlace_mono {q r : ℚ} (hq : 0 < q) (h : q ≤ r) : lastPlace q ≤ lastPlace r := by
  have hlog : Int.log 2 q ≤ Int.log 2 r := Int.log_mono_right hq h
  simp only [lastPlace]
  omega

theorem lt_two_zpow_lastPlace (q : ℚ) : q < 2 ^ (lastPlace q + 53) := by
  apply (lt_two_zpow_log_add_one q).trans_le
  apply zpow_le_zpow_right₀ one_le_two
  simp only [lastPlace]
  omega

theorem two_zpow_lastPlace_le {q : ℚ} (hq : 0 < q) (h : lastPlace q ≠ -1074) :
    2 ^ (lastPlace q + 52) ≤ q := by
  have he : lastPlace q + 52 = Int.log 2 q := by
    simp only [lastPlace] at h ⊢
    omega
  rw [he]
  exact two_zpow_log_le hq

-- The rounded significand has at most one unit more than 53 bits hold, and 53 bits above the least
-- exponent.
theorem nearest_le_of_scaled {q : ℚ} {k : ℕ} (h : IsNearest (q / 2 ^ lastPlace q) k) :
    k ≤ 2 ^ 53 := by
  apply h.le_of_le_natCast
  rw [div_le_iff₀ (by positivity)]
  have hlt := lt_two_zpow_lastPlace q
  rw [zpow_add₀ two_ne_zero, mul_comm] at hlt
  exact_mod_cast hlt.le

theorem le_nearest_of_scaled {q : ℚ} {k : ℕ} (hq : 0 < q) (hp : lastPlace q ≠ -1074)
    (h : IsNearest (q / 2 ^ lastPlace q) k) : 2 ^ 52 ≤ k := by
  apply h.le_of_natCast_le
  rw [le_div_iff₀ (by positivity)]
  have hle := two_zpow_lastPlace_le hq hp
  rw [zpow_add₀ two_ne_zero, mul_comm] at hle
  exact_mod_cast hle

theorem ofParts_cases (negative : Bool) {k : ℕ} {e : ℤ} (hk : k ≤ 2 ^ 53) (he : -1074 ≤ e)
    (hn : e = -1074 ∨ 2 ^ 52 ≤ k) :
    (ofParts negative k e = .infinite negative ∧ (2 : ℚ) ^ (1024 : ℤ) ≤ k * 2 ^ e) ∨
      ((ofParts negative k e).isFinite = true ∧ (ofParts negative k e).isNegative = negative ∧
        (ofParts negative k e).value = signed negative k * 2 ^ e) := by
  unfold ofParts
  split
  · exact .inr ⟨rfl, rfl, rfl⟩
  · next hc =>
    split
    · next hc' =>
      refine .inr ⟨rfl, rfl, ?_⟩
      have hk' : k = 2 ^ 53 := by simp only [Canonical] at hc hc'; omega
      subst hk'
      rw [value, zpow_add_one₀ two_ne_zero, cast_signed, cast_signed]
      cases negative <;> norm_num <;> ring
    · next hc' =>
      refine .inl ⟨rfl, ?_⟩
      have hlarge : ∃ s : ℕ, 2 ^ s ≤ k ∧ 1024 - (s : ℤ) ≤ e := by
        by_cases h : 972 ≤ e
        · exact ⟨52, by simp only [Canonical] at hc hc'; omega, h⟩
        · exact ⟨53, by simp only [Canonical] at hc hc'; omega,
            by simp only [Canonical] at hc hc'; omega⟩
      obtain ⟨s, hsig, hexp⟩ := hlarge
      have hsig' : (2 : ℚ) ^ (s : ℤ) ≤ k := by
        rw [zpow_natCast]
        exact_mod_cast hsig
      calc (2 : ℚ) ^ (1024 : ℤ) = 2 ^ (s : ℤ) * 2 ^ (1024 - (s : ℤ)) := by
            rw [← zpow_add₀ two_ne_zero, add_sub_cancel]
        _ ≤ k * 2 ^ e := by
            gcongr
            exact one_le_two

-- All that later proofs need to know about rounding a positive number.
theorem ofRat_cases (negative : Bool) {q : ℚ} (hq : 0 < q) :
    ∃ k : ℕ, IsNearest (q / 2 ^ lastPlace q) k ∧
      ((ofRat negative q = .infinite negative ∧ (2 : ℚ) ^ (1024 : ℤ) ≤ k * 2 ^ lastPlace q) ∨
        ((ofRat negative q).isFinite = true ∧ (ofRat negative q).isNegative = negative ∧
          (ofRat negative q).value = signed negative k * 2 ^ lastPlace q)) := by
  obtain ⟨k, hk, he⟩ := exists_ofRat_eq negative hq
  refine ⟨k, hk, ?_⟩
  rw [he]
  apply ofParts_cases negative (nearest_le_of_scaled hk)
  · simp [lastPlace]
  · rw [or_iff_not_imp_left]
    exact fun hp => le_nearest_of_scaled hq hp hk

-- Numbers below the largest power of two stay in range.
theorem isFinite_ofRat (negative : Bool) {q : ℚ} (hq : 0 < q) (h : q < 2 ^ (1023 : ℤ)) :
    (ofRat negative q).isFinite = true := by
  obtain ⟨k, hk, ⟨-, hbig⟩ | ⟨hf, -⟩⟩ := ofRat_cases negative hq
  · exfalso
    have hk53 : (k : ℚ) ≤ 2 ^ (53 : ℤ) := by exact_mod_cast nearest_le_of_scaled hk
    have hlast : lastPlace q + 53 < 1024 := by
      by_contra hge
      have hmin : lastPlace q ≠ -1074 := by omega
      have hle : (2 : ℚ) ^ (1023 : ℤ) ≤ 2 ^ (lastPlace q + 52) :=
        zpow_le_zpow_right₀ one_le_two (by omega)
      exact absurd (hle.trans (two_zpow_lastPlace_le hq hmin)) (not_le.mpr h)
    have hlt : (2 : ℚ) ^ (53 + lastPlace q) < 2 ^ (1024 : ℤ) :=
      zpow_lt_zpow_right₀ one_lt_two (by omega)
    have hle : (k : ℚ) * 2 ^ lastPlace q ≤ 2 ^ (53 + lastPlace q) := by
      rw [zpow_add₀ two_ne_zero]
      gcongr
    exact absurd (hbig.trans hle) (not_le.mpr hlt)
  · exact hf

theorem ofRat_zero (negative : Bool) : ofRat negative 0 = zero negative := by simp [ofRat]

@[simp] theorem value_zero (negative : Bool) : (zero negative).value = 0 := by
  cases negative <;> simp [zero, value, signed]

-- A number with a significand of 53 bits and an exponent in range has a double.
theorem ofRat_of_representable (negative : Bool) {m : ℕ} {e : ℤ} (hm : m < 2 ^ 53)
    (he : -1074 ≤ e) (he' : e ≤ 971) :
    (ofRat negative (m * 2 ^ e)).isFinite = true ∧
      (ofRat negative (m * 2 ^ e)).isNegative = negative ∧
      (ofRat negative (m * 2 ^ e)).value = signed negative m * 2 ^ e := by
  rcases Nat.eq_zero_or_pos m with rfl | hpos
  · simp only [Nat.cast_zero, zero_mul, ofRat_zero, value_zero]
    exact ⟨rfl, rfl, by cases negative <;> simp [signed]⟩
  · set q : ℚ := m * 2 ^ e with hqdef
    have hq : 0 < q := by positivity
    have hm' : (m : ℚ) < 2 ^ (53 : ℤ) := by exact_mod_cast hm
    have hlt : q < 2 ^ (e + 53) := by
      rw [hqdef, add_comm, zpow_add₀ two_ne_zero]
      exact mul_lt_mul_of_pos_right hm' (by positivity)
    have hlast := lastPlace_le_of_lt hq he hlt
    obtain ⟨d, hd⟩ := Int.eq_ofNat_of_zero_le (sub_nonneg.mpr hlast)
    have hgrid : q / 2 ^ lastPlace q = ((m * 2 ^ d : ℕ) : ℚ) := by
      rw [hqdef, mul_div_assoc, ← zpow_sub₀ two_ne_zero, ← hqdef, hd]
      push_cast
      rfl
    obtain ⟨k, hk, hcases⟩ := ofRat_cases negative hq
    rw [hgrid] at hk
    obtain rfl := hk.unique (isNearest_natCast _)
    have hexact : ((m * 2 ^ d : ℕ) : ℚ) * 2 ^ lastPlace q = q := by
      rw [← hgrid, div_mul_cancel₀ _ (by positivity)]
    rw [hexact] at hcases
    rcases hcases with ⟨-, hbig⟩ | ⟨hf, hs, hv⟩
    · have hmax : (2 : ℚ) ^ (e + 53) ≤ 2 ^ (1024 : ℤ) :=
        zpow_le_zpow_right₀ one_le_two (by omega)
      linarith
    · refine ⟨hf, hs, ?_⟩
      rw [hv, cast_signed, cast_signed]
      cases negative
      · exact hexact
      · simpa only [if_true, neg_mul, neg_inj] using hexact

-- The sign and the value determine a finite double.
theorem Canonical.lastPlace_eq {m : ℕ} {e : ℤ} (h : Canonical m e) (hm : 0 < m) :
    lastPlace (m * 2 ^ e) = e := by
  have hlog : Int.log 2 ((m : ℚ) * 2 ^ e) = e + m.log2 := log_natCast_mul_zpow hm e
  have hlt : m.log2 < 53 := (Nat.log2_lt hm.ne').mpr h.1
  rw [lastPlace, hlog]
  obtain ⟨-, he, -, hsig | hexp⟩ := h
  · have hge : 52 ≤ m.log2 := (Nat.le_log2 hm.ne').mpr hsig
    omega
  · omega

theorem eq_of_value_eq {x y : Double} (hx : x.isFinite = true) (hy : y.isFinite = true)
    (hs : x.isNegative = y.isNegative) (hv : x.value = y.value) : x = y := by
  cases x with
  | nan => cases hx
  | infinite negative => cases hx
  | finite negative m e h =>
    cases y with
    | nan => cases hy
    | infinite negative => cases hy
    | finite negative' m' e' h' =>
      obtain rfl : negative = negative' := hs
      have habs := congrArg (|·|) hv
      simp only [abs_value] at habs
      rcases Nat.eq_zero_or_pos m with rfl | hm
      · have hm' : m' = 0 := by
          rw [Nat.cast_zero, zero_mul] at habs
          have := habs.symm
          rw [mul_eq_zero, or_iff_left (by positivity)] at this
          exact_mod_cast this
        subst hm'
        obtain rfl : e = e' := by simp only [Canonical] at h h'; omega
        rfl
      · have hm' : 0 < m' := by
          rw [← Nat.cast_pos (α := ℚ)]
          by_contra hneg
          have : (m' : ℚ) = 0 := le_antisymm (not_lt.mp hneg) (by positivity)
          rw [this, zero_mul] at habs
          have : (0 : ℚ) < m * 2 ^ e := by positivity
          linarith
        obtain rfl : e = e' := by rw [← h.lastPlace_eq hm, habs, h'.lastPlace_eq hm']
        have : (m : ℚ) = m' := mul_right_cancel₀ (by positivity) habs
        obtain rfl : m = m' := by exact_mod_cast this
        rfl

theorem value_eq_of_isNegative {x : Double} (hx : x.isFinite = true) :
    x.value = if x.isNegative then -|x.value| else |x.value| := by
  cases x with
  | nan => cases hx
  | infinite negative => cases hx
  | finite negative m e h =>
    rw [abs_value]
    cases negative <;> simp [value, isNegative, signed]

-- Rounding gives back the double that a number comes from.
theorem ofRat_abs_value {x : Double} (hx : x.isFinite = true) :
    ofRat x.isNegative |x.value| = x := by
  cases x with
  | nan => cases hx
  | infinite negative => cases hx
  | finite negative m e h =>
    have hlt : m < 2 ^ 53 := h.1
    obtain ⟨hf, hs, hv⟩ := ofRat_of_representable negative hlt h.2.1 h.2.2.1
    rw [abs_value]
    exact eq_of_value_eq hf rfl hs hv

theorem abs_value_of_cases {x : Double} {negative : Bool} {k : ℕ} {e : ℤ}
    (h : x.value = signed negative k * 2 ^ e) : |x.value| = k * 2 ^ e := by
  rw [h, abs_mul, abs_of_pos (by positivity : (0 : ℚ) < 2 ^ e), ← Int.cast_abs,
    Int.abs_eq_natAbs, natAbs_signed]
  simp

-- Larger numbers are not rounded to smaller doubles.
theorem abs_value_ofRat_mono (negative negative' : Bool) {q r : ℚ} (hq : 0 < q) (h : q ≤ r)
    (hf : (ofRat negative q).isFinite = true) (hf' : (ofRat negative' r).isFinite = true) :
    |(ofRat negative q).value| ≤ |(ofRat negative' r).value| := by
  obtain ⟨j, hj, ⟨hinf, -⟩ | ⟨-, -, hjv⟩⟩ := ofRat_cases negative hq
  · rw [hinf] at hf; cases hf
  obtain ⟨k, hk, ⟨hinf, -⟩ | ⟨-, -, hkv⟩⟩ := ofRat_cases negative' (hq.trans_le h)
  · rw [hinf] at hf'; cases hf'
  rw [abs_value_of_cases hjv, abs_value_of_cases hkv]
  rcases (lastPlace_mono hq h).eq_or_lt with he | hlt
  · rw [← he] at hk ⊢
    have hjk : j ≤ k := hj.le_of_le hk (by gcongr)
    gcongr
  · have hj53 : (j : ℚ) ≤ 2 ^ (53 : ℤ) := by exact_mod_cast nearest_le_of_scaled hj
    have hk52 : (2 : ℚ) ^ (52 : ℤ) ≤ k := by
      exact_mod_cast le_nearest_of_scaled (hq.trans_le h)
        (by have : -1074 ≤ lastPlace q := by simp [lastPlace]
            omega) hk
    calc (j : ℚ) * 2 ^ lastPlace q ≤ 2 ^ (53 : ℤ) * 2 ^ lastPlace q := by gcongr
      _ = 2 ^ (53 + lastPlace q) := by rw [zpow_add₀ two_ne_zero]
      _ ≤ 2 ^ (52 + lastPlace r) := zpow_le_zpow_right₀ one_le_two (by omega)
      _ = 2 ^ (52 : ℤ) * 2 ^ lastPlace r := by rw [zpow_add₀ two_ne_zero]
      _ ≤ k * 2 ^ lastPlace r := by gcongr

-- Rounding moves a number by at most half of its last place.
theorem abs_value_ofRat_sub_le (negative : Bool) {q : ℚ} (hq : 0 < q)
    (hf : (ofRat negative q).isFinite = true) :
    |(ofRat negative q).value - (if negative then -q else q)| ≤ 2 ^ (lastPlace q - 1) := by
  obtain ⟨k, hk, ⟨hinf, -⟩ | ⟨-, -, hv⟩⟩ := ofRat_cases negative hq
  · rw [hinf] at hf; cases hf
  have hpos : (0 : ℚ) < 2 ^ lastPlace q := by positivity
  have herr : |(k : ℚ) * 2 ^ lastPlace q - q| ≤ 2 ^ (lastPlace q - 1) := by
    have hscale : (k : ℚ) * 2 ^ lastPlace q - q =
        -((q / 2 ^ lastPlace q - k) * 2 ^ lastPlace q) := by
      rw [sub_mul, div_mul_cancel₀ _ hpos.ne']
      ring
    rw [hscale, abs_neg, abs_mul, abs_of_pos hpos, zpow_sub_one₀ two_ne_zero, mul_comm]
    gcongr
    simpa using hk.abs_sub_le
  rw [hv, cast_signed]
  cases negative with
  | false => simpa using herr
  | true =>
    rw [← abs_neg]
    convert herr using 2
    simp
    ring

theorem abs_value_lt (x : Double) : |x.value| < 2 ^ (1024 : ℤ) := by
  cases x with
  | nan => simp [value]
  | infinite negative => simp [value]
  | finite negative m e h =>
    have hm : (m : ℚ) < 2 ^ (53 : ℤ) := by exact_mod_cast h.1
    rw [abs_value]
    calc (m : ℚ) * 2 ^ e < 2 ^ (53 : ℤ) * 2 ^ e := by gcongr
      _ = 2 ^ (53 + e) := by rw [zpow_add₀ two_ne_zero]
      _ ≤ 2 ^ (1024 : ℤ) := zpow_le_zpow_right₀ one_le_two (by have := h.2.2.1; omega)

-- Numbers out of range on either side.
theorem ofRat_eq_infinite (negative : Bool) {q : ℚ} (h : 2 ^ (1024 : ℤ) ≤ q) :
    ofRat negative q = .infinite negative := by
  have hq : 0 < q := lt_of_lt_of_le (by positivity) h
  obtain ⟨k, hk, ⟨hinf, -⟩ | ⟨-, -, hv⟩⟩ := ofRat_cases negative hq
  · exact hinf
  · exfalso
    have hlast : 972 ≤ lastPlace q := by
      by_contra hlt
      have hle : (2 : ℚ) ^ (lastPlace q + 53) ≤ 2 ^ (1024 : ℤ) :=
        zpow_le_zpow_right₀ one_le_two (by omega)
      exact absurd ((lt_two_zpow_lastPlace q).trans_le hle) (not_lt.mpr h)
    have hk52 : (2 : ℚ) ^ (52 : ℤ) ≤ k := by
      exact_mod_cast le_nearest_of_scaled hq (by omega) hk
    have hlarge : (2 : ℚ) ^ (1024 : ℤ) ≤ k * 2 ^ lastPlace q := by
      calc (2 : ℚ) ^ (1024 : ℤ) ≤ 2 ^ (52 + lastPlace q) :=
            zpow_le_zpow_right₀ one_le_two (by omega)
        _ = 2 ^ (52 : ℤ) * 2 ^ lastPlace q := by rw [zpow_add₀ two_ne_zero]
        _ ≤ k * 2 ^ lastPlace q := by gcongr
    rw [← abs_value_of_cases hv] at hlarge
    exact absurd (abs_value_lt _) (not_lt.mpr hlarge)

theorem ofRat_eq_zero (negative : Bool) {q : ℚ} (hq : 0 < q) (h : q < 2 ^ (-1075 : ℤ)) :
    ofRat negative q = zero negative := by
  have hlast : lastPlace q = -1074 := by
    have hle := lastPlace_le_of_lt hq le_rfl
      (h.trans (zpow_lt_zpow_right₀ one_lt_two (by norm_num) : (2 : ℚ) ^ (-1075 : ℤ) < _))
    have hge : -1074 ≤ lastPlace q := by simp [lastPlace]
    omega
  have hnear : IsNearest (q / 2 ^ lastPlace q) 0 := by
    left
    rw [hlast, Nat.cast_zero, sub_zero, abs_of_pos (by positivity), div_lt_iff₀ (by positivity)]
    have hsplit : (2 : ℚ) ^ (-1075 : ℤ) = 1 / 2 * 2 ^ (-1074 : ℤ) := by
      rw [show (-1075 : ℤ) = -1 + -1074 by norm_num, zpow_add₀ two_ne_zero]
      norm_num
    rwa [← hsplit]
  rw [← ofParts_eq_ofRat negative hq hnear, hlast]
  rfl

theorem ofParts_sign {k m : ℕ} {e f : ℤ} {h : Canonical m f} (negative : Bool)
    (hp : ofParts false k e = .finite false m f h) :
    ofParts negative k e = .finite negative m f h := by
  unfold ofParts at hp ⊢
  split at hp
  · next hc =>
    cases hp
    rw [dif_pos hc]
  · next hc =>
    split at hp
    · next hc' =>
      cases hp
      rw [dif_neg hc, dif_pos hc']
    · cases hp

-- The sign of a rounded number is the given one and changes nothing else.
theorem ofRat_sign {q : ℚ} {m : ℕ} {e : ℤ} {h : Canonical m e} (negative : Bool)
    (hq : ofRat false q = .finite false m e h) : ofRat negative q = .finite negative m e h := by
  unfold ofRat at hq ⊢
  split
  · next h0 =>
    rw [if_pos h0] at hq
    cases hq
    rfl
  · next h0 =>
    rw [if_neg h0] at hq
    exact ofParts_sign negative hq

end RecordQuery.Double
