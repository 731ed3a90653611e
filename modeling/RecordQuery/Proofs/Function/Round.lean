import RecordQuery.Function.Numeric
import RecordQuery.Proofs.Double.Power
import RecordQuery.Proofs.Function.Range

/-!
Rounding of integers to places. A double is scaled by a power of ten, rounded and scaled back, which
is right as long as the scaled integer has a double and for most places before the point. An integer
beyond the safe range is left alone, places before the point or not. Places that no power of ten has
a double for leave no number at all.
-/

namespace RecordQuery

namespace Double

theorem toInt?_decimal_up : ∀ k : Fin 23, (decimal (k : ℕ)).toInt? = some (10 ^ (k : ℕ)) := by
  decide +kernel

-- The places before the point up to the fifteenth for which the factor is close to the exact one.
def closePlaces : List ℕ := [1, 2, 3, 6, 7, 8, 10, 12, 13, 14]

theorem decimal_down_checked : ∀ k : Fin 23, (decimal (-(k : ℕ))).toRat?.any (fun r =>
    1 ≤ r * 10 ^ 23 ∧ r ≤ 1 ∧
      ((k : ℕ) ∈ closePlaces →
        2 ^ 54 ≤ r * 10 ^ (k : ℕ) * (2 ^ 54 + 1) ∧ r * 10 ^ (k : ℕ) * 2 ^ 54 ≤ 2 ^ 54 + 1) ∧
      (16 ≤ (k : ℕ) → r * 10 ^ 16 ≤ 1)) = true := by
  decide +kernel

theorem decimal_down {k : ℕ} (hk : k ≤ 22) :
    (decimal (-k)).isFinite = true ∧ 1 ≤ (decimal (-k)).value * 10 ^ 23 ∧ (decimal (-k)).value ≤ 1 ∧
      (k ∈ closePlaces → IsInverse (decimal (-k)).value (10 ^ k)) ∧
      (16 ≤ k → (decimal (-k)).value * 10 ^ 16 ≤ 1) := by
  obtain ⟨hf, hbounds⟩ := of_toRat?_any (decimal_down_checked ⟨k, by omega⟩)
  obtain ⟨hlow, hhigh, hclose, hsmall⟩ := of_decide_eq_true hbounds
  refine ⟨hf, hlow, hhigh, fun hmem => ?_, hsmall⟩
  obtain ⟨hbelow, habove⟩ := hclose hmem
  constructor
  · norm_num
    linarith
  · norm_num
    linarith

end Double

namespace Function

open Double (IsSafe IsNearestInt decimal closePlaces)

variable {n d : ℤ} {v : Value} {places : List Value}

-- The places that the arguments after the number ask for.
inductive Places : List Value → ℤ → Prop
  | none : Places [] 0
  | given {w : Value} {d : ℤ} (hw : CountsAs w d) : Places [w] d

-- `z` is `n` rounded to `d` places: `n` itself if they are after the point, or else the multiple of
-- the power of ten that is nearest to `n`, the even one of two that are equally near.
def IsRounded (n d z : ℤ) : Prop :=
  if 0 ≤ d then z = n
  else ∃ m : ℤ, z = m * 10 ^ d.natAbs ∧ IsNearestInt (n / 10 ^ d.natAbs) m

def RoundsTo (result : Except Fault Value) (n d : ℤ) : Prop :=
  ∃ r z, result = .ok (.number r) ∧ r.IsCanonical z ∧ IsRounded n d z

-- The places for which scaling is right: the scaled integer has a double, or the factor is close to
-- the power of ten, or it scales everything to zero.
def Scales (n d : ℤ) : Prop :=
  if 0 ≤ d then d ≤ 22 ∧ |n| * 5 ^ d.natAbs < 2 ^ 53
  else |n| ≤ 5 * 10 ^ 15 ∧ (d.natAbs ∈ closePlaces ∨ 16 ≤ d.natAbs ∧ d.natAbs ≤ 22)

-- A call goes by the doubles that its arguments are.
theorem round_double (hv : IsBound v n) (hplaces : Places places d) (hd : IsSafe d) :
    ∃ x y : Double, x.toInt? = some n ∧ y.toInt? = some d ∧
      round.call (v :: places) = .ok (.number (.float (x.roundTo y))) := by
  obtain ⟨⟨m, hm, hcanonical⟩, hsafe⟩ := hv
  obtain ⟨x, rfl⟩ := hcanonical.isSafe_iff.mp hsafe
  have hint := (Number.toInt?_of_toSafeInt? (Number.isCanonical_float_iff.mp hcanonical)).1
  cases hplaces with
  | none =>
    refine ⟨x, Double.zero false, hint, rfl, ?_⟩
    simp [round, fixed, numberArgument_eq "round" hm]
    rfl
  | given hw =>
    obtain ⟨y, hy, hyint⟩ := integerArgument_eq "round" ⟨hw, hd⟩
    refine ⟨x, y, hint, hyint, ?_⟩
    simp [round, fixed, numberArgument_eq "round" hm, hy]
    rfl

theorem roundTo_eq (x : Double) {y : Double} (hy : y.toInt? = some d) :
    x.roundTo y = (x * decimal d).roundEven / decimal d := by
  rw [Double.roundTo, Double.pow_ten_eq hy]

-- After the point the product with the exact power of ten has a double.
theorem toInt?_scaled_up {k : ℕ} {x : Double} (hx : x.toInt? = some n) (hk : k ≤ 22)
    (h : |n| * 5 ^ k < 2 ^ 53) :
    ((x * decimal k).roundEven / decimal k).toInt? = some n := by
  have hfactor : (decimal k).toInt? = some (10 ^ k) := Double.toInt?_decimal_up ⟨k, by omega⟩
  have hproduct : (x * decimal k).toInt? = some (n * 10 ^ k) := by
    rw [Double.mul_of_toInt? hx hfactor]
    apply Double.toInt?_ofScaled_of_natAbs_eq (m := n.natAbs * 5 ^ k) (e := k)
    · rw [Int.abs_eq_natAbs] at h
      exact_mod_cast h
    · omega
    · rw [Int.natAbs_mul, Int.natAbs_pow, mul_assoc, ← mul_pow]
      rfl
  refine Double.toInt?_roundEven_mul_div hfactor (by positivity) ?_ hproduct
  have hpow : (1 : ℤ) ≤ 5 ^ k := one_le_pow₀ (by norm_num)
  exact (le_mul_of_one_le_right (abs_nonneg n) hpow).trans h.le

-- Before the point the factor is close to the power of ten or scales everything to zero.
theorem toInt?_scaled_down {k : ℕ} {x : Double} (hx : x.toInt? = some n) (hn : |n| ≤ 5 * 10 ^ 15)
    (hk : k ∈ closePlaces ∨ 16 ≤ k ∧ k ≤ 22) :
    ∃ m : ℤ, IsNearestInt (n / 10 ^ k) m ∧
      ((x * decimal (-k)).roundEven / decimal (-k)).toInt? = some (m * 10 ^ k) ∧
      IsSafe (m * 10 ^ k) := by
  rcases hk with hclose | ⟨hlow, hhigh⟩
  · have hrange : ∀ k ∈ closePlaces, 0 < k ∧ k ≤ 15 := by decide
    obtain ⟨hk0, hk15⟩ := hrange k hclose
    obtain ⟨hf, hlow, -, hinverse, -⟩ := Double.decimal_down (show k ≤ 22 by omega)
    obtain ⟨m, hnear, hint, hbound⟩ :=
      Double.toInt?_roundEven_mul_div_of_isInverse hk0 hk15 hx hn hf (by linarith)
        (hinverse hclose)
    exact ⟨m, hnear, hint, Double.isSafe_iff.mpr hbound⟩
  · obtain ⟨hf, hpos, -, -, hsmall⟩ := Double.decimal_down hhigh
    refine ⟨0, ?_, ?_, ?_⟩
    · have hn' : |(n : ℚ)| ≤ 5 * 10 ^ 15 := by exact_mod_cast hn
      have hpow : (10 : ℚ) ^ 16 ≤ 10 ^ k := pow_le_pow_right₀ (by norm_num) hlow
      have hhalf : |(n / 10 ^ k - (0 : ℤ) : ℚ)| ≤ 1 / 2 := by
        rw [Int.cast_zero, sub_zero, abs_div, abs_of_pos (by positivity : (0 : ℚ) < 10 ^ k),
          div_le_iff₀ (by positivity)]
        linarith
      rcases hhalf.lt_or_eq with hlt | htie
      · exact .inl hlt
      · exact .inr ⟨htie, by decide⟩
    · rw [Double.toInt?_roundEven_mul_div_of_small hx hn hf (by linarith) (hsmall hlow), zero_mul]
    · rw [zero_mul]
      decide

theorem roundsTo_of_scales (hv : IsBound v n) (hplaces : Places places d) (h : Scales n d) :
    RoundsTo (round.call (v :: places)) n d := by
  unfold Scales at h
  unfold RoundsTo IsRounded
  have hd : IsSafe d := by
    have hall : ∀ k ∈ closePlaces, k ≤ 15 := by decide
    simp only [IsSafe, Double.maxSafe]
    split at h
    · omega
    · rcases h.2 with hclose | ⟨-, hhigh⟩
      · have := hall _ hclose
        omega
      · omega
  obtain ⟨x, y, hx, hy, hcall⟩ := round_double hv hplaces hd
  rw [hcall, roundTo_eq x hy]
  rcases lt_or_ge d 0 with hneg | hnonneg
  · obtain ⟨k, rfl⟩ : ∃ k : ℕ, d = -k := ⟨d.natAbs, by omega⟩
    rw [if_neg (by omega), Int.natAbs_neg, Int.natAbs_natCast] at h
    obtain ⟨m, hnear, hint, hsafe⟩ := toInt?_scaled_down hx h.1 h.2
    refine ⟨_, m * 10 ^ k, rfl, ?_, ?_⟩
    · exact Number.isCanonical_float_iff.mpr (Double.toSafeInt?_eq_some_iff.mpr ⟨hint, hsafe⟩)
    · rw [if_neg (by omega), Int.natAbs_neg, Int.natAbs_natCast]
      exact ⟨m, rfl, hnear⟩
  · obtain ⟨k, rfl⟩ := Int.eq_ofNat_of_zero_le hnonneg
    rw [if_pos hnonneg, Int.natAbs_natCast] at h
    refine ⟨_, n, rfl, ?_, by rw [if_pos hnonneg]⟩
    have hint := toInt?_scaled_up hx (by omega) h.2
    exact Number.isCanonical_float_iff.mpr (Double.toSafeInt?_eq_some_iff.mpr ⟨hint, hv.2⟩)

-- An integer beyond the safe range is left as it is, whatever the places.
theorem round_big (hv : CountsAs v n) (hn : ¬IsSafe n) :
    round.call (v :: places) = .ok (.number (.big n)) := by
  obtain ⟨m, hm, hcanonical⟩ := hv
  cases m with
  | float x => exact absurd hcanonical.2.2 hn
  | big m =>
    obtain ⟨rfl, -⟩ := hcanonical
    simp [round, fixed, numberArgument_eq "round" hm]
    rfl

theorem roundsTo_big_iff (hv : CountsAs v n) (hn : ¬IsSafe n) :
    RoundsTo (round.call (v :: places)) n d ↔ 0 ≤ d ∨ 10 ^ d.natAbs ∣ n := by
  rw [round_big hv hn]
  constructor
  · rintro ⟨r, z, hr, hz, hrounded⟩
    obtain rfl : _ = r := Value.number.inj (Except.ok.inj hr)
    obtain rfl : n = z := hz.1
    unfold IsRounded at hrounded
    split at hrounded
    · next hd => exact .inl hd
    · obtain ⟨m, hm, -⟩ := hrounded
      exact .inr ⟨m, by rw [hm, mul_comm]⟩
  · intro h
    refine ⟨_, n, rfl, ⟨rfl, hn⟩, ?_⟩
    unfold IsRounded
    split
    · rfl
    · next hd =>
      obtain ⟨m, hm⟩ := h.resolve_left hd
      refine ⟨m, by rw [hm, mul_comm], ?_⟩
      have hquotient : (n / 10 ^ d.natAbs : ℚ) = m := by
        rw [hm]
        push_cast
        field_simp
      rw [hquotient]
      exact Double.isNearestInt_intCast m

-- Places beyond those that a power of ten has a double for make every integer NaN.
theorem round_extreme (hv : IsBound v n) (hplaces : Places places d) (hd : IsSafe d)
    (hextreme : 309 ≤ d ∨ d ≤ -324) :
    round.call (v :: places) = .ok (.number (.float .nan)) := by
  obtain ⟨x, y, hx, hy, hcall⟩ := round_double hv hplaces hd
  obtain ⟨hinfinite, hzero⟩ := Double.decimal_extreme hy (Double.isSafe_iff.mp hd)
  rw [hcall, roundTo_eq x hy, Double.roundEven_mul_div_extreme (Double.toInt?_eq_some_iff.mp hx).1
    (hextreme.imp hinfinite hzero)]

-- Places beyond the safe range are refused.
theorem round_refused (hv : IsBound v n) {w : Value} (hw : CountsAs w d) (hd : ¬IsSafe d) :
    round.call [v, w] = .error (.integerTooLarge "round" d) := by
  obtain ⟨⟨m, hm, hcanonical⟩, hsafe⟩ := hv
  obtain ⟨x, rfl⟩ := hcanonical.isSafe_iff.mp hsafe
  obtain ⟨k, hk, hkcanonical⟩ := hw
  cases k with
  | float y => exact absurd hkcanonical.2.2 hd
  | big k =>
    obtain ⟨rfl, -⟩ := hkcanonical
    simp [round, fixed, integerArgument, numberArgument_eq "round" hm, numberArgument_eq "round" hk]
    rfl

theorem countsAs_ofInt (z : ℤ) : CountsAs (.number (.ofInt z)) z :=
  ⟨_, rfl, Number.isCanonical_ofInt z⟩

-- Up to 22 places on either side the result is a number.
theorem round_isFinite (hv : IsBound v n) (hplaces : Places places d) (hd : |d| ≤ 22) :
    ∃ r : Double, round.call (v :: places) = .ok (.number (.float r)) ∧ r.isFinite = true := by
  rw [abs_le] at hd
  have hsafe : IsSafe d := by
    simp only [IsSafe, Double.maxSafe]
    omega
  obtain ⟨x, y, hx, hy, hcall⟩ := round_double hv hplaces hsafe
  refine ⟨_, hcall, ?_⟩
  rw [roundTo_eq x hy]
  rcases lt_or_ge d 0 with hneg | hnonneg
  · obtain ⟨k, rfl⟩ : ∃ k : ℕ, d = -k := ⟨d.natAbs, by omega⟩
    obtain ⟨hf, hlow, hhigh, -⟩ := Double.decimal_down (show k ≤ 22 by omega)
    exact Double.isFinite_roundEven_mul_div hx (Double.isSafe_iff.mp hv.2) hf hlow
      (hhigh.trans (by norm_num))
  · obtain ⟨k, rfl⟩ := Int.eq_ofNat_of_zero_le hnonneg
    have hk : k ≤ 22 := by omega
    obtain ⟨hf, hvalue⟩ := Double.toInt?_eq_some_iff.mp (Double.toInt?_decimal_up ⟨k, by omega⟩)
    have hone : (1 : ℚ) ≤ 10 ^ k := one_le_pow₀ (by norm_num)
    have hmax : (10 : ℚ) ^ k ≤ 10 ^ 22 := pow_le_pow_right₀ (by norm_num) hk
    push_cast at hvalue
    apply Double.isFinite_roundEven_mul_div hx (Double.isSafe_iff.mp hv.2) hf
    · rw [hvalue]
      linarith
    · rw [hvalue]
      linarith

-- Rounding is right where scaling is. A big integer is left as it is, which is right only if it is a
-- multiple. Up to 22 places the result is a number, and extreme places make NaN of every integer.
theorem round_spec (hv : CountsAs v n) (hplaces : Places places d) :
    (¬IsSafe n → round.call (v :: places) = .ok (.number (.big n)) ∧
      (RoundsTo (round.call (v :: places)) n d ↔ 0 ≤ d ∨ 10 ^ d.natAbs ∣ n)) ∧
    (IsSafe n → (Scales n d → RoundsTo (round.call (v :: places)) n d) ∧
      (|d| ≤ 22 → ∃ r : Double,
        round.call (v :: places) = .ok (.number (.float r)) ∧ r.isFinite = true) ∧
      (IsSafe d → 309 ≤ d ∨ d ≤ -324 →
        round.call (v :: places) = .ok (.number (.float .nan))) ∧
      (¬IsSafe d → round.call (v :: places) = .error (.integerTooLarge "round" d))) := by
  refine ⟨fun hn => ⟨round_big hv hn, roundsTo_big_iff hv hn⟩, fun hn => ?_⟩
  have hbound : IsBound v n := ⟨hv, hn⟩
  refine ⟨roundsTo_of_scales hbound hplaces, round_isFinite hbound hplaces,
    round_extreme hbound hplaces, fun hd => ?_⟩
  cases hplaces with
  | none => exact absurd (by decide) hd
  | given hw => exact round_refused hbound hw hd

-- Twenty is nearest to 25, the other neighbour being odd as a multiple. An integer beyond the safe
-- range is not rounded, and 400 places leave nothing of five.
theorem round_spec_forms :
    RoundsTo (round.call [.number (.ofInt 25), .number (.ofInt (-1))]) 25 (-1) ∧
    (∃ r : Double, round.call [.number (.ofInt 9007199254740991), .number (.ofInt 22)] =
      .ok (.number (.float r)) ∧ r.isFinite = true) ∧
    ¬RoundsTo (round.call [.number (.ofInt 9007199254740993), .number (.ofInt (-1))])
      9007199254740993 (-1) ∧
    round.call [.number (.ofInt 5), .number (.ofInt 400)] = .ok (.number (.float .nan)) := by
  have hplaces (d : ℤ) : Places [.number (.ofInt d)] d := .given (countsAs_ofInt d)
  have hdown := round_spec (countsAs_ofInt 25) (hplaces (-1))
  have hup := round_spec (countsAs_ofInt 9007199254740991) (hplaces 22)
  have hbig := round_spec (countsAs_ofInt 9007199254740993) (hplaces (-1))
  have hextreme := round_spec (countsAs_ofInt 5) (hplaces 400)
  refine ⟨(hdown.2 (by decide)).1 ?_, (hup.2 (by decide)).2.1 (by decide), fun h => ?_,
    (hextreme.2 (by decide)).2.2.1 (by decide) (by decide)⟩
  · simp only [Scales]
    decide
  · exact absurd (((hbig.1 (by decide)).2).mp h) (by decide)

-- The integer that a result is, if it is one in canonical form.
def exactResult? : Except Fault Value → Option ℤ
  | .ok (.number r) => r.toExact?
  | _ => none

theorem RoundsTo.exactResult? {result : Except Fault Value} (h : RoundsTo result n d) :
    ∃ z, exactResult? result = some z ∧ IsRounded n d z := by
  obtain ⟨r, z, rfl, hz, hrounded⟩ := h
  exact ⟨z, hz.toExact?_eq, hrounded⟩

-- One place after the point takes one off the largest safe integer.
theorem round_not_exact :
    ¬∀ (v : Value) (places : List Value) (n d : ℤ), CountsAs v n → Places places d →
      RoundsTo (round.call (v :: places)) n d := by
  intro h
  obtain ⟨z, hz, hrounded⟩ := (h _ _ _ _ (countsAs_ofInt 9007199254740991)
    (.given (countsAs_ofInt 1))).exactResult?
  have hresult : Function.exactResult? (round.call [.number (.ofInt 9007199254740991),
      .number (.ofInt 1)]) = some 9007199254740990 := by decide +kernel
  obtain rfl : (9007199254740990 : ℤ) = z := Option.some.inj (hresult.symm.trans hz)
  rw [IsRounded, if_pos (by decide)] at hrounded
  exact absurd hrounded (by decide)

-- For each of the places that are left out, a multiple of the power of ten that comes back with a
-- fraction.
def lostMultiples : List (ℕ × ℤ) :=
  [(4, 30000), (5, 100000), (9, 1000000000), (11, 2100000000000), (15, 1000000000000000)]

theorem exactResult?_lost : ∀ p ∈ lostMultiples, |p.2| ≤ 5 * 10 ^ 15 ∧
    Function.exactResult?
      (round.call [.number (.ofInt p.2), .number (.ofInt (-(p.1 : ℕ)))]) = none := by
  decide +kernel

-- Before the point, for integers of moderate size, rounding is right just for these places.
theorem roundsTo_before_iff {k : ℕ} (hk : 0 < k) (hk' : k ≤ 22) :
    (∀ n : ℤ, |n| ≤ 5 * 10 ^ 15 →
      RoundsTo (round.call [.number (.ofInt n), .number (.ofInt (-k))]) n (-k)) ↔
      k ∈ closePlaces ∨ 16 ≤ k := by
  constructor
  · intro h
    by_contra hfar
    obtain ⟨p, hp, rfl⟩ : ∃ p ∈ lostMultiples, p.1 = k := by
      simp only [lostMultiples, closePlaces, List.mem_cons, List.not_mem_nil, or_false,
        exists_eq_or_imp, exists_eq_left] at hfar ⊢
      omega
    obtain ⟨hn, hnone⟩ := exactResult?_lost p hp
    obtain ⟨z, hz, -⟩ := (h p.2 hn).exactResult?
    rw [hnone] at hz
    cases hz
  · intro h n hn
    have hsafe : IsSafe n := by
      rw [Double.isSafe_iff]
      exact hn.trans_lt (by norm_num)
    refine roundsTo_of_scales ⟨countsAs_ofInt n, hsafe⟩ (.given (countsAs_ofInt _)) ?_
    rw [Scales, if_neg (by omega), Int.natAbs_neg, Int.natAbs_natCast]
    exact ⟨hn, h.imp_right fun hlarge => ⟨hlarge, hk'⟩⟩

end Function

end RecordQuery
