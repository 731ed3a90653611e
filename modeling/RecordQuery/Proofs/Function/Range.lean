import RecordQuery.Function.Sequence
import RecordQuery.Proofs.Double.Quotient
import RecordQuery.Proofs.Function.Reduction

/-!
Ranges. The number of terms is a rounded quotient of a rounded difference, and a term is computed from
a rounded product. All of this is exact for bounds that are at most 2^53 apart; further apart a term
can be missing, be too many or be off by one.
-/

namespace RecordQuery.Function

open Double (IsSafe rounded stepsTo)

variable {a b c : ℤ}

-- A value that counts as a safe integer.
def IsBound (v : Value) (z : ℤ) : Prop := CountsAs v z ∧ IsSafe z

-- The terms that arguments ask for: from `a` up to before `b` in steps of `c`.
inductive Spans : List Value → ℤ → ℤ → ℤ → Prop
  | upTo {v : Value} {b : ℤ} (hv : IsBound v b) : Spans [v] 0 b 1
  | between {u v : Value} {a b : ℤ} (hu : IsBound u a) (hv : IsBound v b) : Spans [u, v] a b 1
  | stepping {u v w : Value} {a b c : ℤ} (hu : IsBound u a) (hv : IsBound v b) (hw : IsBound w c) :
    Spans [u, v, w] a b c

theorem integerArgument_eq (name : Text) {v : Value} {z : ℤ} (hv : IsBound v z) :
    ∃ x, integerArgument name (some v) = .ok x ∧ x.toInt? = some z := by
  obtain ⟨⟨n, hn, hcanonical⟩, hsafe⟩ := hv
  obtain ⟨x, rfl⟩ := hcanonical.isSafe_iff.mp hsafe
  have hint := (Number.toInt?_of_toSafeInt? (Number.isCanonical_float_iff.mp hcanonical)).1
  refine ⟨x, ?_, hint⟩
  rw [integerArgument, numberArgument_eq name hn]
  change (if x.toInt?.isSome then Except.ok x else _) = _
  rw [hint, Option.isSome_some, if_pos rfl]

-- A call goes by the doubles that its arguments are.
theorem Spans.exists_rangeOf {args : List Value} (h : Spans args a b c) :
    ∃ x y s : Double, x.toInt? = some a ∧ y.toInt? = some b ∧ s.toInt? = some c ∧
      (IsSafe a ∧ IsSafe b ∧ IsSafe c) ∧ range.call args = rangeOf x y s := by
  have hzero : (Double.zero false).toInt? = some 0 := rfl
  have hone : (Double.ofNat 1).toInt? = some 1 := rfl
  cases h with
  | upTo hv =>
    obtain ⟨y, hy, hint⟩ := integerArgument_eq "range" hv
    refine ⟨_, y, _, hzero, hint, hone, ⟨by decide, hv.2, by decide⟩, ?_⟩
    simp [range, fixed, hy]
    rfl
  | between hu hv =>
    obtain ⟨x, hx, hint⟩ := integerArgument_eq "range" hu
    obtain ⟨y, hy, hint'⟩ := integerArgument_eq "range" hv
    refine ⟨x, y, _, hint, hint', hone, ⟨hu.2, hv.2, by decide⟩, ?_⟩
    simp [range, fixed, hx, hy]
    rfl
  | stepping hu hv hw =>
    obtain ⟨x, hx, hint⟩ := integerArgument_eq "range" hu
    obtain ⟨y, hy, hint'⟩ := integerArgument_eq "range" hv
    obtain ⟨s, hs, hint''⟩ := integerArgument_eq "range" hw
    refine ⟨x, y, s, hint, hint', hint'', ⟨hu.2, hv.2, hw.2⟩, ?_⟩
    simp [range, fixed, hx, hy, hs]
    rfl

-- The number of terms that doubles count: none if the step leads away from the end, or else the steps
-- to the rounded distance.
def countedTerms (a b c : ℤ) : ℕ :=
  if 0 < (b - a) * c then stepsTo (rounded (b - a)).natAbs c.natAbs else 0

theorem abs_sub_le (ha : IsSafe a) (hb : IsSafe b) : |b - a| ≤ 2 ^ 54 - 2 := by
  rw [abs_le]
  simp only [IsSafe, Double.maxSafe] at ha hb
  omega

theorem toInt?_sub {x y : Double} (hx : x.toInt? = some a) (hy : y.toInt? = some b)
    (ha : IsSafe a) (hb : IsSafe b) : (y - x).toInt? = some (rounded (b - a)) := by
  rw [Double.sub_of_toInt? hy hx]
  exact Double.toInt?_ofScaled_rounded _ ((abs_sub_le ha hb).trans_lt (by norm_num))

theorem toInt?_rangeLength {x y s : Double} (hx : x.toInt? = some a) (hy : y.toInt? = some b)
    (hs : s.toInt? = some c) (ha : IsSafe a) (hb : IsSafe b) (hc : IsSafe c) (hc0 : c ≠ 0) :
    (rangeLength x y s).toInt? = some (countedTerms a b c : ℤ) := by
  obtain ⟨hmove, heven⟩ := Double.rounded_bounds (b - a)
  have hdistance := abs_le.mp (abs_sub_le ha hb)
  obtain ⟨hf, hceil⟩ := Double.ceil_div (toInt?_sub hx hy ha hb) hs
    (by rw [abs_lt]; omega) (by rw [lt_abs]; omega) (Double.isSafe_iff.mp hc) hc0
  have hsame : 0 < rounded (b - a) * c ↔ 0 < (b - a) * c := by
    rw [mul_pos_iff, mul_pos_iff, Double.rounded_pos_iff, Double.rounded_neg_iff]
  simp only [hsame] at hceil
  have hsteps := Double.toInt?_ceil hf
  obtain ⟨hfinite, hvalue⟩ := Double.toInt?_eq_some_iff.mp hsteps
  have hcount : (countedTerms a b c : ℤ) =
      if 0 < ⌈((y - x) / s).value⌉ then ⌈((y - x) / s).value⌉ else 0 := by
    rw [countedTerms]
    split at hceil <;> split <;> omega
  have hlt : Double.lt (Double.zero false) ((y - x) / s).ceil = true ↔
      0 < ⌈((y - x) / s).value⌉ := by
    rw [Double.lt_eq_decide rfl hfinite, Double.value_zero, hvalue, decide_eq_true_iff, Int.cast_pos]
  simp only [rangeLength, hlt]
  split
  · next hpos => rw [hsteps, hcount, if_pos hpos]
  · next hpos =>
    rw [hcount, if_neg hpos]
    rfl

-- The rounded product stays within the rounded distance, so that no term leaves the range in which
-- sums are exact.
theorem term_bounds (ha : IsSafe a) (hb : IsSafe b) {i : ℕ} (hi : i < countedTerms a b c) :
    |(i * c : ℤ)| < 2 ^ 54 ∧ |a + rounded (i * c)| ≤ 2 ^ 53 := by
  obtain ⟨hmove, heven⟩ := Double.rounded_bounds (b - a)
  have hdistance := abs_le.mp (abs_sub_le ha hb)
  have hsame : 0 < (b - a) * c := by
    by_contra hnot
    rw [countedTerms, if_neg hnot] at hi
    omega
  rw [countedTerms, if_pos hsame] at hi
  have hle : (i * c : ℤ).natAbs ≤ (rounded (b - a)).natAbs := by
    rw [Int.natAbs_mul, Int.natAbs_natCast]
    exact Double.mul_le_of_lt_stepsTo hi
  simp only [IsSafe, Double.maxSafe] at ha hb
  rw [abs_lt, abs_le]
  rcases mul_pos_iff.mp hsame with ⟨hup, hc⟩ | ⟨hdown, hc⟩
  · have hproduct : 0 ≤ (i * c : ℤ) := by positivity
    have hrounded := Double.rounded_le (m := rounded (b - a)) (by omega) hproduct (by omega)
    omega
  · have hproduct : 0 ≤ -(i * c : ℤ) := by
      rw [← mul_neg]
      exact mul_nonneg (by omega) (by omega)
    have hrounded := Double.rounded_le (m := -rounded (b - a)) (by omega) hproduct (by omega)
    rw [Double.rounded_neg] at hrounded
    omega

-- A term is the start and the rounded product.
theorem toInt?_term {x s : Double} (hx : x.toInt? = some a) (hs : s.toInt? = some c)
    (ha : IsSafe a) (hb : IsSafe b) {i : ℕ} (hi : i < countedTerms a b c) (hlimit : i < 2 ^ 53) :
    (x + Double.ofNat i * s).toInt? = some (a + rounded (i * c)) := by
  obtain ⟨hproduct, hsum⟩ := term_bounds ha hb hi
  have hcount : (Double.ofNat i).toInt? = some (i : ℤ) := by
    have hint := Double.toInt?_ofScaled false (n := i) (by rw [Nat.abs_cast]; omega)
    rwa [← Double.ofInt, Double.ofInt_natCast, ← Double.ofNat_eq_ofRat] at hint
  have hmul : (Double.ofNat i * s).toInt? = some (rounded (i * c)) := by
    rw [Double.mul_of_toInt? hcount hs]
    exact Double.toInt?_ofScaled_rounded _ hproduct
  rw [Double.add_of_toInt? hx hmul]
  exact Double.toInt?_ofScaled _ hsum

-- The outcome of a range: a list of so many terms, or a failure if the limit is below that.
def HasTerms (result : Except Fault Value) (count : ℕ) (term : ℕ → ℤ) : Prop :=
  if count ≤ rangeLimit then
    ∃ items, result = .ok (.list items) ∧ items.length = count ∧
      ∀ i v, items[i]? = some v → ∃ n : Number, v = .number n ∧ n.IsInteger (term i)
  else ∃ fault, result = .error fault

theorem rangeOf_hasTerms {x y s : Double} (hx : x.toInt? = some a) (hy : y.toInt? = some b)
    (hs : s.toInt? = some c) (ha : IsSafe a) (hb : IsSafe b) (hc : IsSafe c) (hc0 : c ≠ 0) :
    HasTerms (rangeOf x y s) (countedTerms a b c) fun i => a + rounded (i * c) := by
  have hlength := toInt?_rangeLength hx hy hs ha hb hc hc0
  obtain ⟨hfinite, hvalue⟩ := Double.toInt?_eq_some_iff.mp hlength
  obtain ⟨hfinite', hvalue'⟩ := Double.toInt?_eq_some_iff.mp
    (show (Double.ofNat rangeLimit).toInt? = some (rangeLimit : ℤ) from rfl)
  have hzero : s.isZero = false := by
    obtain ⟨hfinite, hvalue⟩ := Double.toInt?_eq_some_iff.mp hs
    rw [Bool.eq_false_iff, ne_eq, Double.isZero_iff hfinite, hvalue]
    exact_mod_cast hc0
  have hlimit : Double.lt (Double.ofNat rangeLimit) (rangeLength x y s) = true ↔
      ¬countedTerms a b c ≤ rangeLimit := by
    rw [Double.lt_eq_decide hfinite' hfinite, hvalue, hvalue', decide_eq_true_iff, not_le]
    norm_cast
  rw [HasTerms, rangeOf, hzero, if_neg Bool.false_ne_true]
  simp only [hlimit, hlength, Option.getD_some, Int.toNat_natCast]
  by_cases hcount : countedTerms a b c ≤ rangeLimit
  · rw [if_pos hcount, if_neg (not_not.mpr hcount)]
    refine ⟨_, rfl, by rw [List.length_map, List.length_range], fun i v hi => ?_⟩
    rw [List.getElem?_map, Option.map_eq_some_iff] at hi
    obtain ⟨j, hj, rfl⟩ := hi
    obtain ⟨hlt, hget⟩ := List.getElem?_eq_some_iff.mp hj
    rw [List.getElem_range] at hget
    subst hget
    rw [List.length_range] at hlt
    have hsmall : rangeLimit < 2 ^ 53 := by decide
    exact ⟨_, rfl, toInt?_term hx hs ha hb hlt (hlt.trans_le (hcount.trans hsmall.le))⟩
  · rw [if_neg hcount, if_pos hcount]
    exact ⟨_, rfl⟩

-- Two accounts of one outcome have the same terms, or both have too many.
theorem HasTerms.iff_of_hasTerms {result : Except Fault Value} {m n : ℕ} {f g : ℕ → ℤ}
    (h : HasTerms result m f) :
    HasTerms result n g ↔
      if n ≤ rangeLimit then m = n ∧ ∀ i < n, f i = g i else rangeLimit < m := by
  unfold HasTerms at h ⊢
  by_cases hm : m ≤ rangeLimit
  · rw [if_pos hm] at h
    obtain ⟨items, rfl, rfl, hitems⟩ := h
    by_cases hn : n ≤ rangeLimit
    · rw [if_pos hn, if_pos hn]
      constructor
      · rintro ⟨items', heq, rfl, hitems'⟩
        obtain rfl : items = items' := Value.list.inj (Except.ok.inj heq)
        refine ⟨rfl, fun i hi => ?_⟩
        obtain ⟨r, hr, hri⟩ := hitems i _ (List.getElem?_eq_getElem hi)
        obtain ⟨r', hr', hri'⟩ := hitems' i _ (List.getElem?_eq_getElem hi)
        obtain rfl : r = r' := Value.number.inj (hr.symm.trans hr')
        exact hri.unique hri'
      · rintro ⟨rfl, hsame⟩
        refine ⟨items, rfl, rfl, fun i v hv => ?_⟩
        rw [← hsame i (List.getElem?_eq_some_iff.mp hv).1]
        exact hitems i v hv
    · rw [if_neg hn, if_neg hn]
      refine iff_of_false ?_ (not_lt.mpr hm)
      rintro ⟨fault, heq⟩
      cases heq
  · rw [if_neg hm] at h
    obtain ⟨fault, rfl⟩ := h
    by_cases hn : n ≤ rangeLimit
    · rw [if_pos hn, if_pos hn]
      refine iff_of_false ?_ fun hsame => hm (hsame.1 ▸ hn)
      rintro ⟨items, heq, -⟩
      cases heq
    · rw [if_neg hn, if_neg hn]
      exact iff_of_true ⟨fault, rfl⟩ (not_le.mp hm)

-- The exact number of terms.
def termCount (a b c : ℤ) : ℕ := ⌈((b - a : ℤ) / c : ℚ)⌉₊

-- They are the terms strictly before the end, in the direction of the step.
theorem lt_termCount_iff (hc0 : c ≠ 0) {i : ℕ} :
    i < termCount a b c ↔ if 0 < c then a + i * c < b else b < a + i * c := by
  rw [termCount, Nat.lt_ceil]
  split
  · next hpos =>
    have hc : (0 : ℚ) < c := by exact_mod_cast hpos
    rw [lt_div_iff₀ hc, ← lt_sub_iff_add_lt']
    exact_mod_cast Iff.rfl
  · next hneg =>
    have hc : (c : ℚ) < 0 := by exact_mod_cast lt_of_le_of_ne (not_lt.mp hneg) hc0
    rw [lt_div_iff_of_neg hc, ← sub_lt_iff_lt_add']
    exact_mod_cast Iff.rfl

-- Doubles count the terms, and none of the products is rounded.
def CountsExactly (a b c : ℤ) : Prop :=
  if termCount a b c ≤ rangeLimit then
    countedTerms a b c = termCount a b c ∧ ∀ i < termCount a b c, rounded (i * c) = i * c
  else rangeLimit < countedTerms a b c

-- Bounds that are at most 2^53 apart have an exact distance, and no product is larger.
theorem lt_countedTerms_iff (hc : IsSafe c) (hc0 : c ≠ 0) (h : |b - a| ≤ 2 ^ 53) {i : ℕ} :
    i < countedTerms a b c ↔ 0 < (b - a) * c ∧ (i * c : ℤ).natAbs < (b - a).natAbs := by
  have hstep : c.natAbs < 2 ^ 53 := by
    simp only [IsSafe, Double.maxSafe] at hc
    omega
  rw [countedTerms, Double.rounded_of_abs_le h, Int.natAbs_mul, Int.natAbs_natCast]
  split
  · next hsame =>
    rw [and_iff_right hsame]
    apply Double.lt_stepsTo_iff (Int.natAbs_pos.mpr hc0) hstep
    rw [Int.abs_eq_natAbs] at h
    omega
  · next hopposite => exact iff_of_false (Nat.not_lt_zero i) fun hi => hopposite hi.1

theorem countsExactly_of_abs_sub_le (hc : IsSafe c) (hc0 : c ≠ 0) (h : |b - a| ≤ 2 ^ 53) :
    CountsExactly a b c := by
  have hcount : countedTerms a b c = termCount a b c := by
    refine eq_of_forall_lt_iff fun i => ?_
    rw [lt_countedTerms_iff hc hc0 h, lt_termCount_iff hc0, mul_pos_iff]
    split
    · next hpos =>
      have hproduct : 0 ≤ (i * c : ℤ) := by positivity
      omega
    · next hneg =>
      have hproduct : (i * c : ℤ) ≤ 0 := mul_nonpos_of_nonneg_of_nonpos (by omega) (not_lt.mp hneg)
      omega
  unfold CountsExactly
  split
  · refine ⟨hcount, fun i hi => Double.rounded_of_abs_le ?_⟩
    rw [← hcount, lt_countedTerms_iff hc hc0 h] at hi
    rw [Int.abs_eq_natAbs] at h ⊢
    omega
  · next hlimit => rwa [hcount, ← not_le]

theorem range_hasTerms {args : List Value} (h : Spans args a b c) (hc0 : c ≠ 0) :
    HasTerms (range.call args) (countedTerms a b c) fun i => a + rounded (i * c) := by
  obtain ⟨x, y, s, hx, hy, hs, ⟨ha, hb, hc⟩, hcall⟩ := h.exists_rangeOf
  rw [hcall]
  exact rangeOf_hasTerms hx hy hs ha hb hc hc0

theorem range_hasTerms_iff {args : List Value} (h : Spans args a b c) (hc0 : c ≠ 0) :
    HasTerms (range.call args) (termCount a b c) (fun i => a + i * c) ↔ CountsExactly a b c := by
  rw [(range_hasTerms h hc0).iff_of_hasTerms, CountsExactly]
  simp only [add_right_inj]

-- A call gives the counted terms, with the rounded products in them, or fails if these are too many.
-- So it is exact if doubles count the terms and round no product, as for all bounds that are at most
-- 2^53 apart.
theorem range_exact_iff {args : List Value} (h : Spans args a b c) (hc0 : c ≠ 0) :
    HasTerms (range.call args) (countedTerms a b c) (fun i => a + rounded (i * c)) ∧
      (HasTerms (range.call args) (termCount a b c) (fun i => a + i * c) ↔ CountsExactly a b c) ∧
      (|b - a| ≤ 2 ^ 53 → CountsExactly a b c) := by
  obtain ⟨-, -, s, -, -, -, ⟨-, -, hc⟩, -⟩ := h.exists_rangeOf
  exact ⟨range_hasTerms h hc0, range_hasTerms_iff h hc0, countsExactly_of_abs_sub_le hc hc0⟩

theorem isBound_ofInt {z : ℤ} (hz : IsSafe z) : IsBound (.number (.ofInt z)) z :=
  ⟨⟨_, rfl, Number.isCanonical_ofInt z⟩, hz⟩

theorem spans_ofInt (ha : IsSafe a) (hb : IsSafe b) (hc : IsSafe c) :
    Spans [.number (.ofInt a), .number (.ofInt b), .number (.ofInt c)] a b c :=
  .stepping (isBound_ofInt ha) (isBound_ofInt hb) (isBound_ofInt hc)

-- The distance 2^54 - 3 is rounded to 2^54 - 4, which is four times the step.
theorem not_countsExactly_far :
    ¬CountsExactly (-9007199254740991) 9007199254740990 4503599627370495 := by
  have hcounted : countedTerms (-9007199254740991) 9007199254740990 4503599627370495 = 4 := rfl
  have hterms : 4 < termCount (-9007199254740991) 9007199254740990 4503599627370495 :=
    (lt_termCount_iff (by decide)).mpr (by decide)
  rw [CountsExactly, hcounted]
  split
  · exact fun hexact => hterms.ne hexact.1
  · decide

-- Bounds that are near each other, and bounds at both ends of the safe range.
theorem range_exact_iff_near_far :
    HasTerms (range.call [.number (.ofInt 10), .number (.ofInt 0), .number (.ofInt (-3))])
      (termCount 10 0 (-3)) (fun i => 10 + i * (-3)) ∧
    HasTerms (range.call [.number (.ofInt (-9007199254740991)), .number (.ofInt 9007199254740990),
        .number (.ofInt 4503599627370495)])
      (countedTerms (-9007199254740991) 9007199254740990 4503599627370495)
      (fun i => -9007199254740991 + rounded (i * 4503599627370495)) := by
  have hnear := range_exact_iff (spans_ofInt (a := 10) (b := 0) (c := -3) (by decide) (by decide)
    (by decide)) (by decide)
  have hfar := range_exact_iff (spans_ofInt (a := -9007199254740991) (b := 9007199254740990)
    (c := 4503599627370495) (by decide) (by decide) (by decide)) (by decide)
  exact ⟨hnear.2.1.mpr (hnear.2.2 (by decide)), hfar.1⟩

-- The last term before the end is missing.
theorem range_not_exact :
    ¬∀ (args : List Value) (a b c : ℤ), Spans args a b c → c ≠ 0 →
      HasTerms (range.call args) (termCount a b c) fun i => a + i * c := by
  intro h
  have hspans := spans_ofInt (a := -9007199254740991) (b := 9007199254740990)
    (c := 4503599627370495) (by decide) (by decide) (by decide)
  exact not_countsExactly_far ((range_hasTerms_iff hspans (by decide)).mp
    (h _ _ _ _ hspans (by decide)))

end RecordQuery.Function
