import RecordQuery.Number.Arithmetic
import RecordQuery.Proofs.Double.Integer

/-!
Arithmetic on integers. Sums, differences, products and floored quotients of canonical integers are
exact and canonical again, whether doubles or integers compute them. A remainder is exact unless
doubles compute it from a multiple of the divisor that has no double.
-/

namespace RecordQuery.Number

open Double (IsSafe)

def isFinite : Number → Bool
  | .float x => x.isFinite
  | .big _ => true

-- `n` is the integer `z` in the form that the data model gives it: a double within the safe range, an
-- exact integer beyond. Zero may have either sign.
def IsCanonical (n : Number) (z : ℤ) : Prop :=
  match n with
  | .float x => x.isFinite = true ∧ x.value = z ∧ IsSafe z
  | .big m => m = z ∧ ¬IsSafe z

theorem isCanonical_float_iff {x : Double} {z : ℤ} :
    (float x).IsCanonical z ↔ x.toSafeInt? = some z := by
  rw [Double.toSafeInt?_eq_some_iff, Double.toInt?_eq_some_iff, and_assoc]
  exact Iff.rfl

theorem IsCanonical.toExact?_eq {n : Number} {z : ℤ} (h : n.IsCanonical z) :
    n.toExact? = some z := by
  cases n with
  | float x => exact isCanonical_float_iff.mp h
  | big m => exact congrArg some h.1

theorem IsCanonical.unique {n : Number} {z z' : ℤ} (h : n.IsCanonical z) (h' : n.IsCanonical z') :
    z = z' :=
  Option.some.inj (h.toExact?_eq.symm.trans h'.toExact?_eq)

-- The form tells on which side of the safe range an integer lies.
theorem IsCanonical.isSafe_iff {n : Number} {z : ℤ} (h : n.IsCanonical z) :
    IsSafe z ↔ ∃ x, n = .float x := by
  cases n with
  | float x => exact iff_of_true h.2.2 ⟨x, rfl⟩
  | big m => exact iff_of_false h.2 (by rintro ⟨x, hx⟩; cases hx)

theorem isCanonical_ofInt (z : ℤ) : (ofInt z).IsCanonical z := by
  unfold ofInt
  split
  · next h =>
    have hz : |z| ≤ 2 ^ 53 := (Double.isSafe_iff.mp h).le
    obtain ⟨hf, hv⟩ := Double.toInt?_eq_some_iff.mp (Double.toInt?_ofScaled false hz)
    exact ⟨hf, hv, h⟩
  · next h => exact ⟨rfl, h⟩

theorem IsCanonical.ofInt_natAbs {n : Number} {z : ℤ} (h : n.IsCanonical z) :
    ofInt z.natAbs = n.abs := by
  have hsafe : IsSafe z.natAbs ↔ IsSafe z := by
    simp only [Double.isSafe_iff, Int.natCast_natAbs, abs_abs]
  cases n with
  | float x =>
    obtain ⟨hint, hz⟩ := Double.toSafeInt?_eq_some_iff.mp (isCanonical_float_iff.mp h)
    refine (if_pos (hsafe.mpr hz)).trans ?_
    rw [Double.ofInt_natAbs hint]
    rfl
  | big m =>
    obtain ⟨rfl, hz⟩ := h
    exact if_neg fun hm => hz (hsafe.mp hm)

-- A quotient is the floored one if what it leaves lies between zero and the divisor.
theorem floor_div_eq_iff {x y q : ℤ} (hy : y ≠ 0) :
    ⌊(x / y : ℚ)⌋ = q ↔
      (0 ≤ x - q * y ∧ x - q * y < y) ∨ (y < x - q * y ∧ x - q * y ≤ 0) := by
  rw [Int.floor_eq_iff]
  rcases lt_or_gt_of_ne hy with hneg | hpos
  · have hneg' : (y : ℚ) < 0 := by exact_mod_cast hneg
    rw [le_div_iff_of_neg hneg', div_lt_iff_of_neg hneg']
    norm_cast
    rw [add_mul]
    omega
  · have hpos' : (0 : ℚ) < y := by exact_mod_cast hpos
    rw [le_div_iff₀ hpos', div_lt_iff₀ hpos']
    norm_cast
    rw [add_mul]
    omega

-- The quotient that drops the fraction, corrected where the signs differ, is the floored one.
theorem onInts_quotient (x : ℤ) {y : ℤ} (hy : y ≠ 0) :
    Operation.quotient.onInts x y = ⌊(x / y : ℚ)⌋ := by
  have hdiv := Int.mul_tdiv_add_tmod x y
  have hlt : (x.tmod y).natAbs < y.natAbs := by
    rw [Int.natAbs_tmod]
    exact Nat.mod_lt _ (by omega)
  have hnonneg : 0 ≤ x → 0 ≤ x.tmod y := Int.tmod_nonneg y
  have hnonpos : x ≤ 0 → x.tmod y ≤ 0 := fun hx => by
    have h := Int.tmod_nonneg y (Int.neg_nonneg_of_nonpos hx)
    rw [Int.neg_tmod] at h
    omega
  symm
  rw [floor_div_eq_iff hy]
  simp only [Operation.onInts]
  split
  · next h =>
    have hrest : x - (x.tdiv y - 1) * y = x.tmod y + y := by linear_combination -hdiv
    rw [hrest]
    grind
  · next h =>
    have hrest : x - x.tdiv y * y = x.tmod y := by linear_combination -hdiv
    rw [hrest]
    grind

theorem onInts_remainder (x y : ℤ) :
    Operation.remainder.onInts x y = x - y * Operation.quotient.onInts x y := by
  have hdiv := Int.mul_tdiv_add_tmod x y
  simp only [Operation.onInts]
  split <;> linear_combination hdiv

-- Whatever computes it, the result is canonical and exact if every result of doubles that is accepted
-- is the exact one.
theorem apply_isCanonical (op : Operation) (hop : op ≠ .power) {a b : Number} {x y : ℤ}
    (ha : a.IsCanonical x) (hb : b.IsCanonical y)
    (h : ∀ d e z, d.toSafeInt? = some x → e.toSafeInt? = some y →
      (op.onDoubles d e).toSafeInt? = some z → z = op.onInts x y) :
    (op.apply a b).IsCanonical (op.onInts x y) := by
  simp only [Operation.apply, ha.toExact?_eq, hb.toExact?_eq, hop, false_and, if_false]
  split
  · next haccepted =>
    obtain ⟨hfloats, hsome⟩ := Bool.and_eq_true_iff.mp haccepted
    obtain ⟨z, hz⟩ := Option.isSome_iff_exists.mp hsome
    cases a with
    | big m => cases hfloats
    | float d =>
      cases b with
      | big m => cases hfloats
      | float e =>
        obtain rfl := h d e z (isCanonical_float_iff.mp ha) (isCanonical_float_iff.mp hb) hz
        exact isCanonical_float_iff.mpr hz
  · exact isCanonical_ofInt _

theorem apply_float_isCanonical (op : Operation) (hop : op ≠ .power) {d e : Double} {x y z : ℤ}
    (hx : d.toSafeInt? = some x) (hy : e.toSafeInt? = some y)
    (hz : (op.onDoubles d e).toSafeInt? = some z) :
    (op.apply (.float d) (.float e)).IsCanonical z := by
  have hsome : (op.onDoubles d e).toSafeInt?.isSome = true := by rw [hz]; rfl
  simp only [Operation.apply, toDouble, toExact?, hx, hy, hop, false_and, if_false, areFloats,
    hsome, Bool.and_self, if_true]
  exact isCanonical_float_iff.mpr hz

theorem toInt?_of_toSafeInt? {d : Double} {x : ℤ} (h : d.toSafeInt? = some x) :
    d.toInt? = some x ∧ |x| < 2 ^ 53 :=
  ⟨(Double.toSafeInt?_eq_some_iff.mp h).1,
    Double.isSafe_iff.mp (Double.toSafeInt?_eq_some_iff.mp h).2⟩

theorem toInt?_onDoubles_quotient {d e : Double} {x y : ℤ} (hx : d.toSafeInt? = some x)
    (hy : e.toSafeInt? = some y) (hy0 : y ≠ 0) :
    (Operation.quotient.onDoubles d e).toInt? = some ⌊(x / y : ℚ)⌋ := by
  obtain ⟨hdx, hx53⟩ := toInt?_of_toSafeInt? hx
  obtain ⟨hey, hy53⟩ := toInt?_of_toSafeInt? hy
  exact Double.toInt?_floor_div hdx hey hx53 hy53 hy0

-- `n` is the integer `z`, as a double or, beyond the safe range, as it stands.
def IsInteger (n : Number) (z : ℤ) : Prop :=
  match n with
  | .float x => x.toInt? = some z
  | .big m => m = z ∧ ¬Double.IsSafe z

theorem IsCanonical.isInteger {n : Number} {z : ℤ} (h : n.IsCanonical z) : n.IsInteger z := by
  cases n with
  | float x => exact (toInt?_of_toSafeInt? (isCanonical_float_iff.mp h)).1
  | big m => exact h

theorem isInteger_ofInt (z : ℤ) : (ofInt z).IsInteger z := (isCanonical_ofInt z).isInteger

theorem IsInteger.unique {n : Number} {z z' : ℤ} (h : n.IsInteger z) (h' : n.IsInteger z') :
    z = z' := by
  cases n with
  | float x => exact Option.some.inj (h.symm.trans h')
  | big m => exact h.1.symm.trans h'.1

theorem add_isCanonical {a b : Number} {x y : ℤ} (ha : a.IsCanonical x) (hb : b.IsCanonical y) :
    (Operation.add.apply a b).IsCanonical (x + y) := by
  refine apply_isCanonical .add (by decide) ha hb fun d e z hx hy hz => ?_
  rw [Operation.onDoubles, Double.add_of_toInt? (toInt?_of_toSafeInt? hx).1
    (toInt?_of_toSafeInt? hy).1] at hz
  exact Double.eq_of_toSafeInt?_ofScaled hz

-- Sums, differences, products and floored quotients of canonical integers are exact and canonical.
theorem apply_exact {a b : Number} {x y : ℤ} (ha : a.IsCanonical x) (hb : b.IsCanonical y) :
    (Operation.add.apply a b).IsCanonical (x + y) ∧
      (Operation.sub.apply a b).IsCanonical (x - y) ∧
      (Operation.mul.apply a b).IsCanonical (x * y) ∧
      (y ≠ 0 → (Operation.quotient.apply a b).IsCanonical ⌊(x / y : ℚ)⌋) := by
  refine ⟨add_isCanonical ha hb, ?_, ?_, ?_⟩
  · refine apply_isCanonical .sub (by decide) ha hb fun d e z hx hy hz => ?_
    rw [Operation.onDoubles, Double.sub_of_toInt? (toInt?_of_toSafeInt? hx).1
      (toInt?_of_toSafeInt? hy).1] at hz
    exact Double.eq_of_toSafeInt?_ofScaled hz
  · refine apply_isCanonical .mul (by decide) ha hb fun d e z hx hy hz => ?_
    rw [Operation.onDoubles, Double.mul_of_toInt? (toInt?_of_toSafeInt? hx).1
      (toInt?_of_toSafeInt? hy).1] at hz
    exact Double.eq_of_toSafeInt?_ofScaled hz
  · intro hy0
    rw [← onInts_quotient x hy0]
    refine apply_isCanonical .quotient (by decide) ha hb fun d e z hx hy hz => ?_
    have hint := (Double.toSafeInt?_eq_some_iff.mp hz).1
    rw [toInt?_onDoubles_quotient hx hy hy0] at hint
    rw [onInts_quotient x hy0]
    exact (Option.some.inj hint).symm

-- The largest safe integer takes the path of doubles for the quotient and that of integers for the
-- product.
theorem apply_exact_maxSafe :
    (ofInt 9007199254740991).IsCanonical 9007199254740991 ∧ (ofInt (-3)).IsCanonical (-3) ∧
      (Operation.add.apply (ofInt 9007199254740991) (ofInt (-3))).IsCanonical 9007199254740988 ∧
      (Operation.sub.apply (ofInt 9007199254740991) (ofInt (-3))).IsCanonical 9007199254740994 ∧
      (Operation.mul.apply (ofInt 9007199254740991) (ofInt (-3))).IsCanonical
        (-27021597764222973) ∧
      (Operation.quotient.apply (ofInt 9007199254740991) (ofInt (-3))).IsCanonical
        (-3002399751580331) := by
  obtain ⟨hadd, hsub, hmul, hquot⟩ :=
    apply_exact (isCanonical_ofInt 9007199254740991) (isCanonical_ofInt (-3))
  have hfloor : ⌊((9007199254740991 : ℤ) / (-3 : ℤ) : ℚ)⌋ = -3002399751580331 :=
    (floor_div_eq_iff (by decide)).mpr (by decide)
  exact ⟨isCanonical_ofInt _, isCanonical_ofInt _, hadd, hsub, hmul, hfloor ▸ hquot (by decide)⟩

-- The other zero: an integer in canonical form that no integer has as its form.
def negativeZero : Number := .float (Double.zero true)

theorem isCanonical_negativeZero : negativeZero.IsCanonical 0 :=
  isCanonical_float_iff.mpr (by decide)

theorem ofInt_ne_negativeZero (z : ℤ) : ofInt z ≠ negativeZero := by
  intro h
  have hz : z = 0 := (isCanonical_ofInt z).unique (h ▸ isCanonical_negativeZero)
  subst hz
  exact absurd h (by decide)

theorem IsCanonical.eq_ofInt {n : Number} {z : ℤ} (h : n.IsCanonical z) (hn : n ≠ negativeZero) :
    n = ofInt z := by
  cases n with
  | big m =>
    obtain ⟨rfl, hz⟩ := h
    exact (if_neg hz).symm
  | float x =>
    obtain ⟨hint, hsafe⟩ := Double.toSafeInt?_eq_some_iff.mp (isCanonical_float_iff.mp h)
    have hx := Double.eq_ofScaled hint
    have hz : (ofInt z) = float (Double.ofScaled false z 0) := if_pos hsafe
    by_cases h0 : z = 0
    · subst h0
      cases hneg : x.isNegative with
      | false => rw [hz, hx, hneg]
      | true =>
        rw [hneg] at hx
        exact absurd (congrArg float hx) hn
    · rw [hz, hx, Double.ofScaled, Double.ofScaled, if_neg h0, if_neg h0]

-- A sum of two integers is computed on doubles, or is the canonical form of the exact one.
theorem add_apply_cases {a b : Number} {x y : ℤ} (ha : a.IsCanonical x) (hb : b.IsCanonical y) :
    Operation.add.apply a b = ofInt (x + y) ∨ ∃ d e, a = .float d ∧ b = .float e ∧
      Operation.add.apply a b = .float (Double.ofScaled (d.isNegative && e.isNegative) (x + y) 0) := by
  simp only [Operation.apply, ha.toExact?_eq, hb.toExact?_eq, reduceCtorEq, false_and, if_false]
  split
  · next haccepted =>
    cases a with
    | big m => cases haccepted
    | float d =>
      cases b with
      | big m => cases haccepted
      | float e =>
        have hd := (toInt?_of_toSafeInt? (isCanonical_float_iff.mp ha)).1
        have he := (toInt?_of_toSafeInt? (isCanonical_float_iff.mp hb)).1
        exact .inr ⟨d, e, rfl, rfl, congrArg float (Double.add_of_toInt? hd he)⟩
  · exact .inl rfl

-- The other zero is the sum of two of its kind only.
theorem add_eq_negativeZero_iff {a b : Number} {x y : ℤ} (ha : a.IsCanonical x)
    (hb : b.IsCanonical y) :
    Operation.add.apply a b = negativeZero ↔ a = negativeZero ∧ b = negativeZero := by
  constructor
  · intro h
    have hsum : x + y = 0 := by
      apply (add_isCanonical ha hb).unique
      rw [h]
      exact isCanonical_negativeZero
    rcases add_apply_cases ha hb with hexact | ⟨d, e, rfl, rfl, hdoubles⟩
    · exact absurd (hexact.symm.trans h) (ofInt_ne_negativeZero _)
    · have hsign : (d.isNegative && e.isNegative) = true := by
        rw [hdoubles, hsum] at h
        cases hneg : d.isNegative && e.isNegative with
        | true => rfl
        | false =>
          rw [hneg] at h
          exact absurd h (by decide)
      obtain ⟨hdneg, heneg⟩ := Bool.and_eq_true_iff.mp hsign
      have hd := (toInt?_of_toSafeInt? (isCanonical_float_iff.mp ha)).1
      have he := (toInt?_of_toSafeInt? (isCanonical_float_iff.mp hb)).1
      have hxneg := Double.nonpos_of_isNegative hd hdneg
      have hyneg := Double.nonpos_of_isNegative he heneg
      obtain rfl : x = 0 := by omega
      obtain rfl : y = 0 := by omega
      have hdzero := Double.eq_ofScaled hd
      have hezero := Double.eq_ofScaled he
      rw [hdneg] at hdzero
      rw [heneg] at hezero
      exact ⟨congrArg float hdzero, congrArg float hezero⟩
  · rintro ⟨rfl, rfl⟩
    decide

-- The multiple of the divisor that a remainder is the rest over.
def multipleBelow (x y : ℤ) : ℤ := y * ⌊(x / y : ℚ)⌋

theorem sub_multipleBelow {x y : ℤ} (hy : y ≠ 0) :
    (0 ≤ x - multipleBelow x y ∧ x - multipleBelow x y < y) ∨
      (y < x - multipleBelow x y ∧ x - multipleBelow x y ≤ 0) := by
  rw [multipleBelow, mul_comm]
  exact (floor_div_eq_iff hy).mp rfl

-- Doubles compute the remainder, and the multiple of the divisor that they subtract is one that no
-- double is equal to.
def RoundsMultiple (x y : ℤ) : Prop :=
  IsSafe x ∧ IsSafe y ∧ 2 ^ 53 < |multipleBelow x y| ∧ Odd (multipleBelow x y)

-- Doubles subtract the rounded multiple, and that difference is exact.
theorem onDoubles_remainder {d e : Double} {x y p : ℤ} (hx : d.toSafeInt? = some x)
    (hy : e.toSafeInt? = some y) (hy0 : y ≠ 0)
    (hp : ∀ s, (Double.ofScaled s (multipleBelow x y) 0).toInt? = some p) :
    ∃ s, Operation.remainder.onDoubles d e = Double.ofScaled s (x - p) 0 := by
  have hq := toInt?_onDoubles_quotient hx hy hy0
  have hmul := Double.mul_of_toInt? (toInt?_of_toSafeInt? hy).1 hq
  have hprod : (e * Operation.quotient.onDoubles d e).toInt? = some p := by
    rw [hmul]
    exact hp _
  exact ⟨_, Double.sub_of_toInt? (toInt?_of_toSafeInt? hx).1 hprod⟩

theorem abs_multipleBelow_lt {x y : ℤ} (hx : IsSafe x) (hy : IsSafe y) (hy0 : y ≠ 0) :
    |multipleBelow x y| < 2 ^ 54 := by
  have hrest := sub_multipleBelow (x := x) hy0
  simp only [IsSafe, Double.maxSafe] at hx hy
  rw [abs_lt]
  omega

-- Where the multiple has a double the remainder is exact.
theorem remainder_isCanonical {a b : Number} {x y : ℤ} (ha : a.IsCanonical x)
    (hb : b.IsCanonical y) (hy0 : y ≠ 0) (h : ¬RoundsMultiple x y) :
    (Operation.remainder.apply a b).IsCanonical (x - multipleBelow x y) := by
  have hints : Operation.remainder.onInts x y = x - multipleBelow x y := by
    rw [onInts_remainder, onInts_quotient x hy0, multipleBelow]
  rw [← hints]
  refine apply_isCanonical .remainder (by decide) ha hb fun d e z hx hy hz => ?_
  have hxs := (Double.toSafeInt?_eq_some_iff.mp hx).2
  have hys := (Double.toSafeInt?_eq_some_iff.mp hy).2
  have hp : ∀ s, (Double.ofScaled s (multipleBelow x y) 0).toInt? = some (multipleBelow x y) := by
    intro s
    by_cases hsmall : |multipleBelow x y| ≤ 2 ^ 53
    · exact Double.toInt?_ofScaled s hsmall
    · apply Double.toInt?_ofScaled_of_even s (abs_multipleBelow_lt hxs hys hy0)
      rw [← Int.not_odd_iff_even]
      exact fun hodd => h ⟨hxs, hys, not_le.mp hsmall, hodd⟩
  obtain ⟨s, hs⟩ := onDoubles_remainder hx hy hy0 hp
  rw [hs] at hz
  rw [hints]
  exact Double.eq_of_toSafeInt?_ofScaled hz

-- Where it has none the remainder is off by one.
theorem remainder_isCanonical_of_roundsMultiple {a b : Number} {x y : ℤ} (ha : a.IsCanonical x)
    (hb : b.IsCanonical y) (hy0 : y ≠ 0) (h : RoundsMultiple x y) :
    (Operation.remainder.apply a b).IsCanonical
      (x - multipleBelow x y + if multipleBelow x y % 4 = 1 then 1 else -1) := by
  obtain ⟨hxs, hys, hlarge, hodd⟩ := h
  obtain ⟨d, rfl⟩ := ha.isSafe_iff.mp hxs
  obtain ⟨e, rfl⟩ := hb.isSafe_iff.mp hys
  rw [isCanonical_float_iff] at ha hb
  have hp := fun s => Double.toInt?_ofScaled_of_odd s hlarge (abs_multipleBelow_lt hxs hys hy0) hodd
  obtain ⟨s, hs⟩ := onDoubles_remainder ha hb hy0 hp
  have hrest := sub_multipleBelow (x := x) hy0
  apply apply_float_isCanonical .remainder (by decide) ha hb
  rw [hs]
  generalize multipleBelow x y = p at *
  have hdiff : x - (if p % 4 = 1 then p - 1 else p + 1) = x - p + if p % 4 = 1 then 1 else -1 := by
    split <;> ring
  have hsafe : IsSafe (x - p + if p % 4 = 1 then 1 else -1) := by
    simp only [IsSafe, Double.maxSafe] at hys ⊢
    split <;> omega
  rw [hdiff, Double.toSafeInt?_eq_some_iff]
  exact ⟨Double.toInt?_ofScaled s (Double.isSafe_iff.mp hsafe).le, hsafe⟩

-- The remainder is the floored one just where no multiple is rounded, and one off elsewhere.
theorem remainder_exact_iff {a b : Number} {x y : ℤ} (ha : a.IsCanonical x)
    (hb : b.IsCanonical y) (hy0 : y ≠ 0) :
    ((∃ r, (Operation.remainder.apply a b).IsCanonical r ∧ x = ⌊(x / y : ℚ)⌋ * y + r ∧
        |r| < |y| ∧ (r = 0 ∨ r.sign = y.sign)) ↔ ¬RoundsMultiple x y) ∧
      (RoundsMultiple x y → (Operation.remainder.apply a b).IsCanonical
        (x - multipleBelow x y + if multipleBelow x y % 4 = 1 then 1 else -1)) := by
  refine ⟨⟨?_, ?_⟩, remainder_isCanonical_of_roundsMultiple ha hb hy0⟩
  · rintro ⟨r, hr, hx, -, -⟩ h
    have hoff := hr.unique (remainder_isCanonical_of_roundsMultiple ha hb hy0 h)
    have hexact : r = x - multipleBelow x y := by
      rw [multipleBelow]
      linear_combination -hx
    split at hoff <;> omega
  · intro h
    refine ⟨_, remainder_isCanonical ha hb hy0 h, by rw [multipleBelow]; ring, ?_, ?_⟩
    · have hrest := sub_multipleBelow (x := x) hy0
      rw [Int.abs_eq_natAbs, Int.abs_eq_natAbs]
      omega
    · rcases sub_multipleBelow (x := x) hy0 with ⟨hlow, hhigh⟩ | ⟨hlow, hhigh⟩
      · rcases hlow.eq_or_lt with h0 | hpos
        · exact .inl h0.symm
        · exact .inr (by rw [Int.sign_eq_one_of_pos hpos, Int.sign_eq_one_of_pos (hpos.trans hhigh)])
      · rcases hhigh.eq_or_lt with h0 | hneg
        · exact .inl h0
        · exact .inr (by
            rw [Int.sign_eq_neg_one_of_neg hneg, Int.sign_eq_neg_one_of_neg (hlow.trans hneg)])

theorem multipleBelow_maxSafe : multipleBelow 9007199254740991 (-3) = 9007199254740993 := by
  rw [multipleBelow, (floor_div_eq_iff (q := -3002399751580331) (by decide)).mpr (by decide)]
  rfl

theorem remainder_exact_iff_maxSafe :
    ((ofInt 9007199254740993).IsCanonical 9007199254740993 ∧ (ofInt (-3)).IsCanonical (-3) ∧
      ∃ r, (Operation.remainder.apply (ofInt 9007199254740993) (ofInt (-3))).IsCanonical r ∧
        9007199254740993 = ⌊((9007199254740993 : ℤ) / (-3 : ℤ) : ℚ)⌋ * -3 + r ∧
        |r| < |(-3 : ℤ)| ∧ (r = 0 ∨ r.sign = (-3 : ℤ).sign)) ∧
      ((ofInt 9007199254740991).IsCanonical 9007199254740991 ∧
        RoundsMultiple 9007199254740991 (-3) ∧
        (Operation.remainder.apply (ofInt 9007199254740991) (ofInt (-3))).IsCanonical (-1)) := by
  refine ⟨⟨isCanonical_ofInt _, isCanonical_ofInt _, ?_⟩, isCanonical_ofInt _, ?_⟩
  · refine (remainder_exact_iff (isCanonical_ofInt 9007199254740993) (isCanonical_ofInt (-3))
      (by decide)).1.mpr ?_
    rintro ⟨hsafe, -⟩
    exact absurd hsafe (by decide)
  · have hrounds : RoundsMultiple 9007199254740991 (-3) := by
      refine ⟨by decide, by decide, ?_⟩
      rw [multipleBelow_maxSafe]
      exact ⟨by norm_num, by decide⟩
    have hresult := (remainder_exact_iff (isCanonical_ofInt 9007199254740991)
      (isCanonical_ofInt (-3)) (by decide)).2 hrounds
    rw [multipleBelow_maxSafe] at hresult
    exact ⟨hrounds, hresult⟩

-- The largest safe integer leaves -2 over the multiple of -3 below it, and the result is -1.
theorem remainder_off_by_one :
    ¬∀ (a b : Number) (x y : ℤ), a.IsCanonical x → b.IsCanonical y → y ≠ 0 →
      ∃ r, (Operation.remainder.apply a b).IsCanonical r ∧ x = ⌊(x / y : ℚ)⌋ * y + r ∧
        |r| < |y| ∧ (r = 0 ∨ r.sign = y.sign) := by
  intro h
  obtain ⟨r, hr, hx, -, -⟩ := h _ _ _ _ (isCanonical_ofInt 9007199254740991)
    (isCanonical_ofInt (-3)) (by decide)
  have hoff := remainder_isCanonical_of_roundsMultiple (isCanonical_ofInt 9007199254740991)
    (isCanonical_ofInt (-3)) (by decide) ⟨by decide, by decide, by
      rw [multipleBelow_maxSafe]
      exact ⟨by norm_num, by decide⟩⟩
  rw [multipleBelow_maxSafe] at hoff
  have hmultiple := multipleBelow_maxSafe
  rw [multipleBelow] at hmultiple
  have := hr.unique hoff
  norm_num at this
  linarith

end RecordQuery.Number
