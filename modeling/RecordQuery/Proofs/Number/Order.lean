import Mathlib.Order.WithBot
import RecordQuery.Proofs.Double.Integer
import RecordQuery.Proofs.Number.Arithmetic

/-!
The order of numbers. Doubles are compared with doubles, integers with integers, and an integer with a
double by one of three rules; all of them compare the exact values.
-/

namespace RecordQuery

-- The rational numbers with a least and a greatest element.
abbrev Extended := WithBot (WithTop ℚ)

-- The exact value of a double that is not NaN. NaN has none; it is given the greatest so that the
-- function is total.
def Double.extended : Double → Extended
  | .nan => ⊤
  | .infinite negative => if negative then ⊥ else ⊤
  | .finite negative significand exponent canonical =>
    ((value (.finite negative significand exponent canonical) : WithTop ℚ) : Extended)

def Number.extended : Number → Extended
  | .float x => x.extended
  | .big n => (((n : ℚ) : WithTop ℚ) : Extended)

namespace Double

theorem extended_of_isFinite {x : Double} (hx : x.isFinite = true) :
    x.extended = ((x.value : WithTop ℚ) : Extended) := by
  cases x with
  | nan => cases hx
  | infinite negative => cases hx
  | finite negative m e h => rfl

theorem lt_iff {x y : Double} (hx : x.isNaN = false) (hy : y.isNaN = false) :
    lt x y = true ↔ x.extended < y.extended := by
  cases x with
  | nan => cases hx
  | infinite negative =>
    cases y with
    | nan => cases hy
    | infinite negative' => cases negative <;> cases negative' <;> simp [lt, place, extended]
    | finite negative' n f h' =>
      cases negative <;> simp [lt, place, extended, WithBot.bot_lt_coe]
  | finite negative m e h =>
    cases y with
    | nan => cases hy
    | infinite negative' =>
      cases negative' <;> simp [lt, place, extended, ← WithBot.coe_top, WithBot.coe_lt_coe]
    | finite negative' n f h' =>
      rw [lt, place_of_isFinite rfl, place_of_isFinite rfl]
      simp only [decide_eq_true_eq, extended, WithBot.coe_lt_coe, WithTop.coe_lt_coe]

theorem compare_eq_cmp {x y : Double} (hx : x.isNaN = false) (hy : y.isNaN = false) :
    x.compare y = cmp x.extended y.extended := by
  rw [cmp, cmpUsing]
  simp only [compare, lt_iff hx hy, lt_iff hy hx]

theorem isNaN_ofRat (negative : Bool) {q : ℚ} (hq : 0 < q) : (ofRat negative q).isNaN = false := by
  obtain ⟨k, -, ⟨hinf, -⟩ | ⟨hf, -⟩⟩ := ofRat_cases negative hq
  · rw [hinf]
    rfl
  · exact isNaN_of_isFinite hf

theorem extended_ofInt {n : ℤ} (h : |n| ≤ 2 ^ 53) :
    (ofInt n).isNaN = false ∧ (ofInt n).extended = (((n : ℚ) : WithTop ℚ) : Extended) := by
  obtain ⟨hf, hv⟩ := toInt?_eq_some_iff.mp (toInt?_ofScaled false h)
  rw [← ofInt] at hf hv
  exact ⟨isNaN_of_isFinite hf, by rw [extended_of_isFinite hf, hv]⟩

-- An integer beyond 2^53 keeps its sign and stays beyond 2^53, perhaps beyond all doubles.
theorem extended_ofInt_of_large {n : ℤ} (h : 2 ^ 53 < |n|) :
    (ofInt n).isNaN = false ∧
      (n < 0 → (ofInt n).extended ≤ (((-2 ^ 53 : ℚ) : WithTop ℚ) : Extended)) ∧
      (0 < n → (((2 ^ 53 : ℚ) : WithTop ℚ) : Extended) ≤ (ofInt n).extended) := by
  have hn : n ≠ 0 := by
    rintro rfl
    norm_num at h
  have hpos : (0 : ℚ) < (n.natAbs : ℚ) := by exact_mod_cast Int.natAbs_pos.mpr hn
  have hround := ofInt_eq_ofRat n
  refine ⟨by rw [hround]; exact isNaN_ofRat _ hpos, ?_⟩
  obtain ⟨k, -, ⟨hinf, -⟩ | ⟨hf, hs, -⟩⟩ := ofRat_cases (decide (n < 0)) hpos
  · rw [hround, hinf]
    constructor
    · intro hneg
      simp [extended, hneg]
    · intro hpos
      simp [extended, not_lt.mpr hpos.le]
  · rw [← hround] at hf hs
    have hlarge := le_abs_value_ofScaled false h.le hf
    rw [← ofInt] at hlarge
    have hv := value_eq_of_isNegative hf
    rw [extended_of_isFinite hf, WithBot.coe_le_coe, WithTop.coe_le_coe, WithBot.coe_le_coe,
      WithTop.coe_le_coe, hv, hs]
    constructor
    · intro hneg
      simpa [hneg] using hlarge
    · intro hpos
      simpa [not_lt.mpr hpos.le] using hlarge

-- Rounding an integer does not carry it past a double with a fraction.
theorem cmp_extended_ofInt {x : Double} (hx : x.isFinite = true) (hn : x.toInt? = none) (n : ℤ) :
    (ofInt n).compare x = cmp (((n : ℚ) : WithTop ℚ) : Extended) x.extended := by
  have hnan := isNaN_of_isFinite hx
  rcases le_or_gt |n| (2 ^ 53) with h | h
  · obtain ⟨hnan', he⟩ := extended_ofInt h
    rw [compare_eq_cmp hnan' hnan, he]
  · obtain ⟨hnan', hneg, hpos⟩ := extended_ofInt_of_large h
    have hsmall := abs_lt.mp (abs_value_lt_of_toInt?_eq_none hx hn)
    have hlarge : (2 : ℚ) ^ 53 < |(n : ℚ)| := by exact_mod_cast h
    rw [compare_eq_cmp hnan' hnan, extended_of_isFinite hx]
    rcases lt_or_ge n 0 with hlt | hge
    · have hn' : (n : ℚ) < 0 := by exact_mod_cast hlt
      rw [abs_of_neg hn'] at hlarge
      rw [(cmp_eq_lt_iff _ _).mpr, (cmp_eq_lt_iff _ _).mpr]
      · rw [WithBot.coe_lt_coe, WithTop.coe_lt_coe]
        linarith
      · refine (hneg hlt).trans_lt ?_
        rw [WithBot.coe_lt_coe, WithTop.coe_lt_coe]
        exact hsmall.1
    · have hn' : (0 : ℚ) ≤ n := by exact_mod_cast hge
      rw [abs_of_nonneg hn'] at hlarge
      rw [(cmp_eq_gt_iff _ _).mpr, (cmp_eq_gt_iff _ _).mpr]
      · rw [WithBot.coe_lt_coe, WithTop.coe_lt_coe]
        linarith
      · refine lt_of_lt_of_le ?_ (hpos (by
          rcases hge.eq_or_lt with h0 | h0
          · rw [← h0] at h
            norm_num at h
          · exact h0))
        rw [WithBot.coe_lt_coe, WithTop.coe_lt_coe]
        exact hsmall.2

end Double

namespace Number

theorem cmp_extended_intCast (m n : ℤ) :
    cmp (((m : ℚ) : WithTop ℚ) : Extended) (((n : ℚ) : WithTop ℚ) : Extended) =
      Ord.compare m n := by
  have hmono : StrictMono fun k : ℤ => (((k : ℚ) : WithTop ℚ) : Extended) := fun _ _ h =>
    WithBot.coe_lt_coe.mpr (WithTop.coe_lt_coe.mpr (Int.cast_lt.mpr h))
  exact (hmono.cmp_map_eq m n).trans (cmp_eq_compare m n)

theorem compareToDouble_eq_cmp (n : ℤ) {x : Double} (hx : x.isNaN = false) :
    compareToDouble n x = cmp (((n : ℚ) : WithTop ℚ) : Extended) x.extended := by
  rw [compareToDouble]
  cases hn : x.toInt? with
  | some m =>
    obtain ⟨hf, hv⟩ := Double.toInt?_eq_some_iff.mp hn
    rw [Double.extended_of_isFinite hf, hv, cmp_extended_intCast]
  | none =>
    cases x with
    | nan => cases hx
    | infinite negative =>
      cases negative with
      | false =>
        have hlt : (((n : ℚ) : WithTop ℚ) : Extended) < (⊤ : WithTop ℚ) :=
          WithBot.coe_lt_coe.mpr (WithTop.coe_lt_top _)
        exact ((cmp_eq_lt_iff _ _).mpr hlt).symm
      | true => exact ((cmp_eq_gt_iff _ _).mpr (WithBot.bot_lt_coe _)).symm
    | finite negative m e h => exact Double.cmp_extended_ofInt rfl hn n

-- Numbers other than NaN compare as their exact values do, in every mix of forms.
theorem compare_eq_cmp {a b : Number} (ha : a.isNaN = false) (hb : b.isNaN = false) :
    a.compare b = cmp a.extended b.extended := by
  rw [compare.eq_def, if_neg (by simp [ha]), if_neg (by simp [hb])]
  cases a with
  | float x =>
    cases b with
    | float y => exact Double.compare_eq_cmp ha hb
    | big n =>
      change (compareToDouble n x).swap = _
      rw [compareToDouble_eq_cmp n ha, cmp_swap]
      rfl
  | big m =>
    cases b with
    | float y => exact compareToDouble_eq_cmp m hb
    | big n =>
      exact (cmp_extended_intCast m n).symm

theorem IsCanonical.extended_eq {n : Number} {z : ℤ} (h : n.IsCanonical z) :
    n.isNaN = false ∧ n.extended = (((z : ℚ) : WithTop ℚ) : Extended) := by
  cases n with
  | float x =>
    obtain ⟨hf, hv, -⟩ := h
    exact ⟨Double.isNaN_of_isFinite hf, by rw [extended, Double.extended_of_isFinite hf, hv]⟩
  | big m => exact ⟨rfl, by rw [extended, h.1]⟩

theorem IsCanonical.compare_eq {a b : Number} {m n : ℤ} (ha : a.IsCanonical m)
    (hb : b.IsCanonical n) : a.compare b = Ord.compare m n := by
  obtain ⟨hm, hm'⟩ := ha.extended_eq
  obtain ⟨hn, hn'⟩ := hb.extended_eq
  rw [compare_eq_cmp hm hn, hm', hn', cmp_extended_intCast]

theorem compare_ofInt (m n : ℤ) : (ofInt m).compare (ofInt n) = Ord.compare m n :=
  (isCanonical_ofInt m).compare_eq (isCanonical_ofInt n)

-- The exact value with NaN above everything, so that one linear order explains all comparisons.
def rank (n : Number) : WithTop Extended := if n.isNaN then ⊤ else (n.extended : WithTop Extended)

theorem rank_of_isNaN {n : Number} (h : n.isNaN = true) : n.rank = ⊤ := by
  rw [rank, if_pos h]

theorem rank_of_not_isNaN {n : Number} (h : n.isNaN = false) :
    n.rank = (n.extended : WithTop Extended) := by
  rw [rank, if_neg (by simp [h])]

theorem compare_eq_cmp_rank (a b : Number) : a.compare b = cmp a.rank b.rank := by
  cases ha : a.isNaN with
  | true =>
    rw [compare.eq_def, if_pos ha, rank_of_isNaN ha]
    cases hb : b.isNaN with
    | true => rw [rank_of_isNaN hb, cmp_self_eq_eq, if_pos rfl]
    | false =>
      rw [rank_of_not_isNaN hb, if_neg (by simp)]
      exact ((cmp_eq_gt_iff _ _).mpr (WithTop.coe_lt_top _)).symm
  | false =>
    rw [rank_of_not_isNaN ha]
    cases hb : b.isNaN with
    | true =>
      rw [compare.eq_def, if_neg (by simp [ha]), if_pos hb, rank_of_isNaN hb]
      exact ((cmp_eq_lt_iff _ _).mpr (WithTop.coe_lt_top _)).symm
    | false =>
      rw [rank_of_not_isNaN hb, compare_eq_cmp ha hb]
      exact (WithTop.coe_strictMono.cmp_map_eq _ _).symm

end Number

end RecordQuery
