import RecordQuery.Proofs.Double.Text
import RecordQuery.Proofs.Number.Order

/-!
Keys of numbers. Two numbers share their key when they have the same value, whichever form holds it,
and NaN shares it with itself only.
-/

namespace RecordQuery

namespace Double

-- A double that is no integer has the value of none.
theorem extended_ne_intCast {x : Double} (hx : x.isNaN = false) (hn : x.toInt? = none) (n : ℤ) :
    x.extended ≠ (((n : ℚ) : WithTop ℚ) : Extended) := by
  cases x with
  | nan => cases hx
  | infinite negative => cases negative <;> simp [extended, ← WithBot.coe_top]
  | finite negative m e h =>
    have hvalue := (toInt?_eq_none_iff (x := finite negative m e h) rfl).mp hn n
    rw [extended_of_isFinite rfl, ne_eq, WithBot.coe_inj, WithTop.coe_inj]
    exact hvalue

-- Zero is an integer, so away from the integers a value has one double.
theorem eq_of_extended_eq {x y : Double} (hx : x.isNaN = false) (hy : y.isNaN = false)
    (hn : x.toInt? = none) (h : x.extended = y.extended) : x = y := by
  cases x with
  | nan => cases hx
  | infinite negative =>
    cases y with
    | nan => cases hy
    | infinite negative' =>
      cases negative <;> cases negative' <;> first | rfl | simp [extended] at h
    | finite negative' m' e' h' => cases negative <;> simp [extended, ← WithBot.coe_top] at h
  | finite negative m e hc =>
    cases y with
    | nan => cases hy
    | infinite negative' => cases negative' <;> simp [extended, ← WithBot.coe_top] at h
    | finite negative' m' e' hc' =>
      rw [extended_of_isFinite rfl, extended_of_isFinite rfl, WithBot.coe_inj, WithTop.coe_inj] at h
      refine eq_of_value_eq rfl rfl ?_ h
      have hzero := (toInt?_eq_none_iff (x := finite negative m e hc) rfl).mp hn 0
      have hsign := value_eq_of_isNegative (x := finite negative m e hc) rfl
      have hsign' := value_eq_of_isNegative (x := finite negative' m' e' hc') rfl
      rw [← h] at hsign'
      by_contra hdiffer
      cases hs : (finite negative m e hc).isNegative <;>
        cases hs' : (finite negative' m' e' hc').isNegative <;>
        simp only [hs, hs', if_true, Bool.false_eq_true, if_false] at hsign hsign' hdiffer
      all_goals
        apply hzero
        push_cast
        first | contradiction | linarith

theorem read?_text_nan : read? (text .nan) = none := by rfl

-- Equal texts are equal doubles, away from the integers.
theorem text_eq_iff {x y : Double} (hx : x.toInt? = none) (hy : y.toInt? = none) :
    x.text = y.text ↔ x = y := by
  refine ⟨fun h => ?_, fun h => by rw [h]⟩
  have hread : ∀ z : Double, z.toInt? = none → z.isNaN = false → read? z.text = some z :=
    fun z hz hnan => read?_text hnan (by rw [toSafeInt?, hz])
  cases hnx : x.isNaN with
  | false =>
    have hxy := hread x hx hnx
    cases hny : y.isNaN with
    | false =>
      rw [h, hread y hy hny] at hxy
      exact (Option.some_inj.mp hxy).symm
    | true =>
      rw [h, isNaN_iff.mp hny, read?_text_nan] at hxy
      cases hxy
  | true =>
    cases hny : y.isNaN with
    | false =>
      have hyy := hread y hy hny
      rw [← h, isNaN_iff.mp hnx, read?_text_nan] at hyy
      cases hyy
    | true => rw [isNaN_iff.mp hnx, isNaN_iff.mp hny]

end Double

namespace Number

-- Two numbers are the same if both are NaN, or neither is and their exact values are equal.
def SameValue (a b : Number) : Prop :=
  a.isNaN = true ∧ b.isNaN = true ∨
    a.isNaN = false ∧ b.isNaN = false ∧ a.extended = b.extended

theorem sameValue_comm {a b : Number} : SameValue a b ↔ SameValue b a := by
  unfold SameValue
  grind

theorem sameValue_iff_rank {a b : Number} : SameValue a b ↔ a.rank = b.rank := by
  unfold SameValue rank
  cases a.isNaN <;> cases b.isNaN <;> simp

-- The key is that of an integer, or it is the text of a double that is none.
theorem key_cases (a : Number) :
    (∃ n : ℤ, a.key = Text.ofInt n ∧ a.isNaN = false ∧
      a.extended = (((n : ℚ) : WithTop ℚ) : Extended)) ∨
      ∃ x : Double, a = .float x ∧ x.toInt? = none ∧ a.key = x.text := by
  cases a with
  | big n => exact .inl ⟨n, rfl, rfl, rfl⟩
  | float x =>
    cases hx : x.toInt? with
    | none => exact .inr ⟨x, rfl, hx, by simp only [key, hx]⟩
    | some n =>
      obtain ⟨hfinite, hvalue⟩ := Double.toInt?_eq_some_iff.mp hx
      have hextended := Double.extended_of_isFinite hfinite
      rw [hvalue] at hextended
      exact .inl ⟨n, by simp only [key, hx], Double.isNaN_of_isFinite hfinite, hextended⟩

theorem not_sameValue_of_integer {a : Number} {x : Double} {n : ℤ} (ha : a.isNaN = false)
    (hn : a.extended = (((n : ℚ) : WithTop ℚ) : Extended)) (hx : x.toInt? = none) :
    ¬SameValue a (.float x) := by
  rintro (⟨hnan, -⟩ | ⟨-, hnan, heq⟩)
  · rw [ha] at hnan
    cases hnan
  · exact Double.extended_ne_intCast hnan hx n (heq.symm.trans hn)

theorem key_eq_key_iff {a b : Number} : a.key = b.key ↔ SameValue a b := by
  rcases key_cases a with ⟨n, hkey, hnan, hn⟩ | ⟨x, rfl, hx, hkey⟩ <;>
    rcases key_cases b with ⟨m, hkey', hnan', hm⟩ | ⟨y, rfl, hy, hkey'⟩ <;> rw [hkey, hkey']
  · rw [Text.ofInt_injective.eq_iff, SameValue, hnan, hnan', hn, hm, WithBot.coe_inj,
      WithTop.coe_inj]
    simp
  · exact iff_of_false (Double.text_ne_ofInt hy n).symm (not_sameValue_of_integer hnan hn hy)
  · refine iff_of_false (Double.text_ne_ofInt hx m) ?_
    rw [sameValue_comm]
    exact not_sameValue_of_integer hnan' hm hx
  · rw [Double.text_eq_iff hx hy]
    constructor
    · rintro rfl
      cases h : x.isNaN with
      | true => exact .inl ⟨h, h⟩
      | false => exact .inr ⟨h, h, rfl⟩
    · rintro (⟨hnan, hnan'⟩ | ⟨hnan, hnan', heq⟩)
      · rw [Double.isNaN_iff.mp hnan, Double.isNaN_iff.mp hnan']
      · exact Double.eq_of_extended_eq hnan hnan' hx heq

-- The units that the key of a number is written with. No bracket, comma or quote is among them.
theorem isDecimalUnit_or_mem_of_mem_key {a : Number} {u : UInt16} (hu : u ∈ a.key) :
    Double.IsDecimalUnit u ∨ u ∈ Text.ofString "InfinityNaN" := by
  rcases key_cases a with ⟨n, hkey, -⟩ | ⟨x, -, hx, hkey⟩
  · rw [hkey] at hu
    rcases Text.isDigit_or_eq_of_mem_ofInt hu with hu | hu <;> simp [Double.IsDecimalUnit, hu]
  · rw [hkey] at hu
    exact Double.isDecimalUnit_or_mem_of_mem_text (by rw [Double.toSafeInt?, hx]) hu

end Number

end RecordQuery
