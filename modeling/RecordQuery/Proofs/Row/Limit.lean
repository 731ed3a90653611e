import RecordQuery.Proofs.Double.Integer
import RecordQuery.Row.Limit

/-!
Limits that are natural numbers.
-/

namespace RecordQuery.Row

-- Such a limit lets through just that many rows, or all of them if it is zero.
theorem bound?_of_toInt? {x : Double} {n : ℕ} (h : x.toInt? = some (n : ℤ)) :
    bound? x = if n = 0 then none else some n := by
  obtain ⟨hfinite, hvalue⟩ := Double.toInt?_eq_some_iff.mp h
  have hceil : x.ceil.toInt? = some (n : ℤ) := by
    rw [Double.toInt?_ceil hfinite, hvalue, Int.ceil_intCast]
  have hzero : x.isZero = true ↔ n = 0 := by
    rw [Double.isZero_iff hfinite, hvalue]
    norm_cast
  rw [bound?, Double.isNaN_of_isFinite hfinite, hceil, Bool.or_false]
  split
  · next hz => rw [if_pos (hzero.mp hz)]
  · next hz =>
    have hn : n ≠ 0 := fun hn => hz (hzero.mpr hn)
    rw [if_neg hn]
    simp only [Int.toNat_natCast]
    congr 1
    omega

theorem limit_eq_take {α : Type} {x : Double} {n : ℕ} (hx : x.toInt? = some (n : ℤ)) (hn : 1 ≤ n) :
    (limit x : Flow α → Flow α) = Flow.take n := by
  funext rows
  rw [limit, bound?_of_toInt? hx, if_neg (Nat.one_le_iff_ne_zero.mp hn)]

end RecordQuery.Row
