import Mathlib.Tactic
import RecordQuery.Text.Basic

/-!
The order of texts is total, and only equal texts have the same place in it.
-/

namespace RecordQuery.Text

instance : Std.TransCmp Text.compare := inferInstanceAs (Std.TransCmp (List.compareLex _))

instance : Std.LawfulEqCmp Text.compare := inferInstanceAs (Std.LawfulEqCmp (List.compareLex _))

theorem compare_swap (a b : Text) : compare a b = (compare b a).swap := Std.OrientedCmp.eq_swap

theorem le_total (a b : Text) : (le a b || le b a) = true := by
  rw [le, le, compare_swap b a]
  cases compare a b <;> rfl

theorem le_trans {a b c : Text} (h : le a b = true) (h' : le b c = true) : le a c = true :=
  Std.TransCmp.isLE_trans h h'

theorem le_antisymm {a b : Text} (h : le a b = true) (h' : le b a = true) : a = b := by
  rw [le] at h h'
  rw [compare_swap b a] at h'
  have heq : compare a b = .eq := by
    cases hc : compare a b <;> simp_all
  exact Std.LawfulEqCmp.eq_of_compare heq

end RecordQuery.Text
