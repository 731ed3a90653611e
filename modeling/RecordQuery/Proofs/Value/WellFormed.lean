import RecordQuery.Proofs.Attempt
import RecordQuery.Proofs.Double.Value
import RecordQuery.Proofs.Value.Fields
import RecordQuery.Proofs.Value.Lists
import RecordQuery.Value.Access
import RecordQuery.Value.Arithmetic

/-!
Well-formed values: every integer in them has the form that its size asks for, so that none within
the safe range is held exactly. Arithmetic only makes such numbers, and looking into values only
finds what is in them.
-/

namespace RecordQuery

-- An integer that is held exactly lies beyond the safe range.
def Number.WellFormed : Number → Prop
  | .float _ => True
  | .big n => ¬Double.IsSafe n

namespace Number

theorem wellFormed_ofInt (n : ℤ) : (ofInt n).WellFormed := by
  unfold ofInt
  split
  · trivial
  · next h => exact h

theorem WellFormed.neg {n : Number} (h : n.WellFormed) : n.neg.WellFormed := by
  cases n with
  | float x => trivial
  | big m => exact wellFormed_ofInt _

theorem WellFormed.abs {n : Number} (h : n.WellFormed) : n.abs.WellFormed := by
  cases n with
  | float x => trivial
  | big m =>
    have hm : ¬Double.IsSafe m := h
    change ¬Double.IsSafe m.natAbs
    rwa [Double.isSafe_iff, Int.natCast_natAbs, abs_abs, ← Double.isSafe_iff]

-- Whatever the operands are.
theorem wellFormed_apply (op : Operation) (a b : Number) : (op.apply a b).WellFormed := by
  unfold Operation.apply
  dsimp only
  split
  · split_ifs
    · trivial
    · trivial
    · trivial
    · exact wellFormed_ofInt _
  · trivial

end Number

namespace Value

def WellFormed (v : Value) : Prop := ∀ n ∈ v.numbers, n.WellFormed

variable {v w : Value} {items : List Value} {fields : Fields Value}

@[simp] theorem wellFormed_null : WellFormed .null := by simp [WellFormed, numbers]

@[simp] theorem wellFormed_bool (b : Bool) : WellFormed (.bool b) := by simp [WellFormed, numbers]

@[simp] theorem wellFormed_text (t : Text) : WellFormed (.text t) := by simp [WellFormed, numbers]

@[simp] theorem wellFormed_number {n : Number} : WellFormed (.number n) ↔ n.WellFormed :=
  List.forall_mem_singleton

@[simp] theorem wellFormed_list : WellFormed (.list items) ↔ ∀ v ∈ items, v.WellFormed :=
  forall_mem_allNumbers

@[simp] theorem wellFormed_tuple : WellFormed (.tuple items) ↔ ∀ v ∈ items, v.WellFormed :=
  forall_mem_allNumbers

@[simp] theorem wellFormed_object : WellFormed (.object fields) ↔ ∀ e ∈ fields, e.2.WellFormed :=
  forall_mem_fieldNumbers

theorem wellFormed_ofNat (n : ℕ) : WellFormed (ofNat n) :=
  wellFormed_number.mpr (Number.wellFormed_ofInt n)

-- Texts, however many.
theorem wellFormed_of_mem_texts {ts : List Text} : ∀ v ∈ ts.map text, v.WellFormed := by
  simp

theorem wellFormed_get? {key : Text} (h : ∀ e ∈ fields, e.2.WellFormed)
    (hv : fields.get? key = some v) : v.WellFormed :=
  h _ (Fields.mem_of_get?_eq_some hv)

theorem WellFormed.numeric? (hv : v.WellFormed) {n : Number} (hn : v.numeric? = some n) :
    n.WellFormed := by
  cases v with
  | number m =>
    cases hn
    exact wellFormed_number.mp hv
  | bool b =>
    cases hn
    exact Number.wellFormed_ofInt _
  | _ => cases hn

theorem WellFormed.iterated? (hv : v.WellFormed) (hi : v.iterated? = some items) :
    ∀ w ∈ items, w.WellFormed := by
  cases v with
  | list items =>
    cases hi
    exact wellFormed_list.mp hv
  | tuple items =>
    cases hi
    exact wellFormed_tuple.mp hv
  | text t =>
    cases hi
    exact wellFormed_of_mem_texts
  | object fields =>
    cases hi
    exact wellFormed_of_mem_texts
  | _ => cases hi

theorem WellFormed.items? (hv : v.WellFormed) (hi : v.items? = some items) :
    ∀ w ∈ items, w.WellFormed := by
  cases v with
  | list items =>
    cases hi
    exact wellFormed_list.mp hv
  | tuple items =>
    cases hi
    exact wellFormed_tuple.mp hv
  | _ => cases hi

-- Looking into a value.
theorem ensures_namedField (hv : v.WellFormed) (name : Text) :
    Ensures WellFormed (namedField name v) := by
  cases v with
  | object fields =>
    rw [wellFormed_object] at hv
    unfold namedField fieldNamed?
    dsimp only
    split
    · next w hw =>
      rw [Option.or_eq_some_iff] at hw
      rcases hw with hget | ⟨-, hfind⟩
      · exact .ok (wellFormed_get? hv hget)
      · obtain ⟨e, he, rfl⟩ := Option.map_eq_some_iff.mp hfind
        exact .ok (hv e (List.mem_of_find?_eq_some he))
    · exact .error _
  | _ => exact .error _

theorem ensures_itemAt {α : Type} (items : List α) (position : Value) :
    Ensures (· ∈ items) (itemAt items position) := by
  unfold itemAt
  split
  · exact .error _
  · split
    · exact .error _
    · split
      · next a ha =>
        obtain ⟨place, -, hplace⟩ := Option.bind_eq_some_iff.mp ha
        exact .ok (List.mem_of_getElem? hplace)
      · exact .error _
  · exact .error _

theorem ensures_index (hv : v.WellFormed) (position : Value) :
    Ensures WellFormed (index v position) := by
  cases v with
  | text t => exact (ensures_itemAt t position).map fun u _ => wellFormed_text [u]
  | list items => exact fun w hw => wellFormed_list.mp hv w (ensures_itemAt items position w hw)
  | tuple items => exact fun w hw => wellFormed_tuple.mp hv w (ensures_itemAt items position w hw)
  | object fields =>
    cases position with
    | text key =>
      rw [wellFormed_object] at hv
      unfold index
      dsimp only
      split
      · next w hw => exact .ok (wellFormed_get? hv hw)
      · exact .error _
    | _ => exact .error _
  | _ => exact .error _

theorem mem_of_mem_between {α : Type} {start stop : Option Bound} {items : List α} {a : α}
    (h : a ∈ between start stop items) : a ∈ items :=
  List.mem_of_mem_take (List.mem_of_mem_drop h)

theorem ensures_slice (hv : v.WellFormed) (start stop : Value) :
    Ensures WellFormed (slice v start stop) := by
  refine .after fun first => .after fun last => ?_
  cases v with
  | text t => exact .ok (wellFormed_text _)
  | list items =>
    rw [wellFormed_list] at hv
    exact .ok (wellFormed_list.mpr fun w hw => hv w (mem_of_mem_between hw))
  | tuple items =>
    rw [wellFormed_tuple] at hv
    exact .ok (wellFormed_tuple.mpr fun w hw => hv w (mem_of_mem_between hw))
  | _ => exact .error _

-- Operators.
theorem mem_of_mem_copies {α : Type} {count : ℕ} {items : List α} {a : α}
    (h : a ∈ copies count items) : a ∈ items := by
  unfold copies at h
  split at h
  · cases h
  · obtain ⟨part, hpart, ha⟩ := List.mem_flatten.mp h
    rwa [List.eq_of_mem_replicate hpart] at ha

theorem wellFormed_repeated? (hv : v.WellFormed) {count : ℕ} (hw : repeated? count v = some w) :
    w.WellFormed := by
  cases v with
  | text t =>
    cases hw
    exact wellFormed_text _
  | list items =>
    cases hw
    rw [wellFormed_list] at hv
    exact wellFormed_list.mpr fun w hw => hv w (mem_of_mem_copies hw)
  | tuple items =>
    cases hw
    rw [wellFormed_tuple] at hv
    exact wellFormed_tuple.mpr fun w hw => hv w (mem_of_mem_copies hw)
  | _ => cases hw

theorem wellFormed_product? {a b : Value} (ha : a.WellFormed) (hb : b.WellFormed)
    (hw : product? a b = some w) : w.WellFormed := by
  rw [product?, Option.or_eq_some_iff, Option.bind_eq_some_iff, Option.bind_eq_some_iff] at hw
  rcases hw with ⟨count, -, hcopies⟩ | ⟨-, count, -, hcopies⟩
  · exact wellFormed_repeated? ha hcopies
  · exact wellFormed_repeated? hb hcopies

theorem wellFormed_joined? {a b : Value} (ha : a.WellFormed) (hb : b.WellFormed)
    (hw : joined? a b = some w) : w.WellFormed := by
  unfold joined? at hw
  split at hw
  · cases hw
    exact wellFormed_text _
  · cases hw
    rw [wellFormed_list] at ha hb
    exact wellFormed_list.mpr (List.forall_mem_append.mpr ⟨ha, hb⟩)
  · cases hw
    rw [wellFormed_tuple] at ha hb
    exact wellFormed_tuple.mpr (List.forall_mem_append.mpr ⟨ha, hb⟩)
  · cases hw

theorem ensures_onNumbers (op : BinaryOp) (x y : Number) :
    Ensures WellFormed (onNumbers op x y) := by
  unfold onNumbers
  split
  · exact .error _
  · cases op with
    | divide => exact .ok (wellFormed_number.mpr trivial)
    | exact op => exact .ok (wellFormed_number.mpr (Number.wellFormed_apply op x y))

theorem ensures_binary (op : BinaryOp) {a b : Value} (ha : a.WellFormed) (hb : b.WellFormed) :
    Ensures WellFormed (binary op a b) := by
  unfold binary
  split
  · exact ensures_onNumbers op _ _
  · dsimp only
    split
    · next w hw =>
      refine .ok ?_
      split at hw
      · exact wellFormed_joined? ha hb hw
      · exact wellFormed_product? ha hb hw
      · cases hw
    · exact .error _

theorem ensures_unary (op : UnaryOp) (hv : v.WellFormed) : Ensures WellFormed (unary op v) := by
  unfold unary
  split
  · exact .ok (wellFormed_bool _)
  · next n hn => exact .ok (wellFormed_number.mpr (hv.numeric? hn).neg)
  · next n hn => exact .ok (wellFormed_number.mpr (hv.numeric? hn))
  · exact .error _

end Value

end RecordQuery
