import RecordQuery.Function.Reduction
import RecordQuery.Proofs.Attempt
import RecordQuery.Proofs.Double.Fraction
import RecordQuery.Proofs.Number.Arithmetic
import RecordQuery.Proofs.Value.Rank

/-!
What reductions come to. A sum of integers is the exact sum, an extreme is an item that none of the
others beats, and a percentile is an item whose rank is a fraction of the count. Nothing of this
depends on the order of the items.
-/

namespace RecordQuery.Function

-- A value that is a canonical integer where a number is asked for. Booleans count as zero and one.
def CountsAs (v : Value) (z : ℤ) : Prop := ∃ n, v.numeric? = some n ∧ n.IsCanonical z

theorem itemsArgument_eq (name : Text) {seq : Value} {items : List Value}
    (hseq : seq.iterated? = some items) : itemsArgument name (some seq) = .ok items := by
  rw [itemsArgument, Option.bind_some, hseq]

theorem numberArgument_eq (name : Text) {v : Value} {n : Number} (hv : v.numeric? = some n) :
    numberArgument name (some v) = .ok n := by
  rw [numberArgument, Option.bind_some, hv]

theorem sumOf_cons (start : Number) {v : Value} {n : Number} (hv : v.numeric? = some n)
    (rest : List Value) :
    sumOf start (v :: rest) = sumOf (Number.Operation.add.apply start n) rest := by
  rw [sumOf, List.foldlM_cons, numberArgument_eq "sum" hv]
  rfl

theorem sum_call {seq : Value} {items : List Value} (hseq : seq.iterated? = some items) :
    sum.call [seq] = (sumOf .zero items).map .number := by
  change (itemsArgument "sum" (some seq) >>= fun items =>
    sumOf .zero items >>= fun n => pure (Value.number n)) = _
  rw [itemsArgument_eq "sum" hseq]
  rfl

theorem sumOf_isCanonical {items : List Value} {z : Value → ℤ} (h : ∀ v ∈ items, CountsAs v (z v))
    {start : Number} {s : ℤ} (hstart : start.IsCanonical s) :
    ∃ n, sumOf start items = .ok n ∧ n.IsCanonical (s + (items.map z).sum) := by
  induction items generalizing start s with
  | nil => exact ⟨start, rfl, by simpa using hstart⟩
  | cons v rest ih =>
    rw [List.forall_mem_cons] at h
    obtain ⟨⟨n, hv, hn⟩, hrest⟩ := h
    obtain ⟨total, htotal, hcanonical⟩ := ih hrest (Number.add_isCanonical hstart hn)
    refine ⟨total, ?_, by rwa [List.map_cons, List.sum_cons, ← add_assoc]⟩
    rw [sumOf_cons start hv, htotal]

theorem isCanonical_zero : Number.zero.IsCanonical 0 := by
  refine ⟨rfl, ?_, by decide⟩
  simp [Double.value_zero]

theorem sum_isCanonical {items : List Value} {z : Value → ℤ} (h : ∀ v ∈ items, CountsAs v (z v)) :
    ∃ n, sum.call [.list items] = .ok (.number n) ∧ n.IsCanonical (items.map z).sum := by
  obtain ⟨n, hn, hcanonical⟩ := sumOf_isCanonical h isCanonical_zero
  refine ⟨n, ?_, by rwa [zero_add] at hcanonical⟩
  rw [sum_call (show (Value.list items).iterated? = some items from rfl), hn]
  rfl

-- The best of two items is one of them, and neither is above it.
theorem isLE_better (order : Value → Value → Ordering) [Std.TransCmp order] (a b : Value) :
    let better := if order b a == .gt then b else a
    (better = a ∨ better = b) ∧ (order a better).isLE ∧ (order b better).isLE := by
  have hself : ∀ v, (order v v).isLE := fun v => Ordering.isLE_of_eq_eq Std.ReflCmp.compare_self
  cases h : order b a with
  | gt =>
    have hba : order a b = .lt := Std.OrientedCmp.lt_of_gt h
    simp [hba, hself]
  | _ => simp [h, hself]

-- The invariant of the best item so far: it is one of those seen, and none of them is above it.
theorem best_spec (order : Value → Value → Ordering) [Std.TransCmp order] (first : Value)
    (rest : List Value) :
    let found := best (fun a b => order a b == .gt) first rest
    found ∈ first :: rest ∧ ∀ v ∈ first :: rest, (order v found).isLE := by
  induction rest generalizing first with
  | nil => simp [best, Std.ReflCmp.compare_self]
  | cons v rest ih =>
    obtain ⟨hbetter, hfirst, hv⟩ := isLE_better order first v
    obtain ⟨hmem, hle⟩ := ih (if order v first == .gt then v else first)
    intro found
    have hfound : found = best (fun a b => order a b == .gt)
      (if order v first == .gt then v else first) rest := rfl
    rw [← hfound, List.forall_mem_cons] at hle
    rw [← hfound, List.mem_cons] at hmem
    refine ⟨?_, List.forall_mem_cons.mpr ⟨?_, List.forall_mem_cons.mpr ⟨?_, hle.2⟩⟩⟩
    · rcases hmem with hbest | hrest
      · rcases hbetter with h | h <;> simp only [hbest, h, List.mem_cons, true_or, or_true]
      · exact List.mem_cons_of_mem _ (List.mem_cons_of_mem _ hrest)
    · exact Std.TransCmp.isLE_trans hfirst hle.1
    · exact Std.TransCmp.isLE_trans hv hle.1

theorem extreme_spec (order : Value → Value → Ordering) [Std.TransCmp order] (name : Text)
    {items : List Value} (h : items ≠ []) :
    ∃ v ∈ items, (extreme name fun a b => order a b == .gt).call [.list items] = .ok v ∧
      ∀ w ∈ items, (order w v).isLE := by
  obtain ⟨first, rest, rfl⟩ := List.exists_cons_of_ne_nil h
  obtain ⟨hmem, hle⟩ := best_spec order first rest
  exact ⟨_, hmem, rfl, hle⟩

-- In another order a different one of several extreme items may come first.
theorem extreme_perm (order : Value → Value → Ordering) [Std.TransCmp order] {name : Text}
    {items items' : List Value} {v : Value} (hperm : items.Perm items')
    (h : (extreme name fun a b => order a b == .gt).call [.list items] = .ok v) :
    ∃ v', (extreme name fun a b => order a b == .gt).call [.list items'] = .ok v' ∧
      v ∈ items ∧ v' ∈ items ∧ order v v' = .eq := by
  have hne : items ≠ [] := by
    rintro rfl
    cases h
  have hne' : items' ≠ [] := by
    rintro rfl
    exact hne hperm.eq_nil
  obtain ⟨w, hw, hwcall, hwle⟩ := extreme_spec order name hne
  obtain ⟨v', hv', hcall, hle⟩ := extreme_spec order name hne'
  obtain rfl : w = v := Except.ok.inj (hwcall.symm.trans h)
  rw [← hperm.mem_iff] at hv'
  refine ⟨v', hcall, hw, hv', ?_⟩
  exact Std.OrientedCmp.isLE_antisymm (hle w (hperm.mem_iff.mp hw)) (hwle v' hv')

-- The least item is the greatest in the opposite order.
theorem min_eq_extreme : min = extreme "min" fun a b => b.compare a == .gt := by
  have hbeats : (fun a b : Value => a.compare b == .lt) = fun a b => b.compare a == .gt := by
    funext a b
    rw [Value.compare_swap]
    cases b.compare a <;> rfl
  rw [min, hbeats]

-- What is selected has the rank that is asked for.
theorem selectRank_eq_ok_iff {items : List Value} {rank : Double} {v : Value} :
    selectRank items rank = .ok v ↔
      ∃ k : ℕ, rank.toInt? = some (k : ℤ) ∧ Value.ofRank? items k = some v := by
  rw [selectRank]
  cases hrank : rank.toInt? with
  | none => simp
  | some n =>
    by_cases hneg : n < 0
    · have hno : ∀ k : ℕ, n ≠ k := fun k => by omega
      simp [hneg, hno]
    · obtain ⟨k, rfl⟩ := Int.eq_ofNat_of_zero_le (Int.not_lt.mp hneg)
      simp only [if_neg hneg, Int.toNat_natCast]
      cases hfound : Value.ofRank? items k <;> simp [hfound]

-- A percentile of at least one item is the item whose rank is that fraction of the count.
theorem percentileOf_eq_selectRank {items : List Value} {p : Double} (hp : p.isFinite = true)
    (hnonneg : 0 ≤ p.value) (hlt : p.value < 1) (h : items ≠ []) :
    percentileOf items p = selectRank items (p * Double.ofNat items.length).floor := by
  have hzero : Double.lt p (Double.zero false) = false := by
    rw [Double.lt_eq_decide hp rfl, Double.value_zero]
    exact decide_eq_false (not_lt.mpr hnonneg)
  have hone : Double.lt p (Double.ofNat 1) = true := by
    obtain ⟨hf, hv⟩ := Double.value_ofNat_one
    rw [Double.lt_eq_decide hp hf, hv]
    exact decide_eq_true hlt
  simp only [percentileOf, hzero, hone, Double.isNaN_of_isFinite hp, List.isEmpty_iff, h]
  rfl

theorem exists_percentileOf {items : List Value} {p : Double} (hp : p.isFinite = true)
    (hnonneg : 0 ≤ p.value) (hlt : p.value < 1) (h : items ≠ []) (hmax : items.length < 2 ^ 1023) :
    ∃ v, percentileOf items p = .ok v := by
  obtain ⟨k, hk, hklt⟩ :=
    Double.floor_mul_ofNat hp hnonneg hlt (List.length_pos_iff.mpr h) hmax
  obtain ⟨v, hv, -⟩ := Value.ofRank?_hasRank hklt
  rw [percentileOf_eq_selectRank hp hnonneg hlt h]
  exact ⟨v, selectRank_eq_ok_iff.mpr ⟨k, hk, hv⟩⟩

-- The same items in another order have the same rank in the place of the percentile.
theorem percentileOf_perm {items items' : List Value} {p : Double} {v : Value}
    (hp : p.isFinite = true) (hnonneg : 0 ≤ p.value) (hlt : p.value < 1) (hperm : items.Perm items')
    (h : percentileOf items p = .ok v) :
    ∃ v', percentileOf items' p = .ok v' ∧ v ∈ items ∧ v' ∈ items ∧ v.compare v' = .eq := by
  have hne : items ≠ [] := by
    rintro rfl
    simp only [percentileOf] at h
    split at h <;> cases h
  have hne' : items' ≠ [] := by
    rintro rfl
    exact hne hperm.eq_nil
  rw [percentileOf_eq_selectRank hp hnonneg hlt hne, selectRank_eq_ok_iff] at h
  obtain ⟨k, hk, hv⟩ := h
  obtain ⟨hklt, hrank⟩ := Value.hasRank_of_ofRank? hv
  rw [hperm.length_eq] at hk hklt
  obtain ⟨v', hv', hrank'⟩ := Value.ofRank?_hasRank hklt
  have hrank'' := hrank'.perm hperm.symm
  refine ⟨v', ?_, hrank.mem, hrank''.mem, hrank.compare_eq hrank''⟩
  rw [percentileOf_eq_selectRank hp hnonneg hlt hne', selectRank_eq_ok_iff]
  exact ⟨k, hk, hv'⟩

end RecordQuery.Function
