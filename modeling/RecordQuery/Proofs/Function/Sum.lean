import RecordQuery.Proofs.Function.Reduction
import RecordQuery.Value.Arithmetic

/-!
Sums of integers. However far the partial sums leave the safe range, a sum is the exact one in its
canonical form, and only the sign of a zero tells more of what was added. So the items may come in any
order, and a sum may be gone on with from the sum of a first part.
-/

namespace RecordQuery.Function

-- The total is the exact sum in its canonical form, unless there are only negative zeros to add.
theorem sumOf_eq {items : List Value} {z : Value → ℤ} (h : ∀ v ∈ items, CountsAs v (z v))
    {start : Number} {s : ℤ} (hstart : start.IsCanonical s) :
    sumOf start items = .ok
      (if start = .negativeZero ∧ ∀ v ∈ items, v.numeric? = some .negativeZero then .negativeZero
        else .ofInt (s + (items.map z).sum)) := by
  induction items generalizing start s with
  | nil =>
    rw [sumOf, List.foldlM_nil]
    by_cases hzero : start = .negativeZero
    · rw [if_pos ⟨hzero, List.forall_mem_nil _⟩, hzero]
      rfl
    · rw [if_neg fun hall => hzero hall.1, List.map_nil, List.sum_nil, add_zero,
        ← hstart.eq_ofInt hzero]
      rfl
  | cons v rest ih =>
    rw [List.forall_mem_cons] at h
    obtain ⟨⟨n, hv, hn⟩, hrest⟩ := h
    have htotal := ih hrest (Number.add_isCanonical hstart hn)
    rw [sumOf_cons start hv, htotal, List.map_cons, List.sum_cons, add_assoc]
    simp only [Number.add_eq_negativeZero_iff hstart hn, List.forall_mem_cons, hv,
      Option.some.injEq, and_assoc]

theorem sumOf_perm {items items' : List Value} {z : Value → ℤ}
    (h : ∀ v ∈ items, CountsAs v (z v)) {start : Number} {s : ℤ} (hstart : start.IsCanonical s)
    (hperm : items.Perm items') : sumOf start items' = sumOf start items := by
  rw [sumOf_eq h hstart, sumOf_eq (fun v hv => h v (hperm.mem_iff.mpr hv)) hstart]
  simp only [hperm.mem_iff, (hperm.map z).sum_eq]

-- Adding goes on from the total of what was added before.
theorem sumOf_append (start : Number) (items more : List Value) :
    sumOf start (items ++ more) = sumOf start items >>= fun total => sumOf total more :=
  List.foldlM_append

theorem sum_call_start {seq start : Value} {items : List Value} {n : Number}
    (hseq : seq.iterated? = some items) (hstart : start.numeric? = some n) :
    sum.call [seq, start] = (sumOf n items).map .number := by
  change (itemsArgument "sum" (some seq) >>= fun items =>
    numberArgument "sum" (some start) >>= fun n =>
      sumOf n items >>= fun n => pure (Value.number n)) = _
  rw [itemsArgument_eq "sum" hseq, numberArgument_eq "sum" hstart]
  rfl

-- The sum of two sequences of one kind is the sequence of the items of both.
theorem exists_joined {seq rest : Value} {items more : List Value}
    (hseq : seq.iterated? = some items) (hkind : rest.kind = seq.kind)
    (hrest : rest.items? = some more) :
    ∃ joined, Value.binary (.exact .add) seq rest = .ok joined ∧
      joined.iterated? = some (items ++ more) ∧ rest.iterated? = some more := by
  cases rest with
  | list =>
    cases hrest
    cases seq with
    | list =>
      cases hseq
      exact ⟨.list _, rfl, rfl, rfl⟩
    | _ => cases hkind
  | tuple =>
    cases hrest
    cases seq with
    | tuple =>
      cases hseq
      exact ⟨.tuple _, rfl, rfl, rfl⟩
    | _ => cases hkind
  | _ => cases hrest

-- Sums of canonical integers are exact and canonical, with or without a start. The order of the
-- items does not even tell in the sign of zero, and a sum may be made in two parts.
theorem sum_exact {seq start : Value} {items : List Value} {z : Value → ℤ} {s : ℤ}
    (hseq : seq.iterated? = some items) (hitems : ∀ v ∈ items, CountsAs v (z v))
    (hstart : CountsAs start s) :
    (∃ n, sum.call [seq, start] = .ok (.number n) ∧ n.IsCanonical (s + (items.map z).sum)) ∧
    (∃ n, sum.call [seq] = .ok (.number n) ∧ n.IsCanonical (items.map z).sum) ∧
    (∀ seq' items', seq'.iterated? = some items' → items.Perm items' →
      sum.call [seq', start] = sum.call [seq, start] ∧ sum.call [seq'] = sum.call [seq]) ∧
    ∀ rest more, rest.kind = seq.kind → rest.items? = some more →
      (∀ v ∈ more, CountsAs v (z v)) →
      ∃ joined total n, Value.binary (.exact .add) seq rest = .ok joined ∧
        sum.call [seq] = .ok total ∧ sum.call [rest, total] = .ok (.number n) ∧
        sum.call [joined] = .ok (.number n) := by
  obtain ⟨m, hm, hcanonical⟩ := hstart
  obtain ⟨total, htotal, hexact⟩ := sumOf_isCanonical hitems isCanonical_zero
  have hcall : sum.call [seq] = .ok (.number total) := by
    rw [sum_call hseq, htotal, Except.map]
  refine ⟨?_, ⟨total, hcall, by rwa [zero_add] at hexact⟩, ?_, ?_⟩
  · obtain ⟨n, hn, hsum⟩ := sumOf_isCanonical hitems hcanonical
    refine ⟨n, ?_, hsum⟩
    rw [sum_call_start hseq hm, hn, Except.map]
  · intro seq' items' hseq' hperm
    rw [sum_call_start hseq' hm, sum_call_start hseq hm, sum_call hseq', sum_call hseq,
      sumOf_perm hitems hcanonical hperm, sumOf_perm hitems isCanonical_zero hperm]
    exact ⟨rfl, rfl⟩
  · intro rest more hkind hrest hmore
    obtain ⟨joined, hadd, hjoined, hiterated⟩ := exists_joined hseq hkind hrest
    obtain ⟨n, hn, -⟩ := sumOf_isCanonical hmore hexact
    refine ⟨joined, .number total, n, hadd, hcall, ?_, ?_⟩
    · have htotal' : (Value.number total).numeric? = some total := rfl
      rw [sum_call_start hiterated htotal', hn, Except.map]
    · have htwo : sumOf .zero (items ++ more) = .ok n := by
        rw [sumOf_append, htotal]
        exact hn
      rw [sum_call hjoined, htwo, Except.map]

-- The partial sums leave the safe range and come back to it.
theorem sum_exact_beyondSafe :
    let items : List Value := [.ofInt 9007199254740991, .bool true, .ofInt (-9007199254740994)]
    (∃ n, sum.call [.list items, .number .negativeZero] = .ok (.number n) ∧ n.IsCanonical (-2)) ∧
    (∃ n, sum.call [.list items] = .ok (.number n) ∧ n.IsCanonical (-2)) ∧
    (sum.call [.tuple items.reverse, .number .negativeZero] =
        sum.call [.list items, .number .negativeZero] ∧
      sum.call [.tuple items.reverse] = sum.call [.list items]) ∧
    ∃ joined total n, Value.binary (.exact .add) (.list items) (.list [.bool true]) = .ok joined ∧
      sum.call [.list items] = .ok total ∧ sum.call [.list [.bool true], total] = .ok (.number n) ∧
      sum.call [joined] = .ok (.number n) := by
  intro items
  let z : Value → ℤ := fun v => (v.numeric?.bind Number.toExact?).getD 0
  have htrue : CountsAs (.bool true) (z (.bool true)) := ⟨_, rfl, Number.isCanonical_ofInt 1⟩
  have hitems : ∀ v ∈ items, CountsAs v (z v) := by
    simp only [items, List.forall_mem_cons]
    exact ⟨⟨_, rfl, Number.isCanonical_ofInt 9007199254740991⟩, htrue,
      ⟨_, rfl, Number.isCanonical_ofInt (-9007199254740994)⟩, nofun⟩
  obtain ⟨hstart, hsum, hperm, hparts⟩ :=
    sum_exact (show (Value.list items).iterated? = some items from rfl) hitems
      (show CountsAs (.number .negativeZero) 0 from ⟨_, rfl, Number.isCanonical_negativeZero⟩)
  exact ⟨hstart, hsum, hperm (.tuple items.reverse) items.reverse rfl items.reverse_perm.symm,
    hparts (.list [.bool true]) [.bool true] rfl rfl (List.forall_mem_singleton.mpr htrue)⟩

end RecordQuery.Function
