import RecordQuery.Function.Sequence
import RecordQuery.Proofs.Function.Reduction
import RecordQuery.Proofs.Row.Stable
import RecordQuery.Proofs.Value.Selection

/-!
What is selected from a list is what a stable sort would bring to its place: the value of a rank is
equal to the one in that place of the sorted list, and the extremes are the first items of the lists
sorted up and down.
-/

namespace RecordQuery

namespace Value

-- The item of the sorted list in a place has that place as its rank.
theorem hasRank_sorted {values : List Value} {rank : Nat} {v : Value}
    (h : (sorted values)[rank]? = some v) : HasRank values rank v := by
  obtain ⟨hlt, hget⟩ := List.getElem?_eq_some_iff.mp h
  have hcut : sorted values = (sorted values).take rank ++ v :: (sorted values).drop (rank + 1) := by
    rw [← hget, ← List.drop_eq_getElem_cons hlt, List.take_append_drop]
  have hpairwise : (sorted values).Pairwise fun a b => (compare a b).isLE = true :=
    Row.sortBy_pairwise values
  have hperm : (sorted values).Perm values := List.mergeSort_perm values _
  rw [hcut, List.pairwise_append, List.pairwise_cons] at hpairwise
  obtain ⟨-, ⟨hafter, -⟩, hbefore⟩ := hpairwise
  refine ⟨_, _, hcut ▸ hperm.symm, List.length_take_of_le hlt.le, fun a ha => ?_, hafter⟩
  exact hbefore a ha v List.mem_cons_self

-- The value of a rank is equal to the one in that place of the sorted list.
theorem ofRank?_equals_sorted {values : List Value} {rank : Nat} (h : rank < values.length) :
    ∃ v w, ofRank? values rank = some v ∧ v ∈ values ∧ (sorted values)[rank]? = some w ∧
      v.equals w = true := by
  obtain ⟨v, hv, hrank⟩ := ofRank?_hasRank h
  have hlength : rank < (sorted values).length := by rwa [sorted, List.length_mergeSort]
  have hw : (sorted values)[rank]? = some (sorted values)[rank] := List.getElem?_eq_getElem hlength
  have heq : compare v (sorted values)[rank] = .eq := hrank.compare_eq (hasRank_sorted hw)
  exact ⟨v, _, hv, hrank.mem, hw, equals_iff.mpr ((compare_eq_iff _ _).mp heq)⟩

end Value

namespace Function

section

variable (order : Value → Value → Ordering) [Std.TransCmp order] {v first found : Value}

-- An item that was beaten is below what is found.
theorem ne_eq_of_beaten (hgt : order v first = .gt) (hv : (order v found).isLE = true) :
    order first found ≠ .eq := by
  intro heq
  have hle : (order v first).isLE = true :=
    Std.TransCmp.isLE_trans hv (Ordering.isLE_of_eq_eq (Std.OrientedCmp.eq_symm heq))
  rw [hgt] at hle
  cases hle

-- What did not beat an item that is below what is found is below that as well.
theorem ne_eq_of_not_beating (hgt : order v first ≠ .gt) (hfirst : (order first found).isLE = true)
    (htie : order first found ≠ .eq) : order v found ≠ .eq := by
  intro heq
  have hle : (order found first).isLE = true :=
    Std.TransCmp.isLE_trans (Ordering.isLE_of_eq_eq (Std.OrientedCmp.eq_symm heq))
      (Ordering.isLE_iff_ne_gt.mpr hgt)
  exact htie (Std.OrientedCmp.isLE_antisymm hfirst hle)

-- The best item so far is the first of those seen that tie with it.
theorem head?_ties_best (first : Value) (rest : List Value) :
    let found := best (fun a b => order a b == .gt) first rest
    (Row.ties order found (first :: rest)).head? = some found := by
  induction rest generalizing first with
  | nil =>
    have hself : order first first = .eq := Std.ReflCmp.compare_self
    simp [best, Row.ties, hself]
  | cons v rest ih =>
    intro found
    by_cases hgt : order v first = .gt
    · have hfound : found = best (fun a b => order a b == .gt) v rest := by
        simp [found, best, hgt]
      have hv : (order v found).isLE = true := by
        rw [hfound]
        exact (best_spec order v rest).2 v List.mem_cons_self
      have hhead : (Row.ties order found (v :: rest)).head? = some found := by
        rw [hfound]
        exact ih v
      rw [Row.ties, List.filter_cons_of_neg (by simpa using ne_eq_of_beaten order hgt hv)]
      exact hhead
    · have hfound : found = best (fun a b => order a b == .gt) first rest := by
        simp [found, best, hgt]
      have hfirst : (order first found).isLE = true := by
        rw [hfound]
        exact (best_spec order first rest).2 first List.mem_cons_self
      have hhead : (Row.ties order found (first :: rest)).head? = some found := by
        rw [hfound]
        exact ih first
      by_cases htie : order first found = .eq
      · rw [Row.ties, List.filter_cons_of_pos (by simpa using htie)] at hhead ⊢
        exact hhead
      · have hv : order v found ≠ .eq := ne_eq_of_not_beating order hgt hfirst htie
        rw [Row.ties, List.filter_cons_of_neg (by simpa using htie)] at hhead ⊢
        rwa [List.filter_cons_of_neg (by simpa using hv)]

end

-- The best item comes first when the items are sorted from the best down.
theorem head?_sortBy_best (order : Value → Value → Ordering) [Std.TransCmp order] (first : Value)
    (rest : List Value) :
    (Row.sortBy (fun a b => order b a) (first :: rest)).head? =
      some (best (fun a b => order a b == .gt) first rest) := by
  apply Row.head?_sortBy
  · exact (best_spec order first rest).2
  · rw [← head?_ties_best order first rest, Row.ties, Row.ties]
    congr 2
    funext b
    rw [decide_eq_decide]
    exact ⟨Std.OrientedCmp.eq_symm, Std.OrientedCmp.eq_symm⟩

-- An extreme is the first item of the list sorted from there.
theorem extreme_eq_sortBy (order : Value → Value → Ordering) [Std.TransCmp order] (name : Text)
    {seq : Value} {items : List Value} (hseq : seq.iterated? = some items) (h : items ≠ []) :
    ∃ v rest, (extreme name fun a b => order a b == .gt).call [seq] = .ok v ∧
      Row.sortBy (fun a b => order b a) items = v :: rest := by
  obtain ⟨first, rest, rfl⟩ := List.exists_cons_of_ne_nil h
  obtain ⟨sorted, hsorted⟩ := List.head?_eq_some_iff.mp (head?_sortBy_best order first rest)
  refine ⟨_, sorted, ?_, hsorted⟩
  simp only [extreme, itemsArgument, Option.bind_some, hseq]
  rfl

theorem sorted_call {seq : Value} {items : List Value} (hseq : seq.iterated? = some items) :
    sorted.call [seq] = .ok (.list (Value.sorted items)) ∧
      sorted.call [seq, .bool true] = .ok (.list (Value.sortedDescending items)) := by
  simp only [sorted, fixed, itemsArgument, List.getElem?_cons_zero, Option.bind_some, hseq]
  exact ⟨rfl, rfl⟩

theorem percentile_call {seq fraction : Value} {items : List Value} {p : Double}
    (hseq : seq.iterated? = some items) (hp : doubleArgument "percentile" (some fraction) = .ok p) :
    percentile.call [seq, fraction] = percentileOf items p := by
  simp only [percentile, fixed, itemsArgument, List.getElem?_cons_zero, Option.bind_some, hseq,
    List.getElem?_cons_succ, hp]
  rfl

-- What is selected from the items of a sequence, against the same items sorted. A search for a rank
-- has just one run, and this reads no value that is not there. A count that is no double (it would
-- be `2 ^ 1023` at least) has no fractions.
theorem selected_eq_sorted {seq : Value} {items : List Value} (hseq : seq.iterated? = some items) :
    (∀ k < items.length, ∃ v w, Value.ofRank? items k = some v ∧
      (∀ u, Value.Selects k items.toArray 0 items.length u ↔ u = v) ∧ v ∈ items ∧
      (Value.sorted items)[k]? = some w ∧ v.equals w = true) ∧
    (∀ fraction p, doubleArgument "percentile" (some fraction) = .ok p → p.isFinite = true →
      0 ≤ p.value → p.value < 1 → items ≠ [] → items.length < 2 ^ 1023 →
      ∃ (k : ℕ) (v : Value), (p * Double.ofNat items.length).floor.toInt? = some (k : ℤ) ∧
        k < items.length ∧ Value.ofRank? items k = some v ∧
        percentile.call [seq, fraction] = .ok v) ∧
    (items ≠ [] → ∃ least greatest above below,
      min.call [seq] = .ok least ∧ sorted.call [seq] = .ok (.list (least :: above)) ∧
      max.call [seq] = .ok greatest ∧
      sorted.call [seq, .bool true] = .ok (.list (greatest :: below))) := by
  refine ⟨fun k hk => ?_, fun fraction p hp hfinite hnonneg hlt hne hmax => ?_, fun hne => ?_⟩
  · obtain ⟨v, w, hv, hmem, hw, hequals⟩ := Value.ofRank?_equals_sorted hk
    refine ⟨v, w, hv, fun u => ?_, hmem, hw, hequals⟩
    rw [Value.selects_iff_ofRank? hk, hv, Option.some.injEq, eq_comm]
  · obtain ⟨v, hv⟩ := exists_percentileOf hfinite hnonneg hlt hne hmax
    have hselect := hv
    rw [percentileOf_eq_selectRank hfinite hnonneg hlt hne, selectRank_eq_ok_iff] at hselect
    obtain ⟨k, hk, hrank⟩ := hselect
    exact ⟨k, v, hk, (Value.hasRank_of_ofRank? hrank).1, hrank, by rw [percentile_call hseq hp, hv]⟩
  · obtain ⟨hup, hdown⟩ := sorted_call hseq
    obtain ⟨least, above, hmin, habove⟩ := extreme_eq_sortBy (fun a b => b.compare a) "min" hseq hne
    obtain ⟨greatest, below, hmaximum, hbelow⟩ := extreme_eq_sortBy Value.compare "max" hseq hne
    refine ⟨least, greatest, above, below, by rw [min_eq_extreme, hmin], ?_, hmaximum, ?_⟩
    · rw [hup, ← habove]
      rfl
    · rw [hdown, ← hbelow]
      rfl

-- Two items that are equal, one that is no number, and a fraction that falls on the third place.
theorem selected_eq_sorted_half :
    let half := Double.finite false 0x10000000000000 (-53) (by decide)
    let items : List Value := [.ofNat 2, .number (.float .nan), .null, .ofNat 2]
    2 < items.length ∧ (∃ v w, Value.ofRank? items 2 = some v ∧
      (∀ u, Value.Selects 2 items.toArray 0 items.length u ↔ u = v) ∧ v ∈ items ∧
      (Value.sorted items)[2]? = some w ∧ v.equals w = true) ∧
    half.value = 1 / 2 ∧
    (∃ (k : ℕ) (v : Value), (half * Double.ofNat items.length).floor.toInt? = some (k : ℤ) ∧
      k < items.length ∧ Value.ofRank? items k = some v ∧
      percentile.call [.tuple items, .number (.float half)] = .ok v) ∧
    ∃ above, min.call [.tuple items] = .ok .null ∧
      sorted.call [.tuple items] = .ok (.list (.null :: above)) := by
  intro half items
  have hhalf : half.value = 1 / 2 := by norm_num [half, Double.value, Double.signed]
  have hmax : items.length < 2 ^ 1023 := by
    apply lt_of_lt_of_le (show items.length < 2 ^ 3 by decide)
    apply Nat.pow_le_pow_right <;> norm_num
  obtain ⟨hrank, hpercentile, hextremes⟩ :=
    selected_eq_sorted (show (Value.tuple items).iterated? = some items from rfl)
  have hne : items ≠ [] := List.cons_ne_nil _ _
  have hnull : min.call [.tuple items] = .ok .null := rfl
  obtain ⟨least, _, above, _, hleast, hsorted, -⟩ := hextremes hne
  obtain rfl : Value.null = least := Except.ok.inj (hnull.symm.trans hleast)
  refine ⟨by decide, hrank 2 (by decide), hhalf, ?_, above, hnull, hsorted⟩
  exact hpercentile _ half rfl rfl (by rw [hhalf]; norm_num) (by rw [hhalf]; norm_num) hne hmax

end Function

end RecordQuery
