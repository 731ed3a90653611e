import Mathlib.Logic.Equiv.Basic
import RecordQuery.Proofs.Value.Order
import RecordQuery.Value.Rank

/-!
The value that is found for a rank has that rank: so many of the other values come before it in the
order, and the rest after it. The search keeps the place of the rank between two cuts, none of the
values before a cut being above one behind it, and each round splits the values between the cuts
around a pivot.
-/

namespace RecordQuery.Value

variable {values : Array Value} {pivot v : Value} {first stop i lower place : Nat}

-- The scans pass over values on their side of the pivot only, and stop at one that is not.
theorem compare_of_lt_scanUp (hi : i ≤ place) (hplace : place < scanUp values pivot i)
    (hv : values[place]? = some v) : compare v pivot = .lt := by
  fun_induction scanUp values pivot i with
  | case1 i hsize hlt ih =>
    rcases hi.eq_or_lt with rfl | hi
    · rw [Array.getElem?_eq_getElem hsize, Option.some.injEq] at hv
      rw [← hv, beq_iff_eq.mp hlt]
    · exact ih hi hplace
  | case2 => omega
  | case3 => omega

theorem compare_scanUp (hv : values[scanUp values pivot i]? = some v) : compare v pivot ≠ .lt := by
  fun_induction scanUp values pivot i with
  | case1 i hsize hlt ih => exact ih hv
  | case2 i hsize hlt =>
    rw [Array.getElem?_eq_getElem hsize, Option.some.injEq] at hv
    rwa [hv, beq_iff_eq] at hlt
  | case3 i hsize =>
    rw [Array.getElem?_eq_none (Nat.le_of_not_lt hsize)] at hv
    cases hv

theorem compare_of_scanDown_le (hplace : scanDown values pivot stop ≤ place) (hstop : place < stop)
    (hv : values[place]? = some v) : compare v pivot = .gt := by
  fun_induction scanDown values pivot stop with
  | case1 => omega
  | case2 stop hsize hgt ih =>
    rcases (Nat.le_of_lt_succ hstop).eq_or_lt with rfl | hstop
    · rw [Array.getElem?_eq_getElem hsize, Option.some.injEq] at hv
      rw [← hv, beq_iff_eq.mp hgt]
    · exact ih hplace hstop
  | case3 => omega
  | case4 => omega

theorem compare_scanDown (hplace : scanDown values pivot stop = place + 1)
    (hv : values[place]? = some v) : compare v pivot ≠ .gt := by
  fun_induction scanDown values pivot stop with
  | case1 => omega
  | case2 stop hsize hgt ih => exact ih hplace
  | case3 stop hsize hgt =>
    obtain rfl : stop = place := by omega
    rw [Array.getElem?_eq_getElem hsize, Option.some.injEq] at hv
    rwa [hv, beq_iff_eq] at hgt
  | case4 stop hsize =>
    obtain rfl : stop = place := by omega
    rw [Array.getElem?_eq_none (Nat.le_of_not_lt hsize)] at hv
    cases hv

-- The values from `first` to before `i` are not above the pivot, and those from `lower` to before
-- `stop` not below it.
structure Split (values : Array Value) (pivot : Value) (first i lower stop : Nat) : Prop where
  not_gt : ∀ place v, first ≤ place → place < i → values[place]? = some v → compare v pivot ≠ .gt
  not_lt : ∀ place v, lower ≤ place → place < stop → values[place]? = some v → compare v pivot ≠ .lt

theorem Split.scan (h : Split values pivot first i lower stop) :
    Split values pivot first (scanUp values pivot i) (scanDown values pivot lower) stop where
  not_gt place v hfirst hplace hv := by
    by_cases hi : place < i
    · exact h.not_gt place v hfirst hi hv
    · simp [compare_of_lt_scanUp (Nat.le_of_not_lt hi) hplace hv]
  not_lt place v hplace hstop hv := by
    by_cases hlower : lower ≤ place
    · exact h.not_lt place v hlower hstop hv
    · simp [compare_of_scanDown_le hplace (Nat.lt_of_not_le hlower) hv]

theorem getElem?_swapIfInBounds {p q : Nat} (hp : p < values.size) (hq : q < values.size) :
    (values.swapIfInBounds p q)[place]? = values[Equiv.swap p q place]? := by
  rw [Array.swapIfInBounds_def, dif_pos hp, dif_pos hq, Array.getElem?_swap, Equiv.swap_apply_def]
  grind

theorem swapIfInBounds_perm (values : Array Value) (p q : Nat) :
    (values.swapIfInBounds p q).Perm values := by
  rw [Array.swapIfInBounds_def]
  split
  · split
    · exact Array.swap_perm _ _
    · rfl
  · rfl

-- Where the scans stopped, the values change places and are then on their sides.
theorem Split.swap {up down : Nat} (h : Split values pivot first up (down + 1) stop)
    (hup : up ≤ down) (hdown : down < stop) (hstop : stop ≤ values.size)
    (hge : ∀ v, values[up]? = some v → compare v pivot ≠ .lt)
    (hle : ∀ v, values[down]? = some v → compare v pivot ≠ .gt) :
    Split (values.swapIfInBounds up down) pivot first (up + 1) down stop where
  not_gt place v hfirst hplace hv := by
    rw [getElem?_swapIfInBounds (by omega) (by omega)] at hv
    rcases (Nat.le_of_lt_succ hplace).eq_or_lt with rfl | hlt
    · rw [Equiv.swap_apply_left] at hv
      exact hle v hv
    · rw [Equiv.swap_apply_of_ne_of_ne (by omega) (by omega)] at hv
      exact h.not_gt place v hfirst hlt hv
  not_lt place v hplace hlt hv := by
    rw [getElem?_swapIfInBounds (by omega) (by omega)] at hv
    rcases hplace.eq_or_lt with rfl | hgt
    · rw [Equiv.swap_apply_right] at hv
      exact hge v hv
    · rw [Equiv.swap_apply_of_ne_of_ne (by omega) (by omega)] at hv
      exact h.not_lt place v hgt hlt hv

-- No value before the cut is above one behind it.
def Cut (values : Array Value) (cut : Nat) : Prop :=
  ∀ p q a b, p < cut → cut ≤ q → values[p]? = some a → values[q]? = some b → (compare a b).isLE

-- Changing places on one side of a cut does not touch it.
theorem Cut.swap {cut p q : Nat} (h : Cut values cut) (hp : p < values.size) (hq : q < values.size)
    (hside : p < cut ↔ q < cut) : Cut (values.swapIfInBounds p q) cut := by
  have hkeep : ∀ place, Equiv.swap p q place < cut ↔ place < cut := by
    intro place
    rw [Equiv.swap_apply_def]
    grind
  intro r s a b hr hs ha hb
  rw [getElem?_swapIfInBounds hp hq] at ha hb
  have hs' : cut ≤ Equiv.swap p q s := by
    rwa [← not_lt, hkeep s, not_lt]
  exact h _ _ a b ((hkeep r).mpr hr) hs' ha hb

-- The values between `first` and `stop` have been split around the pivot, with the scans past each
-- other, and cuts that are not between these places are still there.
structure Parted (values : Array Value) (pivot : Value) (first stop : Nat) (p : Partition) :
    Prop where
  perm : p.values.Perm values
  split : Split p.values pivot first p.upper p.lower stop
  lower_le_upper : p.lower ≤ p.upper
  cut : ∀ cut, cut ≤ first ∨ stop ≤ cut → Cut values cut → Cut p.values cut

theorem partition_parted (hfirst : first ≤ i) (hlower : lower ≤ stop) (hstop : stop ≤ values.size)
    (h : Split values pivot first i lower stop) :
    Parted values pivot first stop (partition values pivot i lower) := by
  fun_induction partition values pivot i lower with
  | case1 values i lower hlt up down hmet ih =>
    have hup : i ≤ up := le_scanUp values pivot i
    have hdown : down ≤ lower := scanDown_le values pivot lower
    have hsplit : Split values pivot first up down stop := h.scan
    obtain ⟨last, hlast⟩ : ∃ last, down = last + 1 := ⟨down - 1, by omega⟩
    rw [hlast] at hsplit
    rw [hlast, Nat.add_sub_cancel] at ih ⊢
    have hnext := hsplit.swap (by omega) (by omega) hstop (fun _ => compare_scanUp) fun _ =>
      compare_scanDown hlast
    obtain ⟨hperm, hparts, hle, hcuts⟩ := ih (by omega) (by omega) (by simpa using hstop) hnext
    refine ⟨hperm.trans (swapIfInBounds_perm _ _ _), hparts, hle, fun cut hside hcut => ?_⟩
    exact hcuts cut hside (hcut.swap (by omega) (by omega) (by omega))
  | case2 values i lower hlt up down hmet =>
    exact ⟨.rfl, h.scan, Nat.le_of_not_lt hmet, fun _ _ hcut => hcut⟩
  | case3 values i lower hge => exact ⟨.rfl, h, Nat.le_of_not_lt hge, fun _ _ hcut => hcut⟩

theorem le_upper (values : Array Value) (pivot : Value) (i lower : Nat) :
    i ≤ (partition values pivot i lower).upper := by
  fun_induction partition values pivot i lower with
  | case1 values i lower _ up _ _ ih =>
    have hup : i ≤ up := le_scanUp values pivot i
    omega
  | case2 values i lower => exact le_scanUp values pivot i
  | case3 => exact Nat.le_refl _

theorem lower_le (values : Array Value) (pivot : Value) (i lower : Nat) :
    (partition values pivot i lower).lower ≤ lower := by
  fun_induction partition values pivot i lower with
  | case1 values i lower _ _ down _ ih =>
    have hdown : down ≤ lower := scanDown_le values pivot lower
    omega
  | case2 values i lower => exact scanDown_le values pivot lower
  | case3 => exact Nat.le_refl _

-- The pivot stops both scans, so the first round passes over a place on either side.
theorem partition_progress (hfirst : first ≤ place) (hplace : place < stop)
    (hpivot : values[place]? = some pivot) :
    first < (partition values pivot first stop).upper ∧
      (partition values pivot first stop).lower < stop := by
  have hself : compare pivot pivot = .eq := Std.ReflCmp.compare_self
  have hup : scanUp values pivot first ≤ place := by
    by_contra hlt
    simpa [hself] using compare_of_lt_scanUp hfirst (Nat.lt_of_not_le hlt) hpivot
  have hdown : place < scanDown values pivot stop := by
    by_contra hle
    simpa [hself] using compare_of_scanDown_le (Nat.le_of_not_lt hle) hplace hpivot
  have hupper := le_upper (values.swapIfInBounds (scanUp values pivot first)
    (scanDown values pivot stop - 1)) pivot (scanUp values pivot first + 1)
    (scanDown values pivot stop - 1)
  have hlower := lower_le (values.swapIfInBounds (scanUp values pivot first)
    (scanDown values pivot stop - 1)) pivot (scanUp values pivot first + 1)
    (scanDown values pivot stop - 1)
  have hscanUp := le_scanUp values pivot first
  have hscanDown := scanDown_le values pivot stop
  rw [partition, if_pos (by omega)]
  simp only [if_pos (show scanUp values pivot first < scanDown values pivot stop by omega)]
  omega

-- A cut where one scan met the other: what is in front of it is at most the pivot, and what is
-- behind it at least.
theorem Parted.cut_between {p : Partition} {cut : Nat} (h : Parted values pivot first stop p)
    (hfirst : Cut values first) (hstop : Cut values stop) (hlower : p.lower ≤ cut)
    (hupper : cut ≤ p.upper) (hle : first ≤ cut) (hge : cut ≤ stop) : Cut p.values cut := by
  intro r s a b hr hs ha hb
  by_cases hrfirst : r < first
  · exact h.cut first (.inl le_rfl) hfirst r s a b hrfirst (by omega) ha hb
  by_cases hsstop : stop ≤ s
  · exact h.cut stop (.inr le_rfl) hstop r s a b (by omega) hsstop ha hb
  have hapivot : (compare a pivot).isLE :=
    Ordering.isLE_iff_ne_gt.mpr (h.split.not_gt r a (by omega) (by omega) ha)
  have hpivotb : (compare pivot b).isLE := by
    rw [compare_swap, Ordering.isLE_swap]
    exact Ordering.isGE_iff_ne_lt.mpr (h.split.not_lt s b (by omega) (by omega) hb)
  exact Std.TransCmp.isLE_trans hapivot hpivotb

theorem parted_of_pivot {p : Partition} (hround : first + 1 < stop) (hsize : stop ≤ values.size)
    (hpivot : values[first + (stop - 1 - first) / 2]? = some pivot)
    (hp : partition values pivot first stop = p) :
    Parted values pivot first stop p ∧ first < p.upper ∧ p.lower < stop := by
  have hstart : Split values pivot first first stop stop :=
    ⟨fun _ _ _ _ => by omega, fun _ _ _ _ => by omega⟩
  subst hp
  exact ⟨partition_parted le_rfl le_rfl hsize hstart,
    partition_progress (by omega) (by omega) hpivot⟩

-- The invariant of the search: the rank is between two cuts. What is found is in its place, none of
-- the values before it above it and none of those behind it below.
theorem rankFrom_cuts {rank : Nat} (hfirst : Cut values first) (hstop : Cut values stop)
    (hsize : stop ≤ values.size) (hle : first ≤ rank) (hlt : rank < stop) :
    ∃ (parts : Array Value) (v : Value), rankFrom values rank first stop = some v ∧
      parts.Perm values ∧ parts[rank]? = some v ∧ Cut parts rank ∧ Cut parts (rank + 1) := by
  fun_induction rankFrom values rank first stop with
  | case1 values first stop hround hnone =>
    rw [Array.getElem?_eq_none_iff] at hnone
    omega
  | case2 values first stop hround pivot hpivot parts upper lower hparts hlower hshorter ih =>
    obtain ⟨hparted, -, -⟩ := parted_of_pivot hround hsize hpivot hparts
    have hcut : Cut parts lower :=
      hparted.cut_between hfirst hstop le_rfl hparted.lower_le_upper (by omega) (by omega)
    have hsize' : parts.size = values.size := hparted.perm.size_eq
    obtain ⟨found, v, hv, hperm, hplace, hcuts⟩ :=
      ih (hparted.cut first (.inl le_rfl) hfirst) hcut (by omega) hle hlower
    exact ⟨found, v, hv, hperm.trans hparted.perm, hplace, hcuts⟩
  | case3 values first stop hround pivot hpivot parts upper lower hparts hlower hshorter =>
    exact absurd (parted_of_pivot hround hsize hpivot hparts).2.2 hshorter
  | case4 values first stop hround pivot hpivot parts upper lower hparts hlower hupper hshorter ih =>
    obtain ⟨hparted, -, -⟩ := parted_of_pivot hround hsize hpivot hparts
    have hcut : Cut parts upper :=
      hparted.cut_between hfirst hstop hparted.lower_le_upper le_rfl (by omega) (by omega)
    have hsize' : parts.size = values.size := hparted.perm.size_eq
    obtain ⟨found, v, hv, hperm, hplace, hcuts⟩ :=
      ih hcut (hparted.cut stop (.inr le_rfl) hstop) (by omega) hupper hlt
    exact ⟨found, v, hv, hperm.trans hparted.perm, hplace, hcuts⟩
  | case5 values first stop hround pivot hpivot parts upper lower hparts hlower hupper hshorter =>
    exact absurd (parted_of_pivot hround hsize hpivot hparts).2.1 hshorter
  | case6 values first stop hround pivot hpivot parts upper lower hparts hlower hupper =>
    obtain ⟨hparted, -, -⟩ := parted_of_pivot hround hsize hpivot hparts
    have hsize' : parts.size = values.size := hparted.perm.size_eq
    have hplace : rank < parts.size := by omega
    refine ⟨parts, parts[rank], Array.getElem?_eq_getElem hplace, hparted.perm,
      Array.getElem?_eq_getElem hplace, ?_, ?_⟩
    · exact hparted.cut_between hfirst hstop (Nat.le_of_not_lt hlower) (Nat.le_of_not_le hupper) hle
        (by omega)
    · exact hparted.cut_between hfirst hstop (Nat.le_succ_of_le (Nat.le_of_not_lt hlower))
        (Nat.lt_of_not_le hupper) (by omega) hlt
  | case7 values first stop hround =>
    obtain rfl : first = rank := by omega
    obtain rfl : stop = first + 1 := by omega
    have hplace : first < values.size := hsize
    exact ⟨values, values[first], Array.getElem?_eq_getElem hplace, .rfl,
      Array.getElem?_eq_getElem hplace, hfirst, hstop⟩

-- A value that has so many of the others before it in the order and the rest after it.
def HasRank (values : List Value) (rank : Nat) (v : Value) : Prop :=
  ∃ before after, values.Perm (before ++ v :: after) ∧ before.length = rank ∧
    (∀ a ∈ before, (compare a v).isLE) ∧ ∀ b ∈ after, (compare v b).isLE

theorem HasRank.mem {values : List Value} {rank : Nat} (h : HasRank values rank v) : v ∈ values := by
  obtain ⟨before, after, hperm, -⟩ := h
  exact hperm.mem_iff.mpr (by simp)

theorem HasRank.perm {values values' : List Value} {rank : Nat} (h : HasRank values rank v)
    (hperm : values.Perm values') : HasRank values' rank v := by
  obtain ⟨before, after, hvalues, hrest⟩ := h
  exact ⟨before, after, hperm.symm.trans hvalues, hrest⟩

-- Values of the same rank do not differ in the order: if one were above the other, there would be
-- more values not above the other than its rank allows.
theorem HasRank.isLE {values : List Value} {rank : Nat} {w : Value} (hv : HasRank values rank v)
    (hw : HasRank values rank w) : (compare v w).isLE := by
  by_contra hgt
  obtain ⟨before, after, hperm, hlength, -, hafter⟩ := hv
  obtain ⟨before', after', hperm', hlength', hbefore', -⟩ := hw
  have hself : compare w w = .eq := Std.ReflCmp.compare_self
  have hfew : values.countP (fun a => (compare a w).isLE) ≤ rank := by
    have hnone : (v :: after).countP (fun a => (compare a w).isLE) = 0 := by
      rw [List.countP_eq_zero, List.forall_mem_cons]
      exact ⟨hgt, fun b hb hle => hgt (Std.TransCmp.isLE_trans (hafter b hb) hle)⟩
    rw [hperm.countP_eq, List.countP_append, hnone, Nat.add_zero, ← hlength]
    exact List.countP_le_length
  have hmany : rank < values.countP fun a => (compare a w).isLE := by
    have hall : (w :: after').countP (fun a => (compare a w).isLE) =
        after'.countP (fun a => (compare a w).isLE) + 1 := by
      simp [hself]
    rw [hperm'.countP_eq, List.countP_append, List.countP_eq_length.mpr hbefore', hall]
    omega
  omega

theorem HasRank.compare_eq {values : List Value} {rank : Nat} {w : Value}
    (hv : HasRank values rank v) (hw : HasRank values rank w) : compare v w = .eq :=
  Std.OrientedCmp.isLE_antisymm (hv.isLE hw) (hw.isLE hv)

theorem hasRank_of_cuts {rank : Nat} (hv : values[rank]? = some v) (hbefore : Cut values rank)
    (hafter : Cut values (rank + 1)) : HasRank values.toList rank v := by
  have hlist : values.toList[rank]? = some v := by rwa [Array.getElem?_toList]
  obtain ⟨hlt, hget⟩ := List.getElem?_eq_some_iff.mp hlist
  refine ⟨values.toList.take rank, values.toList.drop (rank + 1), ?_, ?_, fun a ha => ?_,
    fun b hb => ?_⟩
  · rw [← hget, ← List.drop_eq_getElem_cons hlt, List.take_append_drop]
  · exact List.length_take_of_le hlt.le
  · obtain ⟨p, hp⟩ := List.mem_iff_getElem?.mp ha
    have hlt : p < rank := by
      have := (List.getElem?_eq_some_iff.mp hp).1
      rw [List.length_take] at this
      omega
    rw [List.getElem?_take_of_lt hlt, Array.getElem?_toList] at hp
    exact hbefore p rank a v hlt le_rfl hp hv
  · obtain ⟨q, hq⟩ := List.mem_iff_getElem?.mp hb
    rw [List.getElem?_drop, Array.getElem?_toList] at hq
    exact hafter rank (rank + 1 + q) v b (by omega) (by omega) hv hq

-- The search finds a value of the rank, whatever the order of the values is.
theorem ofRank?_hasRank {values : List Value} {rank : Nat} (h : rank < values.length) :
    ∃ v, ofRank? values rank = some v ∧ HasRank values rank v := by
  have hfirst : Cut values.toArray 0 := fun _ _ _ _ hp => absurd hp (Nat.not_lt_zero _)
  have hstop : Cut values.toArray values.length := by
    intro p q a b _ hq _ hb
    rw [Array.getElem?_eq_none (by simpa using hq)] at hb
    cases hb
  obtain ⟨parts, v, hv, hperm, hplace, hcut, hcut'⟩ :=
    rankFrom_cuts hfirst hstop (by simp) (Nat.zero_le rank) h
  refine ⟨v, by rw [ofRank?, if_pos h, hv], ?_⟩
  exact (hasRank_of_cuts hplace hcut hcut').perm (Array.perm_iff_toList_perm.mp hperm)

theorem hasRank_of_ofRank? {values : List Value} {rank : Nat} (h : ofRank? values rank = some v) :
    rank < values.length ∧ HasRank values rank v := by
  have hlt : rank < values.length := by
    by_contra hge
    rw [ofRank?, if_neg hge] at h
    cases h
  obtain ⟨w, hw, hrank⟩ := ofRank?_hasRank hlt
  obtain rfl : v = w := Option.some.inj (h.symm.trans hw)
  exact ⟨hlt, hrank⟩

end RecordQuery.Value
