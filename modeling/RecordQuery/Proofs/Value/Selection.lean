import RecordQuery.Proofs.Value.Rank

/-!
The search for a rank reads no value that is not there. Its loops are given here without any check of
the places they read: a run of a loop is a derivation, which has to find a value at each place it
looks at, and which is finite. Every search has just one such run, and it ends at the value that the
search gives.
-/

namespace RecordQuery.Value

-- A run of the scan from `i` on that ends at `up`.
inductive ScansUp (values : Array Value) (pivot : Value) : Nat → Nat → Prop
  | stop {i v} (hv : values[i]? = some v) (h : compare v pivot ≠ .lt) : ScansUp values pivot i i
  | step {i up v} (hv : values[i]? = some v) (h : compare v pivot = .lt)
      (rest : ScansUp values pivot (i + 1) up) : ScansUp values pivot i up

-- A run of the scan back from before `stop`. There is no place before the first one.
inductive ScansDown (values : Array Value) (pivot : Value) : Nat → Nat → Prop
  | stop {i v} (hv : values[i]? = some v) (h : compare v pivot ≠ .gt) :
      ScansDown values pivot (i + 1) (i + 1)
  | step {i down v} (hv : values[i]? = some v) (h : compare v pivot = .gt)
      (rest : ScansDown values pivot i down) : ScansDown values pivot (i + 1) down

-- A run of the rounds that split the values between `i` and `stop` around the pivot.
inductive Partitions (pivot : Value) : Array Value → Nat → Nat → Partition → Prop
  | met {values i stop} (h : stop ≤ i) : Partitions pivot values i stop ⟨values, i, stop⟩
  | crossed {values i stop up down} (h : i < stop) (hup : ScansUp values pivot i up)
      (hdown : ScansDown values pivot stop down) (hcross : down ≤ up) :
      Partitions pivot values i stop ⟨values, up, down⟩
  | swapped {values i stop up down p} (h : i < stop) (hup : ScansUp values pivot i up)
      (hdown : ScansDown values pivot stop (down + 1)) (hlt : up ≤ down)
      (rest : Partitions pivot (values.swapIfInBounds up down) (up + 1) down p) :
      Partitions pivot values i stop p

-- A run of the search between `first` and `stop`.
inductive Selects (rank : Nat) : Array Value → Nat → Nat → Value → Prop
  | single {values first stop v} (h : stop ≤ first + 1) (hv : values[rank]? = some v) :
      Selects rank values first stop v
  | left {values first stop pivot p v} (h : first + 1 < stop)
      (hpivot : values[first + (stop - 1 - first) / 2]? = some pivot)
      (hp : Partitions pivot values first stop p) (hlower : rank < p.lower)
      (rest : Selects rank p.values first p.lower v) : Selects rank values first stop v
  | right {values first stop pivot p v} (h : first + 1 < stop)
      (hpivot : values[first + (stop - 1 - first) / 2]? = some pivot)
      (hp : Partitions pivot values first stop p) (hlower : p.lower ≤ rank) (hupper : p.upper ≤ rank)
      (rest : Selects rank p.values p.upper stop v) : Selects rank values first stop v
  | between {values first stop pivot p v} (h : first + 1 < stop)
      (hpivot : values[first + (stop - 1 - first) / 2]? = some pivot)
      (hp : Partitions pivot values first stop p) (hlower : p.lower ≤ rank) (hupper : rank < p.upper)
      (hv : p.values[rank]? = some v) : Selects rank values first stop v

-- There is a value that stops the scan up, and one that stops the scan down.
structure Guarded (values : Array Value) (pivot : Value) (i stop : Nat) : Prop where
  up : ∃ place v, i ≤ place ∧ values[place]? = some v ∧ compare v pivot ≠ .lt
  down : ∃ place v, place < stop ∧ values[place]? = some v ∧ compare v pivot ≠ .gt

variable {values : Array Value} {pivot v : Value} {rank first stop i up down : Nat} {p : Partition}

theorem ScansUp.scanUp_eq (h : ScansUp values pivot i up) : scanUp values pivot i = up := by
  induction h with
  | stop hv h =>
    obtain ⟨hsize, hget⟩ := Array.getElem?_eq_some_iff.mp hv
    rw [scanUp, dif_pos hsize, hget, if_neg (by simpa using h)]
  | step hv h _ ih =>
    obtain ⟨hsize, hget⟩ := Array.getElem?_eq_some_iff.mp hv
    rw [scanUp, dif_pos hsize, hget, if_pos (by simpa using h), ih]

theorem ScansDown.scanDown_eq (h : ScansDown values pivot stop down) :
    scanDown values pivot stop = down := by
  induction h with
  | stop hv h =>
    obtain ⟨hsize, hget⟩ := Array.getElem?_eq_some_iff.mp hv
    rw [scanDown, dif_pos hsize, hget, if_neg (by simpa using h)]
  | step hv h _ ih =>
    obtain ⟨hsize, hget⟩ := Array.getElem?_eq_some_iff.mp hv
    rw [scanDown, dif_pos hsize, hget, if_pos (by simpa using h), ih]

theorem Guarded.scansUp (h : Guarded values pivot i stop) :
    ScansUp values pivot i (scanUp values pivot i) := by
  obtain ⟨place, v, hi, hv, hne⟩ := h.up
  obtain ⟨hplace, -⟩ := Array.getElem?_eq_some_iff.mp hv
  clear h
  fun_induction scanUp values pivot i with
  | case1 i hsize hlt ih =>
    have hget : values[i]? = some values[i] := Array.getElem?_eq_getElem hsize
    -- the value here is below the pivot, so it is not the one that stops the scan
    have hne' : i ≠ place := by
      rintro rfl
      rw [hget, Option.some.injEq] at hv
      exact hne (by rw [← hv, beq_iff_eq.mp hlt])
    exact .step hget (beq_iff_eq.mp hlt) (ih (by omega))
  | case2 i hsize hlt =>
    exact .stop (Array.getElem?_eq_getElem hsize) (by simpa using hlt)
  | case3 i hsize => omega

theorem Guarded.scansDown (h : Guarded values pivot i stop) (hstop : stop ≤ values.size) :
    ScansDown values pivot stop (scanDown values pivot stop) := by
  obtain ⟨place, v, hplace, hv, hne⟩ := h.down
  clear h
  fun_induction scanDown values pivot stop with
  | case1 => omega
  | case2 stop hsize hgt ih =>
    have hget : values[stop]? = some values[stop] := Array.getElem?_eq_getElem hsize
    have hne' : stop ≠ place := by
      rintro rfl
      rw [hget, Option.some.injEq] at hv
      exact hne (by rw [← hv, beq_iff_eq.mp hgt])
    exact .step hget (beq_iff_eq.mp hgt) (ih (by omega) (by omega))
  | case3 stop hsize hgt =>
    exact .stop (Array.getElem?_eq_getElem hsize) (by simpa using hgt)
  | case4 stop hsize => omega

theorem ScansUp.exists_value (h : ScansUp values pivot i up) :
    ∃ v, values[up]? = some v ∧ compare v pivot ≠ .lt := by
  induction h with
  | stop hv h => exact ⟨_, hv, h⟩
  | step _ _ _ ih => exact ih

theorem ScansDown.exists_value (h : ScansDown values pivot stop (down + 1)) :
    ∃ v, values[down]? = some v ∧ compare v pivot ≠ .gt := by
  generalize hend : down + 1 = last at h
  induction h with
  | stop hv h =>
    obtain rfl : down = _ := Nat.succ.inj hend
    exact ⟨_, hv, h⟩
  | step _ _ _ ih => exact ih hend

-- The values that change places stop the scans of the next round, if there is one.
theorem Guarded.swap (hup : ScansUp values pivot i up)
    (hdown : ScansDown values pivot stop (down + 1)) (hlt : up < down) :
    Guarded (values.swapIfInBounds up down) pivot (up + 1) down := by
  obtain ⟨v, hv, hge⟩ := hup.exists_value
  obtain ⟨w, hw, hle⟩ := hdown.exists_value
  obtain ⟨hupsize, -⟩ := Array.getElem?_eq_some_iff.mp hv
  obtain ⟨hdownsize, -⟩ := Array.getElem?_eq_some_iff.mp hw
  refine ⟨⟨down, v, hlt, ?_, hge⟩, ⟨up, w, hlt, ?_, hle⟩⟩
  · rw [getElem?_swapIfInBounds hupsize hdownsize, Equiv.swap_apply_right, hv]
  · rw [getElem?_swapIfInBounds hupsize hdownsize, Equiv.swap_apply_left, hw]

theorem partitions_partition (hstop : stop ≤ values.size)
    (h : i < stop → Guarded values pivot i stop) :
    Partitions pivot values i stop (partition values pivot i stop) := by
  fun_induction partition values pivot i stop with
  | case1 values i stop hlt up down hmet ih =>
    have hup : ScansUp values pivot i up := (h hlt).scansUp
    have hdown : ScansDown values pivot stop down := (h hlt).scansDown hstop
    have hle : down ≤ stop := scanDown_le values pivot stop
    obtain ⟨last, hlast⟩ : ∃ last, down = last + 1 := ⟨down - 1, by omega⟩
    rw [hlast, Nat.add_sub_cancel] at ih ⊢
    rw [hlast] at hdown
    refine .swapped hlt hup hdown (by omega) (ih ?_ fun hnext => .swap hup hdown (by omega))
    rw [Array.size_swapIfInBounds]
    omega
  | case2 values i stop hlt up down hmet =>
    exact .crossed hlt (h hlt).scansUp ((h hlt).scansDown hstop) (Nat.le_of_not_lt hmet)
  | case3 values i stop hge => exact .met (Nat.le_of_not_lt hge)

theorem Partitions.partition_eq (h : Partitions pivot values i stop p) :
    partition values pivot i stop = p := by
  induction h with
  | met h => rw [partition, if_neg (Nat.not_lt.mpr h)]
  | crossed h hup hdown hcross =>
    rw [partition, if_pos h, hup.scanUp_eq, hdown.scanDown_eq]
    exact if_neg (Nat.not_lt.mpr hcross)
  | swapped h hup hdown hlt _ ih =>
    rw [partition, if_pos h, hup.scanUp_eq, hdown.scanDown_eq]
    simp only [if_pos (Nat.lt_succ_of_le hlt), Nat.add_sub_cancel, ih]

-- The pivot is among the values, so it stops both scans of the first round.
theorem partitions_iff (hround : first + 1 < stop) (hsize : stop ≤ values.size)
    (hpivot : values[first + (stop - 1 - first) / 2]? = some pivot) :
    Partitions pivot values first stop p ↔ partition values pivot first stop = p := by
  have hself : compare pivot pivot = .eq := Std.ReflCmp.compare_self
  have hguarded : Guarded values pivot first stop :=
    ⟨⟨_, pivot, by omega, hpivot, by simp [hself]⟩, ⟨_, pivot, by omega, hpivot, by simp [hself]⟩⟩
  constructor
  · exact Partitions.partition_eq
  · rintro rfl
    exact partitions_partition hsize fun _ => hguarded

theorem Selects.rankFrom_eq (h : Selects rank values first stop v) (hsize : stop ≤ values.size) :
    rankFrom values rank first stop = some v := by
  induction h with
  | single h hv => rw [rankFrom, if_neg (Nat.not_lt.mpr h), hv]
  | left h hpivot hp hlower _ ih =>
    obtain ⟨hparted, -, hlt⟩ := parted_of_pivot h hsize hpivot hp.partition_eq
    have hsize' := hparted.perm.size_eq
    rw [rankFrom, if_pos h, hpivot]
    simp only [hp.partition_eq, if_pos hlower, if_pos hlt]
    exact ih (by omega)
  | right h hpivot hp hlower hupper _ ih =>
    obtain ⟨hparted, hlt, -⟩ := parted_of_pivot h hsize hpivot hp.partition_eq
    have hsize' := hparted.perm.size_eq
    rw [rankFrom, if_pos h, hpivot]
    simp only [hp.partition_eq, if_neg (Nat.not_lt.mpr hlower), if_pos hupper, if_pos hlt]
    exact ih (by omega)
  | between h hpivot hp hlower hupper hv =>
    rw [rankFrom, if_pos h, hpivot]
    simp only [hp.partition_eq, if_neg (Nat.not_lt.mpr hlower), if_neg (Nat.not_le.mpr hupper), hv]

theorem selects_of_rankFrom (hsize : stop ≤ values.size)
    (h : rankFrom values rank first stop = some v) : Selects rank values first stop v := by
  fun_induction rankFrom values rank first stop with
  | case1 => cases h
  | case2 values first stop hround pivot hpivot parts upper lower hparts hlower hshorter ih =>
    obtain ⟨hparted, -, -⟩ := parted_of_pivot hround hsize hpivot hparts
    have hsize' : parts.size = values.size := hparted.perm.size_eq
    have hp := (partitions_iff hround hsize hpivot).mpr hparts
    exact .left hround hpivot hp hlower (ih (by omega) h)
  | case3 values first stop hround pivot hpivot parts upper lower hparts hlower hshorter =>
    exact absurd (parted_of_pivot hround hsize hpivot hparts).2.2 hshorter
  | case4 values first stop hround pivot hpivot parts upper lower hparts hlower hupper hshorter ih =>
    obtain ⟨hparted, -, -⟩ := parted_of_pivot hround hsize hpivot hparts
    have hsize' : parts.size = values.size := hparted.perm.size_eq
    have hp := (partitions_iff hround hsize hpivot).mpr hparts
    exact .right hround hpivot hp (Nat.le_of_not_lt hlower) hupper (ih (by omega) h)
  | case5 values first stop hround pivot hpivot parts upper lower hparts hlower hupper hshorter =>
    exact absurd (parted_of_pivot hround hsize hpivot hparts).2.1 hshorter
  | case6 values first stop hround pivot hpivot parts upper lower hparts hlower hupper =>
    have hp := (partitions_iff hround hsize hpivot).mpr hparts
    exact .between hround hpivot hp (Nat.le_of_not_lt hlower) (Nat.lt_of_not_le hupper) h
  | case7 values first stop hround => exact .single (Nat.le_of_not_lt hround) h

-- The runs of a whole search end at what the search gives, and there is one for every rank.
theorem selects_iff_ofRank? {values : List Value} (h : rank < values.length) :
    Selects rank values.toArray 0 values.length v ↔ ofRank? values rank = some v := by
  have hsize : values.length ≤ values.toArray.size := by rw [List.size_toArray]
  rw [ofRank?, if_pos h]
  exact ⟨fun hrun => hrun.rankFrom_eq hsize, selects_of_rankFrom hsize⟩

end RecordQuery.Value
