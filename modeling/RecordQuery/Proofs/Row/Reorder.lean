import RecordQuery.Proofs.Function.Reduction
import RecordQuery.Proofs.Row.Group

/-!
Groups of rows in another order. The reducers that do not ask for an order make the same of the same
integers however they come, and what a group makes depends on its key and its values only, so other
orders of the rows lead to the same tuples in other orders.
-/

namespace RecordQuery

namespace Value

theorem same_of_isCanonical {m n : Number} {z : ℤ} (hm : m.IsCanonical z) (hn : n.IsCanonical z) :
    Same (.number m) (.number n) :=
  .number (.inr ⟨hm.extended_eq.1, hn.extended_eq.1, hm.extended_eq.2.trans hn.extended_eq.2.symm⟩)

theorem same_of_compare_eq {a b : Value} (ha : a.DistinctNames) (hb : b.DistinctNames)
    (h : compare a b = .eq) : Same a b :=
  (equals_iff_same ha hb).mp (equals_iff.mpr ((compare_eq_iff a b).mp h))

-- A number that is an integer in its canonical form.
def IsInteger (v : Value) : Prop := ∃ n z, v = .number n ∧ n.IsCanonical z

theorem IsInteger.countsAs {v : Value} (h : v.IsInteger) : ∃ z, Function.CountsAs v z := by
  obtain ⟨n, z, rfl, hn⟩ := h
  exact ⟨z, n, rfl, hn⟩

theorem IsInteger.distinctNames {v : Value} (h : v.IsInteger) : v.DistinctNames := by
  obtain ⟨n, z, rfl, -⟩ := h
  exact .number n

end Value

namespace Reducer

-- The reducers that do not ask for an order of the values.
inductive OrderFree : Reducer → Prop
  | len (name : Text) : OrderFree ⟨name, Function.length "len", []⟩
  | count (name : Text) : OrderFree ⟨name, Function.length "count", []⟩
  | sum (name : Text) : OrderFree ⟨name, Function.sum, []⟩
  | min (name : Text) : OrderFree ⟨name, Function.min, []⟩
  | max (name : Text) : OrderFree ⟨name, Function.max, []⟩
  | percentile (name : Text) {p : Double} (hp : p.isFinite = true) (hnonneg : 0 ≤ p.value)
      (hlt : p.value < 1) : OrderFree ⟨name, Function.percentile, [.number (.float p)]⟩

variable {reducer : Reducer} {values values' : List Value}

theorem OrderFree.exists_reduce (h : reducer.OrderFree) (hvalues : ∀ v ∈ values, v.IsInteger)
    (hne : values ≠ []) (hmax : values.length < 2 ^ 1023) : ∃ v, reducer.reduce values = .ok v := by
  cases h with
  | len => exact ⟨_, rfl⟩
  | count => exact ⟨_, rfl⟩
  | sum =>
    choose! z hz using fun v hv => (hvalues v hv).countsAs
    obtain ⟨n, hn, -⟩ := Function.sum_isCanonical hz
    exact ⟨_, hn⟩
  | min =>
    obtain ⟨v, -, hv, -⟩ := Function.extreme_spec (fun a b => b.compare a) "min" hne
    exact ⟨v, by rw [reduce, Function.min_eq_extreme, hv]⟩
  | max =>
    obtain ⟨v, -, hv, -⟩ := Function.extreme_spec Value.compare "max" hne
    exact ⟨v, hv⟩
  | percentile name hp hnonneg hlt => exact Function.exists_percentileOf hp hnonneg hlt hne hmax

theorem reduce_length_perm (name text : Text) (hperm : values.Perm values') {v : Value}
    (hv : Reducer.reduce ⟨name, Function.length text, []⟩ values = .ok v) :
    ∃ v', Reducer.reduce ⟨name, Function.length text, []⟩ values' = .ok v' ∧ v.Same v' := by
  obtain rfl : Value.ofNat values.length = v := Except.ok.inj hv
  refine ⟨Value.ofNat values'.length, rfl, ?_⟩
  rw [hperm.length_eq]
  exact Value.same_of_isCanonical (Number.isCanonical_ofInt _) (Number.isCanonical_ofInt _)

theorem OrderFree.reduce_perm (h : reducer.OrderFree) (hvalues : ∀ v ∈ values, v.IsInteger)
    (hperm : values.Perm values') {v : Value} (hv : reducer.reduce values = .ok v) :
    ∃ v', reducer.reduce values' = .ok v' ∧ v.Same v' := by
  have hsame : ∀ a ∈ values, ∀ b ∈ values, a.compare b = .eq → a.Same b := fun a ha b hb =>
    Value.same_of_compare_eq (hvalues a ha).distinctNames (hvalues b hb).distinctNames
  cases h with
  | len name => exact reduce_length_perm name "len" hperm hv
  | count name => exact reduce_length_perm name "count" hperm hv
  | sum =>
    choose! z hz using fun v hv => (hvalues v hv).countsAs
    obtain ⟨n, hn, hcanonical⟩ := Function.sum_isCanonical hz
    obtain ⟨n', hn', hcanonical'⟩ :=
      Function.sum_isCanonical fun v hv => hz v (hperm.mem_iff.mpr hv)
    obtain rfl : Value.number n = v := Except.ok.inj (hn.symm.trans hv)
    rw [(hperm.map z).sum_eq] at hcanonical
    exact ⟨_, hn', Value.same_of_isCanonical hcanonical hcanonical'⟩
  | min =>
    rw [Function.min_eq_extreme] at hv ⊢
    obtain ⟨v', hv', hmem, hmem', hcompare⟩ :=
      Function.extreme_perm (fun a b => b.compare a) hperm hv
    exact ⟨v', hv', hsame v hmem v' hmem' (Std.OrientedCmp.eq_symm hcompare)⟩
  | max =>
    obtain ⟨v', hv', hmem, hmem', hcompare⟩ := Function.extreme_perm Value.compare hperm hv
    exact ⟨v', hv', hsame v hmem v' hmem' hcompare⟩
  | percentile name hp hnonneg hlt =>
    obtain ⟨v', hv', hmem, hmem', hcompare⟩ := Function.percentileOf_perm hp hnonneg hlt hperm hv
    exact ⟨v', hv', hsame v hmem v' hmem' hcompare⟩

end Reducer

namespace Row.Grouping

variable {grouping : Grouping} {rows rows' : List Value}

-- Rows that have all columns, with an integer in the value column. The objects in them have every
-- field once, as those do that are read or made by a query.
structure OfIntegers (grouping : Grouping) (rows : List Value) : Prop where
  columns : ∀ row ∈ rows, grouping.lacks? row = none
  integers : ∀ row ∈ rows, (cell row grouping.valueColumn).IsInteger
  names : ∀ row ∈ rows, row.DistinctNames

theorem OfIntegers.perm (h : grouping.OfIntegers rows) (hperm : rows.Perm rows') :
    grouping.OfIntegers rows' where
  columns row hrow := h.columns row (hperm.mem_iff.mpr hrow)
  integers row hrow := h.integers row (hperm.mem_iff.mpr hrow)
  names row hrow := h.names row (hperm.mem_iff.mpr hrow)

-- The texts of the keys, each once, in the order of the classes.
def ids (grouping : Grouping) (rows : List Value) : List Text :=
  (firsts grouping.idOf rows).map grouping.idOf

-- What the rows of one key make.
def resultOf (grouping : Grouping) (rows : List Value) (id : Text) : Except Failure Value :=
  grouping.summary (classOf grouping.idOf rows id)

theorem outcome_aggregate_of_columns (h : ∀ row ∈ rows, grouping.lacks? row = none) :
    (aggregate grouping (.ofList rows)).outcome =
      untilFailure ((grouping.ids rows).map (grouping.resultOf rows)) := by
  rw [outcome_aggregate, Flow.items_ofList, Flow.failure?_ofList, List.findSome?_eq_none_iff.mpr h,
    ids, classes, List.map_map, List.map_map]
  rfl

theorem resultOf_eq_ok_iff {id : Text} {tuple : Value} : grouping.resultOf rows id = .ok tuple ↔
    ∃ reduced, (grouping.reducers.mapM fun reducer =>
        reducer.reduce (grouping.valuesOf (classOf grouping.idOf rows id))) = .ok reduced ∧
      .tuple (cells grouping.keyColumns ((classOf grouping.idOf rows id).headD .null) ++ reduced) =
        tuple := by
  rw [resultOf, summary]
  cases grouping.reducers.mapM fun reducer =>
    reducer.reduce (grouping.valuesOf (classOf grouping.idOf rows id)) <;> simp

theorem headD_classOf_mem {id : Text} (h : id ∈ grouping.ids rows) :
    (classOf grouping.idOf rows id).headD .null ∈ classOf grouping.idOf rows id := by
  obtain ⟨first, hfirst, rfl⟩ := List.mem_map.mp h
  have hhead := head?_classOf hfirst
  rw [List.headD_eq_head?_getD, hhead]
  exact List.mem_of_mem_head? hhead

theorem ids_perm (hperm : rows.Perm rows') : (grouping.ids rows).Perm (grouping.ids rows') :=
  map_firsts_perm hperm

theorem OfIntegers.isInteger_of_mem (h : grouping.OfIntegers rows) {id : Text} {v : Value}
    (hv : v ∈ grouping.valuesOf (classOf grouping.idOf rows id)) : v.IsInteger := by
  obtain ⟨row, hrow, rfl⟩ := List.mem_map.mp hv
  exact h.integers row (mem_classOf.mp hrow).1

theorem OfIntegers.exists_resultOf (h : grouping.OfIntegers rows)
    (hreducers : ∀ reducer ∈ grouping.reducers, reducer.OrderFree) (hmax : rows.length < 2 ^ 1023)
    {id : Text} (hid : id ∈ grouping.ids rows) :
    ∃ tuple, grouping.resultOf rows id = .ok tuple := by
  have hmem := headD_classOf_mem hid
  have hne : grouping.valuesOf (classOf grouping.idOf rows id) ≠ [] :=
    List.ne_nil_of_mem (List.mem_map_of_mem hmem)
  have hlength : (grouping.valuesOf (classOf grouping.idOf rows id)).length < 2 ^ 1023 := by
    rw [valuesOf, List.length_map]
    exact (List.length_filter_le _ rows).trans_lt hmax
  obtain ⟨reduced, hreduced⟩ := exists_mapM fun reducer hreducer =>
    (hreducers reducer hreducer).exists_reduce (fun v => h.isInteger_of_mem) hne hlength
  exact ⟨_, resultOf_eq_ok_iff.mpr ⟨reduced, hreduced, rfl⟩⟩

-- The first row of a key may be another one, but it has the same in the key columns.
theorem OfIntegers.resultOf_perm (h : grouping.OfIntegers rows) (hperm : rows.Perm rows')
    (hreducers : ∀ reducer ∈ grouping.reducers, reducer.OrderFree) {id : Text}
    (hid : id ∈ grouping.ids rows) {tuple : Value}
    (htuple : grouping.resultOf rows id = .ok tuple) :
    ∃ tuple', grouping.resultOf rows' id = .ok tuple' ∧ tuple.Same tuple' := by
  obtain ⟨reduced, hreduced, rfl⟩ := resultOf_eq_ok_iff.mp htuple
  have hvalues : (grouping.valuesOf (classOf grouping.idOf rows id)).Perm
      (grouping.valuesOf (classOf grouping.idOf rows' id)) := (hperm.filter _).map _
  obtain ⟨reduced', hreduced', hsame⟩ := mapM_forall₂ (fun reducer hreducer v hv =>
    (hreducers reducer hreducer).reduce_perm (fun v => h.isInteger_of_mem) hvalues hv) hreduced
  obtain ⟨hfirst, hfirstId⟩ := mem_classOf.mp (headD_classOf_mem hid)
  obtain ⟨hfirst', hfirstId'⟩ :=
    mem_classOf.mp (headD_classOf_mem ((ids_perm hperm).mem_iff.mp hid))
  have hkeys := (idOf_eq_iff_same (h.names _ hfirst) ((h.perm hperm).names _ hfirst')).mp
    (hfirstId.trans hfirstId'.symm)
  refine ⟨_, resultOf_eq_ok_iff.mpr ⟨reduced', hreduced', rfl⟩, ?_⟩
  rw [Value.same_tuple_iff_forall₂]
  exact List.rel_append (Value.same_list_iff_forall₂.mp hkeys) hsame

theorem failure?_aggregate_eq_none_iff (h : grouping.OfIntegers rows) :
    (aggregate grouping (.ofList rows)).failure? = none ↔
      ∀ id ∈ grouping.ids rows, ∃ tuple, grouping.resultOf rows id = .ok tuple := by
  have houtcome : (aggregate grouping (.ofList rows)).failure? = _ :=
    congrArg Prod.snd (outcome_aggregate_of_columns h.columns)
  rw [houtcome, untilFailure_eq_none_iff, List.forall_mem_map]

theorem OfIntegers.failure?_perm (h : grouping.OfIntegers rows) (hperm : rows.Perm rows')
    (hreducers : ∀ reducer ∈ grouping.reducers, reducer.OrderFree)
    (hnone : (aggregate grouping (.ofList rows)).failure? = none) :
    (aggregate grouping (.ofList rows')).failure? = none := by
  rw [failure?_aggregate_eq_none_iff h] at hnone
  rw [failure?_aggregate_eq_none_iff (h.perm hperm)]
  intro id hid'
  have hid := (ids_perm hperm).mem_iff.mpr hid'
  obtain ⟨tuple, htuple⟩ := hnone id hid
  obtain ⟨tuple', htuple', -⟩ := h.resultOf_perm hperm hreducers hid htuple
  exact ⟨tuple', htuple'⟩

-- Rows of integers in another order make the same tuples in another order. Nothing fails as long as
-- the rows are so few that their count has a double.
theorem aggregate_perm (h : grouping.OfIntegers rows) (hperm : rows.Perm rows')
    (hreducers : ∀ reducer ∈ grouping.reducers, reducer.OrderFree) :
    let flow := aggregate grouping (.ofList rows)
    let flow' := aggregate grouping (.ofList rows')
    (rows.length < 2 ^ 1023 → flow.failure? = none) ∧
      (flow.failure? = none ↔ flow'.failure? = none) ∧
      (flow.failure? = none →
        ∃ tuples, List.Forall₂ Value.Same flow.items tuples ∧ tuples.Perm flow'.items) := by
  intro flow flow'
  have h' := h.perm hperm
  refine ⟨fun hmax => ?_, ⟨?_, ?_⟩, fun hnone => ?_⟩
  · exact (failure?_aggregate_eq_none_iff h).mpr fun id hid => h.exists_resultOf hreducers hmax hid
  · exact h.failure?_perm hperm hreducers
  · exact h'.failure?_perm hperm.symm hreducers
  · have hresults := (failure?_aggregate_eq_none_iff h).mp hnone
    choose! tuple htuple using hresults
    have hresults' : ∀ id ∈ grouping.ids rows, ∃ tuple', grouping.resultOf rows' id = .ok tuple' ∧
        (tuple id).Same tuple' := fun id hid =>
      h.resultOf_perm hperm hreducers hid (htuple id hid)
    choose! tuple' htuple' hsame using hresults'
    have hitems : flow.items = (grouping.ids rows).map tuple := by
      have houtcome : flow.items = _ := congrArg Prod.fst (outcome_aggregate_of_columns h.columns)
      rw [houtcome, untilFailure_map htuple]
    have hitems' : flow'.items = (grouping.ids rows').map tuple' := by
      have houtcome : flow'.items = _ := congrArg Prod.fst (outcome_aggregate_of_columns h'.columns)
      rw [houtcome, untilFailure_map fun id hid => htuple' id ((ids_perm hperm).mem_iff.mpr hid)]
    refine ⟨(grouping.ids rows).map tuple', ?_, ?_⟩
    · rw [hitems, List.forall₂_map_left_iff, List.forall₂_map_right_iff, List.forall₂_same]
      exact hsame
    · rw [hitems']
      exact (ids_perm hperm).map tuple'

-- A key in its two forms, and a sum that leaves the safe range.
theorem aggregate_perm_forms :
    let double := Value.number (.float (Double.ofInt 9007199254740992))
    let exact := Value.number (.big 9007199254740992)
    let half := Double.finite false 0x10000000000000 (-53) (by decide)
    let grouping : Grouping :=
      ⟨[⟨"sum", Function.sum, []⟩,
          ⟨"percentile(0.5)", Function.percentile, [.number (.float half)]⟩],
        [.ofNat 0], .ofNat 1⟩
    let a := Value.tuple [double, .ofInt 9007199254740991]
    let b := Value.tuple [.null, .ofInt (-1)]
    let c := Value.tuple [exact, .ofInt 1]
    let flow := aggregate grouping (.ofList [a, b, c])
    let flow' := aggregate grouping (.ofList [b, c, a])
    grouping.OfIntegers [a, b, c] ∧ [a, b, c].Perm [b, c, a] ∧
      (∀ reducer ∈ grouping.reducers, reducer.OrderFree) ∧ flow.failure? = none ∧
      flow'.failure? = none ∧
      ∃ tuples, List.Forall₂ Value.Same flow.items tuples ∧ tuples.Perm flow'.items := by
  intro double exact half grouping a b c flow flow'
  have hhalf : half.value = 1 / 2 := by norm_num [half, Double.value, Double.signed]
  have hrows : grouping.OfIntegers [a, b, c] := by
    refine ⟨?_, ?_, ?_⟩ <;>
      rw [List.forall_mem_cons, List.forall_mem_cons, List.forall_mem_singleton]
    · exact ⟨rfl, rfl, rfl⟩
    · exact ⟨⟨_, _, rfl, Number.isCanonical_ofInt _⟩, ⟨_, _, rfl, Number.isCanonical_ofInt _⟩,
        ⟨_, _, rfl, Number.isCanonical_ofInt _⟩⟩
    · simp [a, b, c, double, exact, Value.ofInt, Value.DistinctNames.null,
        Value.DistinctNames.number]
  have hperm : [a, b, c].Perm [b, c, a] := (List.perm_append_singleton a [b, c]).symm
  have hreducers : ∀ reducer ∈ grouping.reducers, reducer.OrderFree := by
    rw [List.forall_mem_cons, List.forall_mem_singleton]
    exact ⟨.sum _, .percentile _ rfl (by rw [hhalf]; norm_num) (by rw [hhalf]; norm_num)⟩
  obtain ⟨hnone, hiff, hsame⟩ := aggregate_perm hrows hperm hreducers
  have hfew : [a, b, c].length < 2 ^ 1023 := by decide +kernel
  exact ⟨hrows, hperm, hreducers, hnone hfew, hiff.mp (hnone hfew), hsame (hnone hfew)⟩

end Row.Grouping

end RecordQuery
