import RecordQuery.Proofs.Record.WellFormed
import RecordQuery.Proofs.Row.Distinct
import RecordQuery.Proofs.Row.Group
import RecordQuery.Proofs.Row.Join
import RecordQuery.Proofs.Row.Reducer
import RecordQuery.Proofs.Row.Sort
import RecordQuery.Row.Limit

/-!
Well-formed rows. Whatever a stage makes of well-formed rows is well-formed: a stage picks rows, or
makes tuples of their items and of what reducers make of these.
-/

namespace RecordQuery

open Value (wellFormed_null wellFormed_list wellFormed_tuple)

namespace Reducer

-- Reducers.
def WellFormed (reducer : Reducer) : Prop :=
  reducer.function.Preserves ∧ ∀ v ∈ reducer.arguments, v.WellFormed

theorem WellFormed.ensures_reduce {reducer : Reducer} (h : reducer.WellFormed)
    {values : List Value} (hv : ∀ v ∈ values, v.WellFormed) :
    Ensures Value.WellFormed (reducer.reduce values) :=
  h.1 _ (List.forall_mem_cons.mpr ⟨wellFormed_list.mpr hv, h.2⟩)

theorem ensures_argumentsOf (spec : Text) {arguments : List Expr}
    (h : ∀ v ∈ Expr.literalsAll arguments, v.WellFormed) :
    Ensures (fun values => ∀ v ∈ values, v.WellFormed) (argumentsOf spec arguments) := by
  rw [argumentsOf_eq]
  refine .mapM fun e he => ?_
  have hliteral := Expr.ensures_literal? fun v hv =>
    h v (Expr.literals_subset_literalsAll he hv)
  unfold argumentOf
  split
  · next v hv => exact .ok (hliteral _ hv v rfl)
  · exact .error _
  · exact .error _

theorem ensures_functionOf {library : Library} (hl : library.Preserves) (name : Text)
    (arguments : List Value) : Ensures Function.Preserves (functionOf library name arguments) := by
  unfold functionOf
  split
  · exact .error _
  · next f hf =>
    split
    · exact .ok (hl.get? hf)
    · exact .error _

theorem ensures_parse {library : Library} (hl : library.Preserves) (spec : Text) :
    Ensures WellFormed (parse library spec) := by
  have hnamed : ∀ name arguments, (∀ v ∈ arguments, v.WellFormed) →
      Ensures WellFormed (functionOf library name arguments >>= fun f =>
        .ok ⟨spec.trim, f, arguments⟩) :=
    fun name arguments harguments =>
      .bind (ensures_functionOf hl name arguments) fun f hf => .ok ⟨hf, harguments⟩
  cases hparse : Expr.parse spec with
  | error e =>
    rw [parse_error hparse]
    exact .error _
  | ok e =>
    cases e with
    | name name =>
      rw [parse_name hparse]
      exact hnamed name [] (List.forall_mem_nil _)
    | call name arguments =>
      rw [parse_call hparse]
      exact .bind (ensures_argumentsOf spec (Expr.wellFormed_of_parse hparse)) fun values =>
        hnamed name values
    | _ =>
      rw [parse, hparse]
      exact .error _

end Reducer

namespace Row

variable {rows first second : Flow Value}

-- Where a stage may give nothing but a failure, its rows are those it gives otherwise.
theorem mem_of_mem_elim {failure? : Option Failure} {rows : List Value × Option Failure}
    {row : Value} (h : row ∈ (failure?.elim rows fun e => ([], some e)).1) : row ∈ rows.1 := by
  cases failure? with
  | some e => cases h
  | none => exact h

theorem wellFormed_cell {row : Value} (h : row.WellFormed) (c : Double) :
    (cell row c).WellFormed := by
  obtain hnull | ⟨items, hitems, hmem⟩ := cell_eq_null_or_mem row c
  · rw [hnull]
    exact wellFormed_null
  · exact h.items? hitems _ hmem

theorem wellFormed_itemsOf {row : Value} (h : row.WellFormed) :
    ∀ v ∈ itemsOf row, v.WellFormed := by
  unfold itemsOf
  cases hitems : row.items? with
  | none => exact List.forall_mem_nil _
  | some items => exact h.items? hitems

theorem wellFormed_combined {a b : Value} (ha : a.WellFormed) (hb : b.WellFormed) :
    (combined a b).WellFormed :=
  wellFormed_tuple.mpr (List.forall_mem_append.mpr ⟨wellFormed_itemsOf ha,
    fun v hv => wellFormed_itemsOf hb v (List.mem_of_mem_drop hv)⟩)

theorem wellFormed_join (ha : first.WellFormed) (hb : second.WellFormed) :
    (join first second).WellFormed := by
  have hitems : (join first second).items = _ := congrArg Prod.fst (outcome_join first second)
  intro row hrow
  rw [hitems] at hrow
  split at hrow
  · cases hrow
  · split at hrow
    · cases hrow
    · obtain ⟨b, hjoinable, hrow⟩ := List.mem_flatMap.mp hrow
      obtain ⟨a, hmatching, rfl⟩ := List.mem_map.mp hrow
      exact wellFormed_combined (ha a (List.mem_of_mem_filter hmatching))
        (hb b ((List.takeWhile_prefix _).subset hjoinable))

def Grouping.WellFormed (grouping : Grouping) : Prop :=
  ∀ reducer ∈ grouping.reducers, reducer.WellFormed

theorem Grouping.WellFormed.ensures_summary {grouping : Grouping} (h : grouping.WellFormed)
    {rows : List Value} (hrows : ∀ row ∈ rows, row.WellFormed) :
    Ensures Value.WellFormed (grouping.summary rows) := by
  have hvalues : ∀ v ∈ grouping.valuesOf rows, v.WellFormed := by
    intro v hv
    obtain ⟨row, hrow, rfl⟩ := List.mem_map.mp hv
    exact wellFormed_cell (hrows row hrow) _
  have hhead : (rows.headD .null).WellFormed := by
    cases rows with
    | nil => exact wellFormed_null
    | cons row rest => exact hrows row List.mem_cons_self
  have hcells : ∀ v ∈ cells grouping.keyColumns (rows.headD .null), v.WellFormed := by
    intro v hv
    obtain ⟨c, -, rfl⟩ := List.mem_map.mp hv
    exact wellFormed_cell hhead c
  have hreduced := Ensures.mapM fun reducer hr => (h reducer hr).ensures_reduce hvalues
  unfold Grouping.summary
  split
  · next reduced hok =>
    exact .ok (wellFormed_tuple.mpr (List.forall_mem_append.mpr ⟨hcells, hreduced reduced hok⟩))
  · exact .error _

theorem wellFormed_aggregate {grouping : Grouping} (h : grouping.WellFormed)
    (hrows : rows.WellFormed) : (aggregate grouping rows).WellFormed := by
  have hitems : (aggregate grouping rows).items = _ :=
    congrArg Prod.fst (Grouping.outcome_aggregate grouping rows)
  intro row hrow
  rw [hitems] at hrow
  obtain ⟨part, hpart, hsummary⟩ :=
    List.mem_map.mp (mem_of_mem_untilFailure (mem_of_mem_elim hrow))
  obtain ⟨a, -, rfl⟩ := mem_classes.mp hpart
  exact h.ensures_summary (fun b hb => hrows b (mem_classOf.mp hb).1) row hsummary

theorem wellFormed_distinct (hrows : rows.WellFormed) : (distinct rows).WellFormed := by
  have hitems : (distinct rows).items = _ := congrArg Prod.fst (outcome_distinct rows)
  rw [Flow.WellFormed, hitems]
  exact fun row hrow => hrows row ((firsts_sublist rows.items).subset hrow)

theorem wellFormed_sort (order : SortOrder) (hrows : rows.WellFormed) :
    (sort order rows).WellFormed := by
  have hitems : (sort order rows).items = _ := congrArg Prod.fst (outcome_sort order rows)
  rw [Flow.WellFormed, hitems]
  exact fun row hrow =>
    hrows row ((sortBy_perm order.compare rows.items).mem_iff.mp (mem_of_mem_elim hrow))

theorem wellFormed_limit (count : Double) (hrows : rows.WellFormed) :
    (limit count rows).WellFormed := by
  unfold limit
  split
  · next n _ =>
    have hitems : (rows.take n).items = _ := congrArg Prod.fst (Flow.outcome_take n rows)
    rw [Flow.WellFormed, hitems]
    exact fun row hrow => hrows row (List.mem_of_mem_take hrow)
  · exact hrows

end Row

end RecordQuery
