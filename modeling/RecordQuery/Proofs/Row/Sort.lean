import RecordQuery.Proofs.Flow
import RecordQuery.Proofs.Row.Column
import RecordQuery.Proofs.Row.Stable
import RecordQuery.Proofs.Value.Order
import RecordQuery.Row.Sort

/-!
Sorting rows by columns. The first column in which two rows differ decides between them, rows that
differ in none of them keep their order, and so the columns can also be sorted by one after another,
the last one first.
-/

namespace RecordQuery.Row

-- Rows compared in one column after another.
def compareBy (columns : List Double) (a b : Value) : Ordering :=
  columns.foldr (fun c rest => ((cell a c).compare (cell b c)).then rest) .eq

def SortOrder.compare (order : SortOrder) (a b : Value) : Ordering :=
  if order.reversed then compareBy order.columns b a else compareBy order.columns a b

theorem compareItems_cells (columns : List Double) (a b : Value) :
    Value.compareItems (cells columns a) (cells columns b) = compareBy columns a b := by
  induction columns with
  | nil => rfl
  | cons c rest ih => exact congrArg (Ordering.then _) ih

theorem compareBy_cons (c : Double) (rest : List Double) :
    compareBy (c :: rest) =
      compareLex (fun a b => (cell a c).compare (cell b c)) (compareBy rest) :=
  rfl

instance (c : Double) : Std.TransCmp fun a b => (cell a c).compare (cell b c) where
  eq_swap := Std.OrientedCmp.eq_swap
  isLE_trans := Std.TransCmp.isLE_trans

instance (columns : List Double) : Std.TransCmp (compareBy columns) := by
  induction columns with
  | nil => exact { eq_swap := rfl, isLE_trans := fun _ _ => rfl }
  | cons c rest ih =>
    rw [compareBy_cons]
    infer_instance

instance (order : SortOrder) : Std.TransCmp order.compare := by
  unfold SortOrder.compare
  cases order.reversed with
  | false => exact inferInstanceAs (Std.TransCmp (compareBy order.columns))
  | true => exact inferInstanceAs (Std.TransCmp fun a b => compareBy order.columns b a)

-- A row with what it is sorted by.
def sortable (order : SortOrder) (row : Value) : Sortable := ⟨cells order.columns row, row⟩

theorem allows_sortable (order : SortOrder) (a b : Value) :
    order.allows (sortable order a) (sortable order b) = (order.compare a b).isLE := by
  simp only [SortOrder.allows, sortable, compareItems_cells, SortOrder.compare]
  cases order.reversed with
  | false => rfl
  | true =>
    have hswap : compareBy order.columns a b = (compareBy order.columns b a).swap :=
      Std.OrientedCmp.eq_swap
    rw [hswap]
    cases compareBy order.columns b a <;> rfl

theorem prepare_of_lacks {order : SortOrder} {row : Value} {e : Failure}
    (h : lacksAny? order.columns row = some e) : order.prepare row = .error e := by
  obtain ⟨lack, hlack, rfl⟩ := Option.map_eq_some_iff.mp h
  rw [SortOrder.prepare, project_eq, hlack]
  rfl

theorem prepare_eq {order : SortOrder} {row : Value} (h : lacksAny? order.columns row = none) :
    order.prepare row = .ok (sortable order row) := by
  rw [SortOrder.prepare, project_eq, Option.map_eq_none_iff.mp h]
  rfl

theorem sort_sortables (order : SortOrder) (rows : List Value) :
    (order.sort (rows.map (sortable order))).map Sortable.row = sortBy order.compare rows := by
  rw [SortOrder.sort, sortBy, ← List.map_mergeSort (r := fun a b => (order.compare a b).isLE)
    (f := sortable order) fun a _ b _ => (allows_sortable order a b).symm, List.map_map]
  exact List.map_id _

theorem outcome_sort (order : SortOrder) (rows : Flow Value) : (sort order rows).outcome =
    ((rows.items.findSome? (lacksAny? order.columns)).or rows.failure?).elim
      (sortBy order.compare rows.items, none) fun e => ([], some e) := by
  have hrows : (rows.items.foldl (fun sorted row => sortable order row :: sorted) []).reverse =
      rows.items.map (sortable order) := by
    rw [List.foldl_flip_cons_eq_append, List.append_nil, List.reverse_reverse]
  rw [sort, Flow.outcome_gather_eq_elim (lacksAny? order.columns)
    (fun sorted row => sortable order row :: sorted)
    (fun sorted row e h => by rw [prepare_of_lacks h]; rfl)
    fun sorted row h => by rw [prepare_eq h]; rfl]
  rw [hrows, sort_sortables, Flow.outcome, Flow.items_ofList, Flow.failure?_ofList]

-- Rows that come to an end and all have the given columns.
def Complete (columns : List Double) (rows : Flow Value) : Prop :=
  (∀ row ∈ rows.items, lacksAny? columns row = none) ∧ rows.failure? = none

theorem outcome_sort_of_complete {order : SortOrder} {rows : Flow Value}
    (h : Complete order.columns rows) :
    (sort order rows).outcome = (sortBy order.compare rows.items, none) := by
  rw [outcome_sort, List.findSome?_eq_none_iff.mpr h.1, h.2]
  rfl

theorem outcome_sort_of_not_complete {order : SortOrder} {rows : Flow Value}
    (h : ¬Complete order.columns rows) : ∃ e, (sort order rows).outcome = ([], some e) := by
  rw [outcome_sort]
  cases hor : (rows.items.findSome? (lacksAny? order.columns)).or rows.failure? with
  | some e => exact ⟨e, rfl⟩
  | none =>
    rw [Option.or_eq_none_iff, List.findSome?_eq_none_iff] at hor
    exact absurd hor h

theorem complete_cons {column : Double} {columns : List Double} {rows : Flow Value} :
    Complete (column :: columns) rows ↔ Complete [column] rows ∧ Complete columns rows := by
  simp only [Complete, lacksAny?, Option.map_eq_none_iff, List.findSome?_eq_none_iff,
    List.forall_mem_cons]
  grind

-- Sorted rows are the same rows, so they have the columns that the rows have.
theorem complete_sort_iff {order : SortOrder} {rows : Flow Value} {columns : List Double} :
    Complete columns (sort order rows) ↔ Complete order.columns rows ∧ Complete columns rows := by
  by_cases h : Complete order.columns rows
  · have houtcome := Prod.mk.inj (outcome_sort_of_complete h)
    rw [and_iff_right h, Complete, Complete, houtcome.1, houtcome.2, h.2]
    simp only [(sortBy_perm order.compare rows.items).mem_iff]
  · obtain ⟨e, houtcome⟩ := outcome_sort_of_not_complete h
    rw [Complete, (Prod.mk.inj houtcome).2]
    simp [h]

-- The order by a further column in front.
theorem compare_cons (order : SortOrder) (column : Double) :
    SortOrder.compare ⟨column :: order.columns, order.reversed⟩ =
      compareLex (SortOrder.compare ⟨[column], order.reversed⟩) order.compare := by
  funext a b
  simp only [SortOrder.compare, compareLex, compareBy, List.foldr_cons, List.foldr_nil,
    Ordering.then_eq]
  split <;> rfl

-- Sorting by a further column afterwards is sorting by it in front of the others. Where a column is
-- lacking both fail, though perhaps on different rows.
theorem sort_sort (order : SortOrder) (column : Double) (rows : Flow Value) :
    let inTurn := sort ⟨[column], order.reversed⟩ (sort order rows)
    let together := sort ⟨column :: order.columns, order.reversed⟩ rows
    inTurn.items = together.items ∧ (inTurn.failure? = none ↔ together.failure? = none) := by
  intro inTurn together
  by_cases h : Complete (column :: order.columns) rows
  · obtain ⟨hcolumn, hcolumns⟩ := complete_cons.mp h
    have hinner := Prod.mk.inj (outcome_sort_of_complete hcolumns)
    have hinTurn : inTurn.outcome = _ :=
      outcome_sort_of_complete (complete_sort_iff.mpr ⟨hcolumns, hcolumn⟩)
    have htogether : together.outcome = _ := outcome_sort_of_complete h
    rw [hinner.1, sortBy_sortBy, ← compare_cons] at hinTurn
    have hsame := Prod.mk.inj (hinTurn.trans htogether.symm)
    exact ⟨hsame.1, by rw [hsame.2]⟩
  · obtain ⟨e, htogether⟩ : ∃ e, together.outcome = ([], some e) := outcome_sort_of_not_complete h
    obtain ⟨e', hinTurn⟩ : ∃ e, inTurn.outcome = ([], some e) := by
      refine outcome_sort_of_not_complete fun hinTurn => h ?_
      exact complete_cons.mpr (complete_sort_iff.mp hinTurn).symm
    rw [Flow.outcome, Prod.mk.injEq] at htogether hinTurn
    simp [htogether, hinTurn]

theorem compare_eq_iff_compareBy_eq {order : SortOrder} {a b : Value} :
    order.compare a b = .eq ↔ compareBy order.columns a b = .eq := by
  rw [SortOrder.compare]
  split
  · exact ⟨Std.OrientedCmp.eq_symm, Std.OrientedCmp.eq_symm⟩
  · rfl

theorem ties_compare (order : SortOrder) (row : Value) (rows : List Value) :
    ties order.compare row rows = ties (compareBy order.columns) row rows :=
  List.filter_congr fun _ _ => decide_eq_decide.mpr compare_eq_iff_compareBy_eq

-- Rows that have all sort columns come out in the order of these, those that tie as they came in; a
-- row that lacks one leaves nothing but the failure of the first such row. Sorting by a further
-- column afterwards gives the same rows as sorting by it in front of the others.
theorem sort_stable (order : SortOrder) (rows : List Value) :
    (∃ sorted : List Value,
      (sort order (.ofList rows)).outcome =
        (match rows.findSome? (lacksAny? order.columns) with
        | some e => ([], some e)
        | none => (sorted, none)) ∧
      sorted.Perm rows ∧ sorted.Pairwise (fun a b => (order.compare a b).isLE = true) ∧
      ∀ row, sorted.filter (fun a => compareBy order.columns a row = .eq) =
        rows.filter fun a => compareBy order.columns a row = .eq) ∧
    ∀ column,
      let inTurn := sort ⟨[column], order.reversed⟩ (sort order (.ofList rows))
      let together := sort ⟨column :: order.columns, order.reversed⟩ (.ofList rows)
      inTurn.items = together.items ∧ (inTurn.failure? = none ↔ together.failure? = none) := by
  refine ⟨⟨sortBy order.compare rows, ?_, sortBy_perm _ rows, sortBy_pairwise rows, fun row => ?_⟩,
    fun column => sort_sort order column (.ofList rows)⟩
  · rw [outcome_sort, Flow.items_ofList, Flow.failure?_ofList, Option.or_none]
    cases rows.findSome? (lacksAny? order.columns) <;> rfl
  · have hties : ties order.compare row (sortBy order.compare rows) = _ := ties_sortBy row rows
    rwa [ties_compare, ties_compare] at hties

end RecordQuery.Row
