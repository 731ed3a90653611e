import RecordQuery.Proofs.Flow
import RecordQuery.Proofs.Value.Key
import RecordQuery.Row.Join

/-!
The join through a table gives what two nested loops give: for every row of the second set the rows
of the first that have an equal first item, in the order in which they came. While the table is
built, what it has of a key are the rows of that key read so far.
-/

namespace RecordQuery.Row

-- Why a row cannot be joined: it is no list or tuple, or it has no items.
def lack? (row : Value) : Option ColumnError :=
  match row.items? with
  | none => some (.noItems (.ofNat 0) row)
  | some [] => some (.outOfRange (.ofNat 0) 0)
  | some (_ :: _) => none

-- The items of a list or tuple.
def itemsOf (row : Value) : List Value := row.items?.getD []

def firstOf (row : Value) : Value := (itemsOf row).headD .null

-- The items of one row and those of another without its first.
def combined (a b : Value) : Value := .tuple (itemsOf a ++ (itemsOf b).drop 1)

-- Every row of the second set with every row of the first whose first item equals its own.
def nestedLoop (as bs : List Value) : List Value :=
  bs.flatMap fun b => (as.filter fun a => (firstOf a).equals (firstOf b)).map fun a => combined a b

-- The rows of the second set up to the first one that cannot be joined.
def joinable (bs : List Value) : List Value := bs.takeWhile fun b => (lack? b).isNone

def keyed (row : Value) : Keyed := ⟨(firstOf row).key, itemsOf row⟩

theorem column_zero (row : Value) : column row (.ofNat 0) =
    match row.items? with
    | none => .error (.noItems (.ofNat 0) row)
    | some [] => .error (.outOfRange (.ofNat 0) 0)
    | some (a :: _) => .ok a := by
  have hzero : (Double.ofNat 0).trunc.toInt? = some 0 := by decide +kernel
  rw [column, Row.items, hzero]
  cases row.items? with
  | none => rfl
  | some items =>
    cases items with
    | nil => rfl
    | cons a rest => simp [Value.place?, bind, Except.bind]

theorem keyed_of (row : Value) : Keyed.of row =
    match lack? row with
    | some e => .error (.column e)
    | none => .ok (keyed row) := by
  rw [Keyed.of, column_zero, Row.items, lack?, keyed, firstOf, itemsOf]
  cases row.items? with
  | none => rfl
  | some items => cases items <;> rfl

-- The rows that a table has of a key, in the order in which they were added.
def Table.rowsOf (table : Table) (key : Text) : List (List Value) :=
  ((table.get? key).getD []).reverse

theorem Table.rowsOf_add (table : Table) (row : Keyed) (key : Text) :
    (table.add row).rowsOf key =
      table.rowsOf key ++ if row.key = key then [row.items] else [] := by
  rw [Table.rowsOf, Table.rowsOf, Table.add, Fields.get?_set]
  split
  · next h => simp [h]
  · next h => simp

-- The table of rows that all have a first item.
def tableOf (rows : List Value) : Table := rows.foldl (fun table row => table.add (keyed row)) []

-- The invariant of the table while it is built.
theorem rowsOf_foldl_add (rows : List Value) (table : Table) (key : Text) :
    (rows.foldl (fun table row => table.add (keyed row)) table).rowsOf key =
      table.rowsOf key ++ (rows.filter fun row => (firstOf row).key == key).map itemsOf := by
  induction rows generalizing table with
  | nil => simp
  | cons row rest ih =>
    rw [List.foldl_cons, ih, Table.rowsOf_add, List.filter_cons]
    by_cases h : (firstOf row).key = key
    · simp [keyed, h]
    · simp [keyed, h]

theorem matching_tableOf (as : List Value) (b : Value) : (tableOf as).matching (keyed b) =
    (as.filter fun a => (firstOf a).equals (firstOf b)).map fun a => combined a b := by
  have hrows : (tableOf as).rowsOf (keyed b).key =
      (as.filter fun a => (firstOf a).equals (firstOf b)).map itemsOf :=
    rowsOf_foldl_add as [] _
  rw [Table.matching, ← Table.rowsOf, hrows, List.map_map]
  rfl

-- The first row that cannot be joined ends the building of the table.
theorem foldlM_add (as : List Value) (table : Table) :
    as.foldlM (fun table row => (Keyed.of row).map table.add) table =
      match as.findSome? lack? with
      | some e => .error (.column e)
      | none => .ok (as.foldl (fun table row => table.add (keyed row)) table) := by
  induction as generalizing table with
  | nil => rfl
  | cons a rest ih =>
    rw [List.foldlM_cons, keyed_of, List.findSome?_cons]
    cases lack? a with
    | some e => rfl
    | none => exact ih (table.add (keyed a))

-- Each row of the second set is joined by itself, up to the first that cannot be.
theorem outcome_joinTo (table : Table) (bs : Flow Value) :
    (joinTo table bs).outcome =
      ((joinable bs.items).flatMap fun b => table.matching (keyed b),
        ((bs.items.findSome? lack?).map .column).or bs.failure?) := by
  unfold joinTo
  induction bs with
  | done => rfl
  | failed e => rfl
  | event e rest ih => exact ih ()
  | item b rest ih =>
    rw [Flow.expand, keyed_of, Flow.items, joinable, List.takeWhile_cons, List.findSome?_cons]
    cases lack? b with
    | some e => rfl
    | none =>
      have hrest := ih ()
      rw [Flow.outcome, Prod.mk.injEq] at hrest
      rw [Flow.outcome, Flow.items_ofList_append, Flow.failure?_ofList_append, hrest.1, hrest.2]
      rfl

-- The failure of the first set comes before anything of the second.
theorem outcome_join (first second : Flow Value) : (join first second).outcome =
    match first.items.findSome? lack? with
    | some e => ([], some (.column e))
    | none =>
      match first.failure? with
      | some e => ([], some e)
      | none =>
        (nestedLoop first.items (joinable second.items),
          ((second.items.findSome? lack?).map .column).or second.failure?) := by
  rw [join, Flow.outcome_gather, foldlM_add]
  cases first.items.findSome? lack? with
  | some e => rfl
  | none =>
    cases first.failure? with
    | some e => rfl
    | none =>
      have htable := outcome_joinTo (tableOf first.items) second
      simp only [matching_tableOf] at htable
      exact htable

theorem distinctNames_firstOf {row : Value} (h : row.DistinctNames) :
    (firstOf row).DistinctNames := by
  have hhead : ∀ items : List Value, (∀ v ∈ items, v.DistinctNames) →
      (items.headD .null).DistinctNames := by
    rintro (- | ⟨v, rest⟩) hitems
    · exact .null
    · exact hitems v List.mem_cons_self
  cases h with
  | list hitems => exact hhead _ hitems
  | tuple hitems => exact hhead _ hitems
  | _ => exact .null

-- The join of rows at hand is the nested loop over them, where two first items are equal if they
-- have the same structure. A row that cannot be joined leaves nothing if it is in the first set,
-- and what comes of the rows before it if it is in the second.
theorem join_eq_nestedLoop (as bs : List Value) :
    ((join (.ofList as) (.ofList bs)).outcome =
      match as.findSome? lack? with
      | some e => ([], some (.column e))
      | none => (nestedLoop as (joinable bs), (bs.findSome? lack?).map .column)) ∧
    ∀ a ∈ as, ∀ b ∈ bs, a.DistinctNames → b.DistinctNames →
      ((firstOf a).equals (firstOf b) = true ↔ (firstOf a).Same (firstOf b)) := by
  constructor
  · simp only [outcome_join, Flow.items_ofList, Flow.failure?_ofList, Option.or_none]
  · intro a _ b _ ha hb
    exact Value.equals_iff_same (distinctNames_firstOf ha) (distinctNames_firstOf hb)

-- Keys that differ in form only: an integer as a double and exactly, and two orders of the same
-- fields with both zeros. The pairs of one key come in the order of the first set, and the row
-- without items ends them.
theorem join_eq_nestedLoop_forms :
    let double := Value.number (.float (Double.ofInt 9007199254740992))
    let exact := Value.number (.big 9007199254740992)
    let zero := Value.number (.float (.ofNat 0))
    let fields := Value.object [("x", zero), ("y", .null)]
    let reordered := Value.object [("y", .null), ("x", .number (.float (Double.ofNat 0).neg))]
    let as := [.tuple [double, .text "a"], .list [fields, .text "b"], .tuple [double, .text "c"]]
    let bs := [.tuple [reordered, .text "p"], .tuple [exact, .text "q"], .tuple [], .null]
    (join (.ofList as) (.ofList bs)).outcome =
      ([.tuple [fields, .text "b", .text "p"], .tuple [double, .text "a", .text "q"],
        .tuple [double, .text "c", .text "q"]], some (.column (.outOfRange (.ofNat 0) 0))) ∧
    Value.DistinctNames (.list [fields, .text "b"]) ∧
    Value.DistinctNames (.tuple [reordered, .text "p"]) ∧ fields.Same reordered := by
  intro double exact zero fields reordered as bs
  have hkey : fields.equals reordered = true := by
    have hle : Text.le "x" "y" = true := by decide +kernel
    have hgt : Text.le "y" "x" = false := by decide +kernel
    have hzero : zero.key = (Value.number (.float (Double.ofNat 0).neg)).key := by decide +kernel
    rw [Value.equals_iff, Value.key_object_eq_iff]
    simp [Value.sortedByName, Value.fieldKeys, List.mergeSort, hle, hgt, hzero]
  have hdouble : double.equals exact = true := by decide +kernel
  have hkinds : double.equals reordered = false ∧ fields.equals exact = false := by decide +kernel
  have hnested : nestedLoop as (joinable bs) = [.tuple [fields, .text "b", .text "p"],
      .tuple [double, .text "a", .text "q"], .tuple [double, .text "c", .text "q"]] := by
    simp [as, bs, lack?, joinable, nestedLoop, firstOf, itemsOf, combined, Value.items?, hkey,
      hdouble, hkinds]
  have hnames : Text.ofString "x" ≠ "y" := by decide +kernel
  have hfields : Value.DistinctNames (.list [fields, .text "b"]) := by
    simp [fields, zero, Fields.keys, hnames, Value.DistinctNames.number, Value.DistinctNames.text,
      Value.DistinctNames.null]
  have hreordered : Value.DistinctNames (.tuple [reordered, .text "p"]) := by
    simp [reordered, Fields.keys, hnames.symm, Value.DistinctNames.number, Value.DistinctNames.text,
      Value.DistinctNames.null]
  obtain ⟨houtcome, hsame⟩ := join_eq_nestedLoop as bs
  refine ⟨?_, hfields, hreordered,
    (hsame _ (.tail _ (.head _)) _ (.head _) hfields hreordered).mp hkey⟩
  rw [houtcome, ← hnested]
  rfl

end RecordQuery.Row
