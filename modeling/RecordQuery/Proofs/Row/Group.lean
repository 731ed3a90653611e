import RecordQuery.Function.Reduction
import RecordQuery.Proofs.Flow
import RecordQuery.Proofs.Row.Class
import RecordQuery.Proofs.Row.Column
import RecordQuery.Proofs.Value.Key
import RecordQuery.Row.Group

/-!
Grouping sorts the rows out by what is in their key columns. While rows are read, the groups are the
classes of the rows read so far, each under the key of its first row and with its values last first;
every class then makes one tuple, up to the first that cannot be reduced.
-/

namespace RecordQuery.Row

theorem distinctNames_cell {row : Value} (h : row.DistinctNames) (c : Double) :
    (cell row c).DistinctNames := by
  obtain hnull | ⟨items, hitems, hmem⟩ := cell_eq_null_or_mem row c
  · rw [hnull]
    exact .null
  · cases h with
    | list hall =>
      cases hitems
      exact hall _ hmem
    | tuple hall =>
      cases hitems
      exact hall _ hmem
    | _ => cases hitems

namespace Grouping

variable {grouping : Grouping} {rows : List Value} {row : Value}

-- What a row has in the key columns, and the text that equal keys share.
def keyOf (grouping : Grouping) (row : Value) : Value := .list (cells grouping.keyColumns row)

def idOf (grouping : Grouping) (row : Value) : Text := (grouping.keyOf row).key

-- What rows have in the value column.
def valuesOf (grouping : Grouping) (rows : List Value) : List Value :=
  rows.map fun row => cell row grouping.valueColumn

-- The first column that a row lacks, the value column last.
def lacks? (grouping : Grouping) (row : Value) : Option Failure :=
  lacksAny? (grouping.keyColumns ++ [grouping.valueColumn]) row

-- The tuple that the rows of one class make.
def summary (grouping : Grouping) (rows : List Value) : Except Failure Value :=
  match grouping.reducers.mapM fun reducer => reducer.reduce (grouping.valuesOf rows) with
  | .ok reduced => .ok (.tuple (cells grouping.keyColumns (rows.headD .null) ++ reduced))
  | .error e => .error (.evaluation (.ofFault e))

-- The rows of a class as they are kept while rows are read.
def groupOf (grouping : Grouping) (rows : List Value) : Group :=
  ⟨cells grouping.keyColumns (rows.headD .null), (grouping.valuesOf rows).reverse⟩

def addRow (grouping : Grouping) (groups : Groups) (row : Value) : Groups :=
  groups.add (cells grouping.keyColumns row) (cell row grouping.valueColumn)

theorem add_of_lacks {groups : Groups} {e : Failure} (h : grouping.lacks? row = some e) :
    grouping.add groups row = .error e := by
  rw [lacks?, lacksAny?, List.findSome?_append, List.findSome?_singleton] at h
  rw [Grouping.add, project_eq, column_eq]
  cases hkeys : grouping.keyColumns.findSome? (Row.lacks? row) with
  | some lack => simpa [hkeys] using h
  | none =>
    cases hvalue : Row.lacks? row grouping.valueColumn with
    | some lack => simpa [hkeys, hvalue] using h
    | none => simp [hkeys, hvalue] at h

theorem add_eq {groups : Groups} (h : grouping.lacks? row = none) :
    grouping.add groups row = .ok (grouping.addRow groups row) := by
  rw [lacks?, lacksAny?, Option.map_eq_none_iff, List.findSome?_append, Option.or_eq_none_iff,
    List.findSome?_singleton] at h
  rw [Grouping.add, project_eq, column_eq, h.1, h.2]
  rfl

-- A row goes to the group of its key if there is one, and else starts a group.
theorem addRow_of_get?_eq_some {groups : Groups} {group : Group}
    (h : groups.get? (grouping.idOf row) = some group) :
    grouping.addRow groups row = groups.set (grouping.idOf row)
      ⟨group.key, cell row grouping.valueColumn :: group.reversed⟩ := by
  rw [idOf, keyOf] at h
  simp only [addRow, Groups.add, h, idOf, keyOf]

theorem addRow_of_get?_eq_none {groups : Groups} (h : groups.get? (grouping.idOf row) = none) :
    grouping.addRow groups row = groups.set (grouping.idOf row) (grouping.groupOf [row]) := by
  rw [idOf, keyOf] at h
  simp only [addRow, Groups.add, h, idOf, keyOf]
  rfl

-- The groups of the classes, in the order of these.
def groupsOf (grouping : Grouping) (rows : List Value) : Groups :=
  (firsts grouping.idOf rows).map fun first =>
    (grouping.idOf first, grouping.groupOf (classOf grouping.idOf rows (grouping.idOf first)))

theorem values_groupsOf (grouping : Grouping) (rows : List Value) :
    (grouping.groupsOf rows).values = (classes grouping.idOf rows).map grouping.groupOf := by
  rw [groupsOf, classes, Fields.values, List.map_map, List.map_map]
  rfl

theorem nodup_keys_groupsOf (grouping : Grouping) (rows : List Value) :
    (grouping.groupsOf rows).keys.Nodup := by
  rw [groupsOf, Fields.keys, List.map_map]
  exact List.pairwise_map.mpr (firsts_pairwise rows)

theorem mem_groupsOf_of_mem_firsts {first : Value} (h : first ∈ firsts grouping.idOf rows) :
    (grouping.idOf first, grouping.groupOf (classOf grouping.idOf rows (grouping.idOf first))) ∈
      grouping.groupsOf rows :=
  List.mem_map_of_mem h

-- One more row comes last in the class of its key.
theorem classOf_concat (rows : List Value) (row : Value) (id : Text) :
    classOf grouping.idOf (rows ++ [row]) id =
      classOf grouping.idOf rows id ++ if grouping.idOf row = id then [row] else [] := by
  rw [classOf, classOf, List.filter_append]
  by_cases h : grouping.idOf row = id <;> simp [h]

theorem groupOf_concat {first : Value} (h : rows.head? = some first) :
    grouping.groupOf (rows ++ [row]) =
      ⟨(grouping.groupOf rows).key,
        cell row grouping.valueColumn :: (grouping.groupOf rows).reversed⟩ := by
  obtain ⟨rest, rfl⟩ := List.head?_eq_some_iff.mp h
  simp [groupOf, valuesOf]

-- A row of a known key goes to the class of the key, which keeps its place and its first row.
theorem addRow_groupsOf_of_mem {first : Value} (hfirst : first ∈ firsts grouping.idOf rows)
    (hid : grouping.idOf first = grouping.idOf row) :
    grouping.addRow (grouping.groupsOf rows) row = grouping.groupsOf (rows ++ [row]) := by
  have hnodup := grouping.nodup_keys_groupsOf rows
  have hmem := mem_groupsOf_of_mem_firsts hfirst
  rw [hid] at hmem
  have hconcat : firsts grouping.idOf (rows ++ [row]) = firsts grouping.idOf rows := by
    have hexists : ∃ b ∈ rows, grouping.idOf b = grouping.idOf row :=
      ⟨first, (firsts_sublist rows).subset hfirst, hid⟩
    rw [firsts_concat, if_pos hexists, List.append_nil]
  rw [addRow_of_get?_eq_some ((Fields.get?_eq_some_iff hnodup).mpr hmem),
    Fields.set_eq_map hnodup (Fields.mem_keys.mpr ⟨_, hmem⟩), groupsOf, groupsOf, hconcat,
    List.map_map]
  refine List.map_congr_left fun other hother => ?_
  by_cases h : grouping.idOf other = grouping.idOf row
  · have hhead := head?_classOf hother
    rw [h] at hhead
    simp [h, classOf_concat, groupOf_concat hhead]
  · simp [h, classOf_concat, Ne.symm h]

theorem addRow_groupsOf_of_notMem (h : ∀ b ∈ rows, grouping.idOf b ≠ grouping.idOf row) :
    grouping.addRow (grouping.groupsOf rows) row = grouping.groupsOf (rows ++ [row]) := by
  have hne : ∀ first ∈ firsts grouping.idOf rows, grouping.idOf first ≠ grouping.idOf row :=
    fun first hfirst => h first ((firsts_sublist rows).subset hfirst)
  have hnotMem : grouping.idOf row ∉ (grouping.groupsOf rows).keys := by
    simpa [Fields.keys, groupsOf] using hne
  have hclass : classOf grouping.idOf rows (grouping.idOf row) = [] := by
    simpa [classOf] using h
  have hexists : ¬∃ b ∈ rows, grouping.idOf b = grouping.idOf row := by
    rintro ⟨b, hb, hid⟩
    exact h b hb hid
  rw [addRow_of_get?_eq_none (Fields.get?_eq_none_iff.mpr hnotMem),
    Fields.set_of_notMem_keys hnotMem, groupsOf, groupsOf, firsts_concat, if_neg hexists,
    List.map_append, List.map_singleton, classOf_concat, hclass, if_pos rfl, List.nil_append]
  congr 1
  refine List.map_congr_left fun first hfirst => ?_
  rw [classOf_concat, if_neg (hne first hfirst).symm, List.append_nil]

-- The invariant of the groups while rows are read.
theorem foldl_addRow (grouping : Grouping) (rows : List Value) :
    rows.foldl grouping.addRow [] = grouping.groupsOf rows := by
  induction rows using List.reverseRecOn with
  | nil => rfl
  | append_singleton rows row ih =>
    rw [List.foldl_concat, ih]
    by_cases h : ∃ b ∈ rows, grouping.idOf b = grouping.idOf row
    · obtain ⟨b, hb, hid⟩ := h
      obtain ⟨first, hfirst, hkey⟩ := exists_mem_firsts grouping.idOf hb
      exact addRow_groupsOf_of_mem hfirst (hkey.trans hid)
    · exact addRow_groupsOf_of_notMem fun b hb hid => h ⟨b, hb, hid⟩

theorem tupleOf_groupOf (grouping : Grouping) (rows : List Value) :
    (grouping.tupleOf (grouping.groupOf rows)).mapError (fun e => .evaluation (.ofFault e)) =
      grouping.summary rows := by
  rw [tupleOf, groupOf, summary, List.reverse_reverse]
  cases grouping.reducers.mapM fun reducer => reducer.reduce (grouping.valuesOf rows) <;> rfl

theorem outcome_tuples (grouping : Grouping) (parts : List (List Value)) :
    (grouping.tuples (parts.map grouping.groupOf)).outcome =
      untilFailure (parts.map grouping.summary) := by
  induction parts with
  | nil => rfl
  | cons part rest ih =>
    rw [Flow.outcome, Prod.ext_iff] at ih
    rw [List.map_cons, List.map_cons, tuples, ← tupleOf_groupOf]
    cases grouping.tupleOf (grouping.groupOf part) with
    | error e => rfl
    | ok tuple => exact Prod.ext (congrArg (tuple :: ·) ih.1) ih.2

theorem outcome_aggregate (grouping : Grouping) (rows : Flow Value) :
    (aggregate grouping rows).outcome =
      ((rows.items.findSome? grouping.lacks?).or rows.failure?).elim
        (untilFailure ((classes grouping.idOf rows.items).map grouping.summary))
        fun e => ([], some e) := by
  rw [aggregate, Flow.outcome_gather_eq_elim grouping.lacks? grouping.addRow
    (fun _ _ _ => add_of_lacks) fun _ _ => add_eq, foldl_addRow, values_groupsOf, outcome_tuples]

theorem idOf_eq_iff_same {a b : Value} (ha : a.DistinctNames) (hb : b.DistinctNames) :
    grouping.idOf a = grouping.idOf b ↔ (grouping.keyOf a).Same (grouping.keyOf b) := by
  have hnames : ∀ {row : Value}, row.DistinctNames → (grouping.keyOf row).DistinctNames := by
    intro row hrow
    rw [keyOf, Value.distinctNames_list]
    intro v hv
    obtain ⟨c, -, rfl⟩ := List.mem_map.mp hv
    exact distinctNames_cell hrow c
  exact Value.equals_iff.symm.trans (Value.equals_iff_same (hnames ha) (hnames hb))

-- The rows are sorted into classes, which are in the order of their first rows and together are all
-- the rows; two rows are in one class if they have the same in the key columns. Every class makes a
-- tuple, up to the first that cannot be reduced, and no class does if a row lacks a column.
theorem aggregate_summarizes_classes (grouping : Grouping) (rows : List Value) :
    let parts := classes grouping.idOf rows
    (aggregate grouping (.ofList rows)).outcome =
      (match rows.findSome? grouping.lacks? with
      | some e => ([], some e)
      | none => untilFailure (parts.map grouping.summary)) ∧
    parts.map List.head? = (firsts grouping.idOf rows).map some ∧
    parts.flatten.Perm rows ∧ (∀ part ∈ parts, part.Sublist rows) ∧
    ∀ a ∈ rows, ∀ b ∈ rows, a.DistinctNames → b.DistinctNames →
      ((∃ part ∈ parts, a ∈ part ∧ b ∈ part) ↔ (grouping.keyOf a).Same (grouping.keyOf b)) := by
  intro parts
  refine ⟨?_, ?_, flatten_classes_perm rows, fun part hpart => ?_, fun a ha b hb hna hnb => ?_⟩
  · rw [outcome_aggregate, Flow.items_ofList, Flow.failure?_ofList, Option.or_none]
    cases rows.findSome? grouping.lacks? <;> rfl
  · simp only [parts, classes, List.map_map]
    exact List.map_congr_left fun first hfirst => head?_classOf hfirst
  · obtain ⟨a, -, rfl⟩ := mem_classes.mp hpart
    exact List.filter_sublist
  · rw [← idOf_eq_iff_same hna hnb]
    constructor
    · rintro ⟨part, hpart, hapart, hbpart⟩
      obtain ⟨c, -, rfl⟩ := mem_classes.mp hpart
      rw [(mem_classOf.mp hapart).2, (mem_classOf.mp hbpart).2]
    · intro hid
      exact ⟨_, mem_classes.mpr ⟨a, ha, rfl⟩, mem_classOf.mpr ⟨ha, rfl⟩,
        mem_classOf.mpr ⟨hb, hid.symm⟩⟩

-- A key in its two forms and a class whose values cannot be added. The tuple of the first class has
-- the form that came first, and it comes before the failure of the second.
theorem aggregate_summarizes_classes_forms :
    let double := Value.number (.float (Double.ofInt 9007199254740992))
    let exact := Value.number (.big 9007199254740992)
    let grouping : Grouping :=
      ⟨[⟨"len", Function.length "len", []⟩, ⟨"sum", Function.sum, []⟩],
        [(Double.ofNat 2).neg], .ofNat 1⟩
    let a := Value.tuple [double, .ofNat 1]
    let b := Value.list [exact, .ofNat 3]
    (aggregate grouping (.ofList [a, .tuple [.null, .null], b])).outcome =
      ([.tuple [double, .ofNat 2, .ofNat 4]],
        some (.evaluation (.ofFault (.argument "sum" .number .null)))) ∧
    a.DistinctNames ∧ b.DistinctNames ∧ (grouping.keyOf a).Same (grouping.keyOf b) := by
  intro double exact grouping a b
  have hid : grouping.idOf a = grouping.idOf b ∧
      grouping.idOf (.tuple [.null, .null]) ≠ grouping.idOf a := by
    decide +kernel
  have ha : a.DistinctNames := by simp [a, double, Value.ofNat, Value.DistinctNames.number]
  have hb : b.DistinctNames := by simp [b, exact, Value.ofNat, Value.DistinctNames.number]
  obtain ⟨houtcome, -, -, -, hsame⟩ :=
    aggregate_summarizes_classes grouping [a, .tuple [.null, .null], b]
  have hparts : classes grouping.idOf [a, .tuple [.null, .null], b] =
      [[a, b], [.tuple [.null, .null]]] := by
    simp [classes, firsts, classOf, ← hid.1, hid.2, hid.2.symm]
  rw [hparts] at houtcome hsame
  refine ⟨houtcome.trans rfl, ha, hb, ?_⟩
  exact (hsame a (by simp) b (by simp) ha hb).mp ⟨[a, b], by simp, by simp, by simp⟩

end Grouping

end RecordQuery.Row
