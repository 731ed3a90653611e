import RecordQuery.Plan
import RecordQuery.Proofs.Row.Distinct
import RecordQuery.Proofs.Row.Sort

/-!
Stages that can change places. Rows of one structure agree in every column, so sorting keeps the
first of them in front of the others, and it does not matter whether repeats are removed before rows
are sorted or after that.
-/

namespace RecordQuery.Row

variable {a b : Value}

-- Rows that share a key have items that share their keys one by one.
theorem keys_items?_of_key_eq (h : a.key = b.key) :
    a.items?.map Value.keys = b.items?.map Value.keys := by
  have hkind := Value.kind_eq_of_key_eq h
  cases a with
  | list as =>
    cases b with
    | list bs => exact congrArg some (Value.key_list_eq_iff.mp h)
    | _ => cases hkind
  | tuple as =>
    cases b with
    | tuple bs => exact congrArg some (Value.key_tuple_eq_iff.mp h)
    | _ => cases hkind
  | _ =>
    cases b with
    | list bs => cases hkind
    | tuple bs => cases hkind
    | _ => rfl

theorem length_items?_of_key_eq (h : a.key = b.key) :
    a.items?.map List.length = b.items?.map List.length := by
  have hlength : ∀ items? : Option (List Value),
      (items?.map Value.keys).map List.length = items?.map List.length := by
    intro items?
    cases items? with
    | none => rfl
    | some items => simp [Value.keys_eq_map]
  rw [← hlength, ← hlength, keys_items?_of_key_eq h]

theorem lacks?_eq_none_iff {row : Value} {c : Double} : lacks? row c = none ↔
    ∃ length, row.items?.map List.length = some length ∧ (position? c length).isSome = true := by
  rw [lacks?]
  cases row.items? with
  | none => simp
  | some items => simp [Option.isSome_iff_ne_none]

-- Rows that share a key lack the same columns.
theorem lacksAny?_eq_none_of_key_eq {columns : List Double} (h : a.key = b.key)
    (ha : lacksAny? columns a = none) : lacksAny? columns b = none := by
  rw [lacksAny?, Option.map_eq_none_iff, List.findSome?_eq_none_iff] at ha ⊢
  intro c hc
  have hcolumn := ha c hc
  rw [lacks?_eq_none_iff, length_items?_of_key_eq h] at hcolumn
  exact lacks?_eq_none_iff.mpr hcolumn

theorem key_cell (row : Value) (c : Double) : (cell row c).key =
    (((row.items?.map Value.keys).bind fun keys =>
      (position? c keys.length).bind (keys[·]?)).getD Value.null.key) := by
  rw [cell]
  cases row.items? with
  | none => rfl
  | some items =>
    simp only [Option.map_some, Option.bind_some, Value.keys_eq_map, List.length_map]
    cases position? c items.length with
    | none => rfl
    | some i => cases h : items[i]? <;> simp [h]

theorem key_cell_eq_of_key_eq (h : a.key = b.key) (c : Double) : (cell a c).key = (cell b c).key := by
  rw [key_cell, key_cell, keys_items?_of_key_eq h]

theorem compare_eq_of_key_eq (order : SortOrder) (h : a.key = b.key) :
    order.compare a b = .eq := by
  have hcells : Value.keys (cells order.columns a) = Value.keys (cells order.columns b) := by
    rw [cells, cells, Value.keys_eq_map, Value.keys_eq_map, List.map_map, List.map_map]
    exact List.map_congr_left fun c _ => key_cell_eq_of_key_eq h c
  rw [compare_eq_iff_compareBy_eq, ← compareItems_cells,
    Value.compareItems_eq_iff fun v _ w => Value.compare_eq_iff v w]
  exact hcells

-- Items of one class tie, so sorting leaves the items that are first in their class the same, and
-- sorts these.
theorem firsts_sortBy {α κ : Type} [DecidableEq κ] {key : α → κ} {cmp : α → α → Ordering}
    [Std.TransCmp cmp] (h : ∀ a b, key a = key b → cmp a b = .eq) (as : List α) :
    firsts key (sortBy cmp as) = sortBy cmp (firsts key as) := by
  have hclass : ∀ c a b, key a = key b → decide (cmp a c = .eq) = decide (cmp b c = .eq) := by
    intro c a b hab
    rw [Std.TransCmp.congr_left (h a b hab)]
  have hties : ∀ a, ties cmp a (firsts key (sortBy cmp as)) =
      ties cmp a (sortBy cmp (firsts key as)) := by
    intro a
    calc ties cmp a (firsts key (sortBy cmp as))
        = firsts key (ties cmp a (sortBy cmp as)) := (firsts_filter (hclass a) _).symm
      _ = firsts key (ties cmp a as) := by rw [ties_sortBy]
      _ = ties cmp a (firsts key as) := firsts_filter (hclass a) _
      _ = ties cmp a (sortBy cmp (firsts key as)) := (ties_sortBy a _).symm
  exact eq_of_ties_eq (perm_of_ties_eq hties) ((sortBy_pairwise as).sublist (firsts_sublist _))
    (sortBy_pairwise _) hties

theorem outcome_sort_distinct (order : SortOrder) (rows : Flow Value) :
    (sort order (distinct rows)).outcome = (distinct (sort order rows)).outcome := by
  obtain ⟨hitems, hfailure⟩ := Prod.mk.inj (outcome_distinct rows)
  have hlacks : (firsts Value.key rows.items).findSome? (lacksAny? order.columns) =
      rows.items.findSome? (lacksAny? order.columns) :=
    findSome?_firsts (fun a b => lacksAny?_eq_none_of_key_eq) rows.items
  rw [outcome_sort, hitems, hfailure, hlacks, outcome_distinct]
  have hsort := outcome_sort order rows
  cases hend : (rows.items.findSome? (lacksAny? order.columns)).or rows.failure? with
  | some e =>
    rw [hend] at hsort
    obtain ⟨hsorted, hlast⟩ := Prod.mk.inj hsort
    rw [hsorted, hlast]
    rfl
  | none =>
    rw [hend] at hsort
    obtain ⟨hsorted, hlast⟩ := Prod.mk.inj hsort
    rw [hsorted, hlast, firsts_sortBy fun a b => compare_eq_of_key_eq order]
    rfl

theorem outcome_whenSome_limit {rows others : Flow Value} (count : Option Double)
    (h : rows.outcome = others.outcome) :
    (Plan.whenSome count limit rows).outcome = (Plan.whenSome count limit others).outcome := by
  obtain ⟨hitems, hfailure⟩ := Prod.mk.inj h
  cases count with
  | none => exact h
  | some count =>
    rw [Plan.whenSome, Plan.whenSome, limit, limit]
    cases bound? count with
    | none => exact h
    | some n => rw [Flow.outcome_take, Flow.outcome_take, hitems, hfailure]

-- Sorting what is left without repeats and removing the repeats of what has been sorted come to the
-- same: the same rows, each by the same one of its repeats, or the same failure. A plan that removes
-- repeats and sorts could as well do it in the other order.
theorem sort_distinct (order : SortOrder) (rows : Flow Value) (plan : Plan)
    (grouping : Option Grouping) (sources : Plan.Sources (Input × Query)) :
    let both : Plan := { plan with distinct := true, order := some order }
    let combined := Plan.whenSome grouping aggregate (plan.joined sources)
    (sort order (distinct rows)).outcome = (distinct (sort order rows)).outcome ∧
      (both.rows grouping sources).outcome =
        (Plan.whenSome plan.limit limit (distinct (sort order combined))).outcome :=
  ⟨outcome_sort_distinct order rows,
    outcome_whenSome_limit plan.limit (outcome_sort_distinct order _)⟩

end RecordQuery.Row
