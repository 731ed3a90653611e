import RecordQuery.Proofs.Flow
import RecordQuery.Proofs.Row.Class
import RecordQuery.Proofs.Value.Key
import RecordQuery.Row.Distinct

/-!
Rows without repeats. What stays is the first row of every structure, whatever comes after it, and a
failure of the rows comes after what stays of the rows before it.
-/

namespace RecordQuery.Row

theorem unseen_of_mem {keys : List Text} {row : Value} (h : row.key ∈ keys) :
    unseen keys row = (keys, .done) := by
  simp [unseen, h]

theorem unseen_of_notMem {keys : List Text} {row : Value} (h : row.key ∉ keys) :
    unseen keys row = (row.key :: keys, .ofList [row]) := by
  simp [unseen, h]

-- The invariant of the keys that have been seen: of the rows after them those stay that are the first
-- of their key, unless the key is among them.
theorem outcome_expand_unseen (keys : List Text) (rows : Flow Value) :
    (rows.expand unseen keys).outcome =
      ((firsts Value.key rows.items).filter fun row => row.key ∉ keys, rows.failure?) := by
  induction rows generalizing keys with
  | done => rfl
  | failed e => rfl
  | event e rest ih => exact ih () keys
  | item row rest ih =>
    rw [Flow.expand, Flow.items, firsts, List.filter_cons, List.filter_filter]
    by_cases hseen : row.key ∈ keys
    · have hkept : ∀ other ∈ firsts Value.key (rest ()).items,
          (decide (other.key ∉ keys) && decide (other.key ≠ row.key)) =
            decide (other.key ∉ keys) := by
        intro other _
        grind
      rw [unseen_of_mem hseen, if_neg (by simpa using hseen), List.filter_congr hkept]
      exact ih () keys
    · have hkept : ∀ other ∈ firsts Value.key (rest ()).items,
          (decide (other.key ∉ keys) && decide (other.key ≠ row.key)) =
            decide (other.key ∉ row.key :: keys) := by
        intro other _
        grind
      have hrest := ih () (row.key :: keys)
      rw [Flow.outcome, Prod.mk.injEq] at hrest
      rw [unseen_of_notMem hseen, if_pos (decide_eq_true hseen), List.filter_congr hkept,
        Flow.outcome, Flow.items_ofList_append, Flow.failure?_ofList_append, hrest.1, hrest.2]
      rfl

theorem outcome_distinct (rows : Flow Value) :
    (distinct rows).outcome = (firsts Value.key rows.items, rows.failure?) := by
  rw [distinct, outcome_expand_unseen]
  simp

-- The rows that stay are in their order and no two of them have the same structure, and of the rows
-- of one structure it is the first that stays. A failure comes after what stays of the rows before
-- it.
theorem distinct_keeps_firsts (rows : Flow Value) (hnames : ∀ row ∈ rows.items, row.DistinctNames) :
    let kept := (distinct rows).items
    kept.Sublist rows.items ∧ kept.Pairwise (fun a b => ¬a.Same b) ∧
      (∀ row ∈ rows.items, ∃ before first after, rows.items = before ++ first :: after ∧
        (∀ other ∈ before, ¬other.Same row) ∧
        ∀ other, other ∈ kept ∧ other.Same row ↔ other = first) ∧
      (distinct rows).outcome = ((distinct (.ofList rows.items)).items, rows.failure?) := by
  intro kept
  have hkept : kept = firsts Value.key rows.items := congrArg Prod.fst (outcome_distinct rows)
  have hlist : (distinct (.ofList rows.items)).items = firsts Value.key rows.items := by
    have h := congrArg Prod.fst (outcome_distinct (.ofList rows.items))
    rwa [Flow.items_ofList] at h
  have hsame : ∀ a ∈ rows.items, ∀ b ∈ rows.items, a.key = b.key ↔ a.Same b := fun a ha b hb =>
    Value.equals_iff.symm.trans (Value.equals_iff_same (hnames a ha) (hnames b hb))
  have hsublist : (firsts Value.key rows.items).Sublist rows.items := firsts_sublist rows.items
  rw [hkept, hlist, outcome_distinct]
  refine ⟨hsublist, ?_, fun row hrow => ?_, rfl⟩
  · refine (firsts_pairwise rows.items).imp_of_mem fun ha hb hne => ?_
    rwa [← hsame _ (hsublist.subset ha) _ (hsublist.subset hb)]
  · obtain ⟨before, first, after, hitems, hkey, hbefore, hfirst⟩ := exists_first Value.key hrow
    refine ⟨before, first, after, hitems, fun other hother => ?_, fun other => ⟨?_, ?_⟩⟩
    · have hmem : other ∈ rows.items := by
        rw [hitems]
        exact List.mem_append_left _ hother
      rw [← hsame other hmem row hrow]
      exact hbefore other hother
    · rintro ⟨hother, hrowother⟩
      refine eq_of_mem_firsts hother hfirst (Eq.trans ?_ hkey.symm)
      exact (hsame other (hsublist.subset hother) row hrow).mpr hrowother
    · rintro rfl
      exact ⟨hfirst, (hsame other (hsublist.subset hfirst) row hrow).mp hkey⟩

-- An integer in two forms, as rows around another row and in front of a failure. The form that comes
-- first stays.
theorem distinct_keeps_firsts_forms :
    let double := Value.tuple [.number (.float (Double.ofInt 9007199254740992))]
    let exact := Value.tuple [.number (.big 9007199254740992)]
    let e := Failure.column (.noItems (.ofNat 0) .null)
    let rows := Flow.item double fun _ => .item .null fun _ => .item exact fun _ => .failed e
    (∀ row ∈ rows.items, row.DistinctNames) ∧ (distinct rows).outcome = ([double, .null], some e) ∧
      double.Same exact := by
  intro double exact e rows
  have hnames : ∀ row ∈ rows.items, row.DistinctNames := by
    simp [rows, double, exact, Flow.items, Value.DistinctNames.number, Value.DistinctNames.null]
  have hkeys : double.key = exact.key ∧ Value.null.key ≠ double.key := by decide +kernel
  have hrows : (distinct rows).outcome = ([double, .null], some e) := by
    rw [outcome_distinct]
    simp [rows, Flow.items, Flow.failure?, firsts, ← hkeys.1, hkeys.2, hkeys.2.symm]
  obtain ⟨-, -, hfirst, -⟩ := distinct_keeps_firsts rows hnames
  obtain ⟨-, first, -, -, -, hkept⟩ := hfirst exact (by simp [rows, Flow.items])
  obtain ⟨hmem, hsame⟩ := (hkept first).mpr rfl
  rw [(Prod.mk.inj hrows).1, List.mem_pair] at hmem
  rcases hmem with rfl | rfl
  · exact ⟨hnames, hrows, hsame⟩
  · have hnull : Value.Same .null (.tuple _) := hsame
    cases hnull

end RecordQuery.Row
