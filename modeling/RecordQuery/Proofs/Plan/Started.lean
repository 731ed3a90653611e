import RecordQuery.Proofs.Flow
import RecordQuery.Proofs.Plan.Refusal
import RecordQuery.Row.Distinct
import RecordQuery.Row.Join
import RecordQuery.Row.Limit
import RecordQuery.Row.Sort

/-!
A run that has started is not refused any more. What it can still fail with is a line that is no
record, a query or reducer that meets a value it cannot take, a row that lacks a column and an input
that fails itself.
-/

namespace RecordQuery

namespace Flow

variable {α : Type}

-- Neither settings nor the text of a query or reducer are what the flow fails with.
def NeverRefused (flow : Flow α) : Prop := flow.FailsOnly fun e => ¬e.IsRefusal

end Flow

open RecordQuery.Flow (FailsOnly)

namespace Reading

variable {query : Query}

theorem neverRefused_results (number : Nat) (record : Record) :
    (results query number record).NeverRefused := by
  unfold results
  split
  · exact FailsOnly.ofList _
  · exact FailsOnly.failed (Failure.not_isRefusal_evaluation _)

theorem neverRefused_step (reading : Reading) (progress : Progress) (line : Text) :
    (reading.step query progress line).2.NeverRefused := by
  have hnoting : ∀ entry (flow : Flow Value), flow.NeverRefused →
      (noting entry flow).NeverRefused := by
    intro entry flow h
    cases entry with
    | none => exact h
    | some entry => exact h
  unfold step
  dsimp only
  split
  · exact FailsOnly.done
  · apply hnoting
    split
    · exact neverRefused_results _ _
    · next refusal _ =>
      cases refusal with
      | unreadable =>
        rw [Record.Refusal.failure]
        exact FailsOnly.failed (Failure.not_isRefusal (by simp) (by simp))
      | fault e => exact FailsOnly.failed (Failure.not_isRefusal_evaluation _)

theorem neverRefused_run (reading : Reading) {lines : Flow Text} (h : lines.NeverRefused) :
    (reading.run query lines).NeverRefused :=
  h.expand (neverRefused_step reading) .start

end Reading

namespace Row

variable {rows first second : Flow Value}

theorem not_isRefusal_of_keyed {row : Value} {e : Failure} (h : Keyed.of row = .error e) :
    ¬e.IsRefusal := by
  unfold Keyed.of at h
  split at h
  · cases h
  · cases h
    exact Failure.not_isRefusal (by simp) (by simp)
  · cases h
    exact Failure.not_isRefusal (by simp) (by simp)

theorem neverRefused_join (ha : first.NeverRefused) (hb : second.NeverRefused) :
    (join first second).NeverRefused := by
  apply FailsOnly.gather ha
  · intro table row e he
    cases hrow : Keyed.of row with
    | ok keyed =>
      rw [hrow] at he
      cases he
    | error e' =>
      rw [hrow] at he
      cases he
      exact not_isRefusal_of_keyed hrow
  · intro table
    apply FailsOnly.expand hb
    intro _ row
    dsimp only
    split
    · exact FailsOnly.ofList _
    · next e he => exact FailsOnly.failed (not_isRefusal_of_keyed he)

theorem neverRefused_aggregate (grouping : Grouping) (h : rows.NeverRefused) :
    (aggregate grouping rows).NeverRefused := by
  apply FailsOnly.gather h
  · intro groups row e he
    unfold Grouping.add at he
    split at he
    · cases he
      exact Failure.not_isRefusal (by simp) (by simp)
    · split at he
      · cases he
        exact Failure.not_isRefusal (by simp) (by simp)
      · cases he
  · intro groups
    induction groups.values with
    | nil => exact FailsOnly.done
    | cons group rest ih =>
      rw [Grouping.tuples]
      split
      · exact ih
      · exact FailsOnly.failed (Failure.not_isRefusal_evaluation _)

theorem neverRefused_distinct (h : rows.NeverRefused) : (distinct rows).NeverRefused := by
  apply FailsOnly.expand h
  intro keys row
  unfold unseen
  dsimp only
  split
  · exact FailsOnly.done
  · exact FailsOnly.ofList _

theorem neverRefused_sort (order : SortOrder) (h : rows.NeverRefused) :
    (sort order rows).NeverRefused := by
  apply FailsOnly.gather h
  · intro sorted row e he
    rcases bind_eq_error_iff.mp he with hrow | ⟨prepared, -, hok⟩
    · unfold SortOrder.prepare at hrow
      split at hrow
      · cases hrow
      · cases hrow
        exact Failure.not_isRefusal (by simp) (by simp)
    · cases hok
  · intro sorted
    exact FailsOnly.ofList _

theorem neverRefused_limit (count : Double) (h : rows.NeverRefused) :
    (limit count rows).NeverRefused := by
  unfold limit
  split
  · exact h.take _
  · exact h

end Row

namespace Plan

variable {library : Library} {plan : Plan}

theorem neverRefused_whenSome {α : Type} {setting : Option α} {stage : α → Flow Value → Flow Value}
    {flow : Flow Value} (h : flow.NeverRefused)
    (hstage : ∀ a flow, flow.NeverRefused → (stage a flow).NeverRefused) :
    (whenSome setting stage flow).NeverRefused := by
  cases setting with
  | none => exact h
  | some a => exact hstage a flow h

theorem neverRefused_joined {sources : Sources (Input × Query)}
    (h : ∀ source ∈ sources.toList, source.1.lines.NeverRefused) :
    (plan.joined sources).NeverRefused := by
  cases sources with
  | single only => exact Reading.neverRefused_run _ (h only List.mem_cons_self)
  | pair first second =>
    obtain ⟨hfirst, hsecond⟩ := List.forall_mem_cons.mp h
    exact Row.neverRefused_join (Reading.neverRefused_run _ hfirst)
      (Reading.neverRefused_run _ (hsecond second List.mem_cons_self))

-- What a run that has started fails with is no refusal, unless its inputs fail with one.
theorem neverRefused_of_start {flow : Flow Value} (h : plan.start library = .ok flow)
    (hlines : ∀ input ∈ plan.inputs, input.lines.NeverRefused) : flow.NeverRefused := by
  obtain ⟨sources, compiled, grouping, hchecked, hcompiled, -, rfl⟩ := start_eq_ok_iff.mp h
  have hinputs := (map_compiled (checked_eq_ok_iff.mp hchecked).1 hcompiled).1
  have hjoined : (plan.joined compiled).NeverRefused := by
    apply neverRefused_joined
    intro source hsource
    apply hlines
    rw [← hinputs]
    exact List.mem_map_of_mem hsource
  have haggregated : (whenSome grouping Row.aggregate (plan.joined compiled)).NeverRefused :=
    neverRefused_whenSome hjoined fun grouping flow => Row.neverRefused_aggregate grouping
  have hdistinct : ((if plan.distinct then Row.distinct else id)
      (whenSome grouping Row.aggregate (plan.joined compiled))).NeverRefused := by
    split
    · exact Row.neverRefused_distinct haggregated
    · exact haggregated
  apply neverRefused_whenSome
  · exact neverRefused_whenSome hdistinct fun order flow => Row.neverRefused_sort order
  · exact fun count flow => Row.neverRefused_limit count

end Plan

end RecordQuery
