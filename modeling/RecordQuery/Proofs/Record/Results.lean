import Mathlib.Tactic
import RecordQuery.Proofs.Flow
import RecordQuery.Record.Results

/-!
The results of a query over the lines of an input, said without a state that is handed from line to
line. The lines that count are the objects in front, then rows from the first line that is no
object; each has an outcome of its own, and a run gives the outcomes one after another up to the
first failure.
-/

namespace RecordQuery.Reading

-- The lines that count, each with its number: all but a first line that is skipped and blank ones.
def countedLines (reading : Reading) (lines : List Text) : List (Text × Nat) :=
  ((lines.zipIdx 1).drop (if reading.skipsFirst then 1 else 0)).filter fun l => !l.1.trim.isEmpty

def isObject (l : Text × Nat) : Bool := (Record.object? l.1).isSome

theorem read?_of_object? {line : Text} {fields : Fields Value}
    (h : Record.object? line = some fields) : Json.read? line = some (.object fields) := by
  unfold Record.object? at h
  split at h
  · next found hread =>
    cases h
    exact hread
  · cases h

-- What a query contributes on a line whose names have the given values.
def answer (query : Query) (number : Nat) (scope : Scope) : Except Failure (List Value) :=
  match query.evaluate scope with
  | .ok v => .ok (contribution v)
  | .error e => .error (.evaluation ⟨e, some number⟩)

-- An object is seen over the default one, through the names of its fields.
def objectOutcome? (reading : Reading) (query : Query) (l : Text × Nat) :
    Option (Except Failure (List Value)) :=
  (Record.object? l.1).map fun fields =>
    answer query l.2 (Record.ofObject reading.defaults fields).scope

-- A row is seen as the tuple of its fields, which alone has a name.
def rowOutcome (query : Query) (l : Text × Nat) : Except Failure (List Value) :=
  match Csv.fields l.1 with
  | .error _ => .error (.unreadable l.1 (some l.2))
  | .ok fields =>
    match Record.tupleOf fields with
    | .error e => .error (.evaluation ⟨e, none⟩)
    | .ok row => answer query l.2 [(Record.selfName, row)]

-- The objects in front have the outcomes of objects, all lines from the first one that is no object
-- those of rows.
def objectOutcomes (reading : Reading) (query : Query) (counted : List (Text × Nat)) :
    List (Except Failure (List Value)) :=
  (counted.takeWhile isObject).filterMap (reading.objectOutcome? query)

def outcomes (reading : Reading) (query : Query) (counted : List (Text × Nat)) :
    List (Except Failure (List Value)) :=
  reading.objectOutcomes query counted ++ (counted.dropWhile isObject).map (rowOutcome query)

-- The items of outcomes one after another up to the first failure, and that failure.
def joined : List (Except Failure (List Value)) → List Value × Option Failure
  | [] => ([], none)
  | .error e :: _ => ([], some e)
  | .ok items :: rest => (items ++ (joined rest).1, (joined rest).2)

-- One entry for the first line that is no object, if no line before it fails.
def switchLog (reading : Reading) (query : Query) (counted : List (Text × Nat)) : List LogEntry :=
  match counted.dropWhile isObject with
  | [] => []
  | (_, number) :: _ =>
    if (joined (reading.objectOutcomes query counted)).2.isNone then
      [.separated reading.source (some number)]
    else []

variable {reading : Reading} {query : Query} {lines : List Text} {line : Text} {n : Nat}
  {counted : List (Text × Nat)} {fields : Fields Value} {mode : Mode}

-- Whether the line with the given number counts.
def counts (reading : Reading) (l : Text × Nat) : Bool :=
  !((reading.skipsFirst && l.2 == 1) || l.1.trim.isEmpty)

-- The lines that count among those after the first `n`.
def countedAfter (reading : Reading) (n : Nat) (lines : List Text) : List (Text × Nat) :=
  (lines.zipIdx (n + 1)).filter reading.counts

theorem countedAfter_cons : reading.countedAfter n (line :: lines) =
    if reading.counts (line, n + 1) then (line, n + 1) :: reading.countedAfter (n + 1) lines
    else reading.countedAfter (n + 1) lines := by
  rw [countedAfter, List.zipIdx_cons, List.filter_cons]
  rfl

theorem countedLines_eq : reading.countedLines lines = reading.countedAfter 0 lines := by
  rw [countedAfter]
  cases lines with
  | nil => cases hskip : reading.skipsFirst <;> simp [countedLines, hskip]
  | cons first rest =>
    have hrest : (rest.zipIdx 2).filter (fun l => !l.1.trim.isEmpty)
        = (rest.zipIdx 2).filter reading.counts := by
      refine List.filter_congr fun l hl => ?_
      have hne : (l.2 == 1) = false := by
        have := List.le_snd_of_mem_zipIdx hl
        rw [beq_eq_false_iff_ne]
        omega
      rw [counts, hne, Bool.and_false, Bool.false_or]
    cases hskip : reading.skipsFirst with
    | true => simp [countedLines, hskip, List.zipIdx_cons, counts, hrest]
    | false =>
      simp [countedLines, hskip, List.zipIdx_cons, List.filter_cons, counts, hrest]

-- The flow that an outcome is.
def flowOf : Except Failure (List Value) → Flow Value
  | .ok items => .ofList items
  | .error e => .failed e

theorem outcome_flowOf_append {o : Except Failure (List Value)} {second : Unit → Flow Value}
    {os : List (Except Failure (List Value))} (h : (second ()).outcome = joined os) :
    ((flowOf o).append second).outcome = joined (o :: os) := by
  cases o with
  | error e => rfl
  | ok items =>
    rw [joined, ← h, flowOf, Flow.outcome, Flow.items_ofList_append, Flow.failure?_ofList_append]
    rfl

theorem log_flowOf_append {o : Except Failure (List Value)} {second : Unit → Flow Value} :
    ((flowOf o).append second).log =
      match o with
      | .ok _ => (second ()).log
      | .error _ => [] := by
  cases o with
  | error e => rfl
  | ok items => exact Flow.log_ofList_append items second

theorem results_eq_flowOf (record : Record) :
    results query n record = flowOf (answer query n record.scope) := by
  rw [results, answer]
  cases query.evaluate record.scope <;> rfl

-- What one line does, by whether it counts, what the lines before it were taken for, and whether it
-- is an object.
theorem step_uncounted (h : reading.counts (line, n + 1) = false) :
    reading.step query ⟨mode, n⟩ line = (⟨mode, n + 1⟩, .done) := by
  rw [counts, Bool.not_eq_false'] at h
  simp only [step, h, if_true]

theorem not_skipped (h : reading.counts (line, n + 1) = true) :
    ((reading.skipsFirst && n + 1 == 1) || line.trim.isEmpty) = false := by
  rwa [counts, Bool.not_eq_true'] at h

theorem step_object (h : reading.counts (line, n + 1) = true)
    (hobject : Record.object? line = some fields) :
    reading.step query ⟨.json, n⟩ line =
      (⟨.json, n + 1⟩,
        flowOf (answer query (n + 1) (Record.ofObject reading.defaults fields).scope)) := by
  simp only [step, not_skipped h, Record.read, hobject, Record.changed, if_true, noting,
    results_eq_flowOf, Bool.false_eq_true, if_false]

theorem ofRow_flow : (match Record.ofRow line with
    | .ok record => results query n record
    | .error refusal => .failed (refusal.failure line (some n))) =
      flowOf (rowOutcome query (line, n)) := by
  simp only [Record.ofRow, rowOutcome]
  cases Csv.fields line with
  | error e => rfl
  | ok fields =>
    simp only
    cases Record.tupleOf fields with
    | error e => rfl
    | ok row => exact results_eq_flowOf _

theorem step_row (h : reading.counts (line, n + 1) = true) :
    reading.step query ⟨.csv, n⟩ line =
      (⟨.csv, n + 1⟩, flowOf (rowOutcome query (line, n + 1))) := by
  simp only [step, not_skipped h, Record.read, Record.changed, if_true, noting,
    Bool.false_eq_true, if_false]
  exact congrArg (Prod.mk _) ofRow_flow

theorem step_firstRow (h : reading.counts (line, n + 1) = true)
    (hobject : Record.object? line = none) :
    reading.step query ⟨.json, n⟩ line = (⟨.csv, n + 1⟩,
      .event (.logged (.separated reading.source (some (n + 1))))
        fun _ => flowOf (rowOutcome query (line, n + 1))) := by
  simp only [step, not_skipped h, Record.read, hobject, Record.changed, reduceCtorEq, noting,
    Bool.false_eq_true, if_false]
  exact congrArg (fun flow => (_, Flow.event _ fun _ => flow)) ofRow_flow

-- The lines from some line on: what they come to with and without that line.
theorem outcomes_cons_object {l : Text × Nat} (h : Record.object? l.1 = some fields) :
    reading.outcomes query (l :: counted) =
      answer query l.2 (Record.ofObject reading.defaults fields).scope
        :: reading.outcomes query counted := by
  have hobject : isObject l = true := by rw [isObject, h, Option.isSome_some]
  simp only [outcomes, objectOutcomes, List.takeWhile_cons, List.dropWhile_cons, hobject, if_true,
    List.filterMap_cons, objectOutcome?, h, Option.map_some, List.cons_append]

theorem outcomes_cons_row {l : Text × Nat} (h : Record.object? l.1 = none) :
    reading.outcomes query (l :: counted) = (l :: counted).map (rowOutcome query) := by
  have hobject : isObject l = false := by rw [isObject, h, Option.isSome_none]
  simp only [outcomes, objectOutcomes, List.takeWhile_cons, List.dropWhile_cons, hobject,
    Bool.false_eq_true, if_false, List.filterMap_nil, List.nil_append]

theorem switchLog_cons_object {l : Text × Nat} (h : Record.object? l.1 = some fields) :
    reading.switchLog query (l :: counted) =
      match answer query l.2 (Record.ofObject reading.defaults fields).scope with
      | .ok _ => reading.switchLog query counted
      | .error _ => [] := by
  have hobject : isObject l = true := by rw [isObject, h, Option.isSome_some]
  simp only [switchLog, objectOutcomes, List.takeWhile_cons, List.dropWhile_cons, hobject, if_true,
    List.filterMap_cons, objectOutcome?, h, Option.map_some]
  cases answer query l.2 (Record.ofObject reading.defaults fields).scope with
  | ok items => rfl
  | error e => cases counted.dropWhile isObject <;> rfl

theorem switchLog_cons_row {l : Text × Nat} (h : Record.object? l.1 = none) :
    reading.switchLog query (l :: counted) = [.separated reading.source (some l.2)] := by
  have hobject : isObject l = false := by rw [isObject, h, Option.isSome_none]
  simp only [switchLog, objectOutcomes, List.takeWhile_cons, List.dropWhile_cons, hobject,
    Bool.false_eq_true, if_false]
  rfl

-- Lines after the first that is no object all have the outcomes of rows, and nothing is logged.
theorem run_rows (reading : Reading) (query : Query) (lines : List Text) (n : Nat) :
    ((Flow.ofList lines).expand (reading.step query) ⟨.csv, n⟩).outcome =
        joined ((reading.countedAfter n lines).map (rowOutcome query)) ∧
      ((Flow.ofList lines).expand (reading.step query) ⟨.csv, n⟩).log = [] := by
  induction lines generalizing n with
  | nil => exact ⟨rfl, rfl⟩
  | cons line lines ih =>
    obtain ⟨houtcome, hlog⟩ := ih (n + 1)
    rw [Flow.ofList, Flow.expand, countedAfter_cons]
    cases hcounts : reading.counts (line, n + 1) with
    | false =>
      rw [step_uncounted hcounts]
      exact ⟨houtcome, hlog⟩
    | true =>
      rw [step_row hcounts]
      refine ⟨outcome_flowOf_append houtcome, ?_⟩
      rw [log_flowOf_append, hlog]
      cases rowOutcome query (line, n + 1) <;> rfl

-- Up to the first line that is no object, lines have the outcomes of objects.
theorem run_objects (reading : Reading) (query : Query) (lines : List Text) (n : Nat) :
    ((Flow.ofList lines).expand (reading.step query) ⟨.json, n⟩).outcome =
        joined (reading.outcomes query (reading.countedAfter n lines)) ∧
      ((Flow.ofList lines).expand (reading.step query) ⟨.json, n⟩).log =
        reading.switchLog query (reading.countedAfter n lines) := by
  induction lines generalizing n with
  | nil => exact ⟨rfl, rfl⟩
  | cons line lines ih =>
    obtain ⟨houtcome, hlog⟩ := ih (n + 1)
    rw [Flow.ofList, Flow.expand, countedAfter_cons]
    cases hcounts : reading.counts (line, n + 1) with
    | false =>
      rw [step_uncounted hcounts]
      exact ⟨houtcome, hlog⟩
    | true =>
      rw [if_pos rfl]
      cases hobject : Record.object? line with
      | some fields =>
        rw [step_object hcounts hobject, outcomes_cons_object hobject,
          switchLog_cons_object hobject]
        refine ⟨outcome_flowOf_append houtcome, ?_⟩
        rw [log_flowOf_append, hlog]
      | none =>
        rw [step_firstRow hcounts hobject, outcomes_cons_row hobject, switchLog_cons_row hobject]
        obtain ⟨hrows, hnothing⟩ := run_rows reading query lines (n + 1)
        refine ⟨outcome_flowOf_append hrows, ?_⟩
        rw [Flow.append, Flow.log_event_logged, log_flowOf_append, hnothing]
        cases rowOutcome query (line, n + 1) <;> rfl

-- A run gives the outcomes of its lines one after another up to the first failure, notes the first
-- line that is no object, and gives more items on more lines.
theorem run_eq_reference (reading : Reading) (query : Query) (lines : List Text) :
    let flow := reading.run query (.ofList lines)
    let counted := reading.countedLines lines
    flow.outcome = joined (reading.outcomes query counted) ∧
      flow.log = reading.switchLog query counted ∧
      ∀ more, flow.items <+: (reading.run query (.ofList (lines ++ more))).items := by
  intro flow counted
  obtain ⟨houtcome, hlog⟩ := run_objects reading query lines 0
  rw [← countedLines_eq] at houtcome hlog
  refine ⟨houtcome, hlog, fun more => ?_⟩
  rw [run, Flow.expand_append]
  exact Flow.items_prefix_append _ _

end RecordQuery.Reading
