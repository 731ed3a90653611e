import Mathlib.Data.List.TakeWhile
import RecordQuery.Function.Standard
import RecordQuery.Proofs.Plan.Start
import RecordQuery.Proofs.Record.Results
import RecordQuery.Proofs.Row.Distinct
import RecordQuery.Proofs.Row.Group
import RecordQuery.Proofs.Row.Join
import RecordQuery.Proofs.Row.Limit
import RecordQuery.Proofs.Row.Sort

/-!
A run of a plan pulls row by row through all of its stages. What it comes to is the same as if every
stage were given the complete outcome of the stage before it, rows and failure.
-/

namespace RecordQuery

-- What a flow comes to once it is read to its end: items, and the failure that ends them if one
-- does.
abbrev Outcome (α : Type) := List α × Option Failure

namespace Outcome

variable {α β : Type}

-- What a stage sees that refuses some items: the first refused one ends those before it.
def upTo (refusal? : α → Option Failure) (o : Outcome α) : Outcome α :=
  (o.1.takeWhile fun a => (refusal? a).isNone, (o.1.findSome? refusal?).or o.2)

-- A stage that needs all items before it gives any: a failure leaves nothing but itself.
def whole (finish : List α → Outcome β) (o : Outcome α) : Outcome β :=
  match o.2 with
  | some e => ([], some e)
  | none => finish o.1

-- The results of a query on the lines of an input.
def results (reading : Reading) (query : Query) (lines : Outcome Text) : Outcome Value :=
  let read := Reading.joined (reading.outcomes query (reading.countedLines lines.1))
  (read.1, read.2.or lines.2)

-- Of the rows that can be joined, the first set is needed as a whole and the second is passed on.
def join (first second : Outcome Value) : Outcome Value :=
  let joinable (rows : Outcome Value) := rows.upTo fun row => (Row.lack? row).map .column
  (joinable first).whole fun rows => (Row.nestedLoop rows (joinable second).1, (joinable second).2)

def aggregate (grouping : Row.Grouping) (rows : Outcome Value) : Outcome Value :=
  (rows.upTo grouping.lacks?).whole fun rows =>
    untilFailure ((Row.classes grouping.idOf rows).map grouping.summary)

def distinct (rows : Outcome Value) : Outcome Value := (Row.firsts Value.key rows.1, rows.2)

def sort (order : Row.SortOrder) (rows : Outcome Value) : Outcome Value :=
  (rows.upTo (Row.lacksAny? order.columns)).whole fun rows => (Row.sortBy order.compare rows, none)

-- The first `count` items. A failure is not met where there are so many items before it.
def atMost (count : ℕ) (o : Outcome α) : Outcome α :=
  (o.1.take count, if count ≤ o.1.length then none else o.2)

-- A limit of zero is none.
def limit (count : Double) (rows : Outcome α) : Outcome α :=
  match count.toInt? with
  | some n => if n = 0 then rows else rows.atMost n.toNat
  | none => rows

-- A stage that passes items on gives the same of them whatever ends them, and its own failure, if it
-- has one, comes before that of the items.
def PassesOn (stage : Outcome α → Outcome β) : Prop :=
  ∀ items failure?, stage (items, failure?) =
    ((stage (items, none)).1, (stage (items, none)).2.or failure?)

-- A stage that withholds items gives nothing of items that fail, but a refusal among them comes
-- before their failure.
def Withholds (refusal? : α → Option Failure) (stage : Outcome α → Outcome β) : Prop :=
  ∀ items e, stage (items, some e) = ([], some ((items.findSome? refusal?).getD e))

theorem upTo_fst (refusal? : α → Option Failure) (o : Outcome α)
    (h : o.1.findSome? refusal? = none) : (o.upTo refusal?).1 = o.1 := by
  rw [List.findSome?_eq_none_iff] at h
  refine List.takeWhile_eq_self_iff.mpr fun a ha => ?_
  rw [h a ha]
  rfl

theorem whole_upTo (refusal? : α → Option Failure) (finish : List α → Outcome β) (o : Outcome α) :
    (o.upTo refusal?).whole finish =
      ((o.1.findSome? refusal?).or o.2).elim (finish o.1) fun e => ([], some e) := by
  have hend : (o.upTo refusal?).2 = (o.1.findSome? refusal?).or o.2 := rfl
  rw [whole, hend]
  cases h : (o.1.findSome? refusal?).or o.2 with
  | some e => rfl
  | none => rw [upTo_fst refusal? o (Option.or_eq_none_iff.mp h).1, Option.elim_none]

theorem whole_upTo_withholds (refusal? : α → Option Failure) (finish : List α → Outcome β) :
    Withholds refusal? fun o => (o.upTo refusal?).whole finish := fun items e => by
  dsimp only
  rw [whole_upTo]
  cases items.findSome? refusal? <;> rfl

theorem results_passesOn (reading : Reading) (query : Query) :
    PassesOn (results reading query) := fun lines failure? => by
  simp only [results, Option.or_none]

theorem join_withholds (second : Outcome Value) :
    Withholds (fun row => (Row.lack? row).map .column) fun first => join first second := by
  simp only [join]
  exact whole_upTo_withholds _ _

theorem join_passesOn (first : Outcome Value) : PassesOn (join first) := fun rows failure? => by
  simp only [join, whole, upTo, Option.or_none]
  split <;> rfl

-- Every stage gives of a flow what it gives of the outcome of the flow.
theorem outcome_run (reading : Reading) (query : Query) (lines : Flow Text) :
    (reading.run query lines).outcome = results reading query lines.outcome := by
  have hlines := (Reading.run_objects reading query lines.items 0).1
  rw [← Reading.countedLines_eq] at hlines
  obtain ⟨hitems, hfailure⟩ := Prod.mk.inj hlines
  rw [Reading.run, Flow.outcome_expand, Reading.Progress.start, hitems, hfailure]
  rfl

theorem outcome_join (first second : Flow Value) :
    (Row.join first second).outcome = join first.outcome second.outcome := by
  have hlack : ∀ rows : List Value, rows.findSome? (fun row => (Row.lack? row).map Failure.column) =
      (rows.findSome? Row.lack?).map .column := fun rows => by
    rw [List.map_findSome?]
    rfl
  have hjoinable : ∀ rows : List Value,
      (rows.takeWhile fun row => ((Row.lack? row).map Failure.column).isNone) =
        Row.joinable rows := fun rows => by
    simp only [Option.isNone_map, Row.joinable]
  rw [Row.outcome_join, join, whole_upTo]
  simp only [upTo, hlack, hjoinable, Flow.outcome]
  cases first.items.findSome? Row.lack? with
  | some e => rfl
  | none => cases first.failure? <;> rfl

theorem outcome_aggregate (grouping : Row.Grouping) (rows : Flow Value) :
    (Row.aggregate grouping rows).outcome = aggregate grouping rows.outcome := by
  rw [Row.Grouping.outcome_aggregate, aggregate, whole_upTo]
  rfl

theorem outcome_sort (order : Row.SortOrder) (rows : Flow Value) :
    (Row.sort order rows).outcome = sort order rows.outcome := by
  rw [Row.outcome_sort, sort, whole_upTo]
  rfl

theorem outcome_limit {count : Double} {n : ℕ} (h : count.toInt? = some (n : ℤ)) (rows : Flow α) :
    (Row.limit count rows).outcome = limit count rows.outcome := by
  rw [Row.limit, Row.bound?_of_toInt? h, limit, h]
  cases n with
  | zero => rfl
  | succ n => exact Flow.outcome_take (n + 1) rows

end Outcome

namespace Plan

-- The accepted limits are the natural numbers.
theorem isLimit_iff {x : Double} : isLimit x = true ↔ ∃ n : ℕ, x.toInt? = some (n : ℤ) := by
  rw [isLimit, Bool.and_eq_true_iff, Option.isSome_iff_exists]
  constructor
  · rintro ⟨⟨n, hn⟩, hlt⟩
    obtain ⟨hfinite, hvalue⟩ := Double.toInt?_eq_some_iff.mp hn
    rw [Double.lt_eq_decide hfinite rfl, Double.value_zero, hvalue, Bool.not_eq_true',
      decide_eq_false_iff_not, not_lt] at hlt
    obtain ⟨m, rfl⟩ := Int.eq_ofNat_of_zero_le (by exact_mod_cast hlt)
    exact ⟨m, hn⟩
  · rintro ⟨n, hn⟩
    obtain ⟨hfinite, hvalue⟩ := Double.toInt?_eq_some_iff.mp hn
    refine ⟨⟨n, hn⟩, ?_⟩
    rw [Double.lt_eq_decide hfinite rfl, Double.value_zero, hvalue]
    simp

-- What the inputs with their queries come to once every stage has all of the stage before it.
def completed (plan : Plan) (grouping : Option Row.Grouping) (sources : Sources (Input × Query)) :
    Outcome Value :=
  let results (source : Input × Query) :=
    Outcome.results ⟨plan.skipsFirst, plan.defaults, some source.1.name⟩ source.2
      source.1.lines.outcome
  let joined := match sources with
    | .single only => results only
    | .pair first second => Outcome.join (results first) (results second)
  whenSome plan.limit Outcome.limit
    (whenSome plan.order Outcome.sort
      ((if plan.distinct then Outcome.distinct else id)
        (whenSome grouping Outcome.aggregate joined)))

-- A stage that a plan may lack, on flows and on their outcomes.
theorem outcome_whenSome {α β : Type} {setting : Option α} {stage : α → Flow β → Flow β}
    {stage' : α → Outcome β → Outcome β}
    (h : ∀ a flow, setting = some a → (stage a flow).outcome = stage' a flow.outcome)
    (flow : Flow β) :
    (whenSome setting stage flow).outcome = whenSome setting stage' flow.outcome := by
  cases setting with
  | none => rfl
  | some a => exact h a flow rfl

theorem outcome_joined (plan : Plan) (sources : Sources (Input × Query)) :
    (plan.joined sources).outcome = match sources with
      | .single only => (plan.results only).outcome
      | .pair first second =>
        Outcome.join (plan.results first).outcome (plan.results second).outcome := by
  cases sources with
  | single only => rfl
  | pair first second => exact Outcome.outcome_join _ _

theorem outcome_rows {plan : Plan} (h : ∀ x, plan.limit = some x → isLimit x = true)
    (grouping : Option Row.Grouping) (sources : Sources (Input × Query)) :
    (plan.rows grouping sources).outcome = plan.completed grouping sources := by
  have hlimit : ∀ x (flow : Flow Value), plan.limit = some x →
      (Row.limit x flow).outcome = Outcome.limit x flow.outcome := fun x flow hx => by
    obtain ⟨n, hn⟩ := isLimit_iff.mp (h x hx)
    exact Outcome.outcome_limit hn flow
  have hdistinct : ∀ flow, ((if plan.distinct then Row.distinct else id) flow).outcome =
      (if plan.distinct then Outcome.distinct else id) flow.outcome := fun flow => by
    split
    · exact Row.outcome_distinct flow
    · rfl
  rw [rows, outcome_whenSome hlimit, outcome_whenSome fun o flow _ => Outcome.outcome_sort o flow,
    hdistinct, outcome_whenSome fun g flow _ => Outcome.outcome_aggregate g flow, outcome_joined]
  simp only [results, Outcome.outcome_run]
  cases sources <;> rfl

-- A run that starts comes to what its stages make of complete outcomes, one after another: of each
-- input with its query, compiled, and of the grouping that its reducers are read as. What a stage
-- does not need as a whole it passes on; a failure of the rest leaves nothing but itself, or the
-- first row that the stage refuses.
theorem start_outcome {library : Library} {plan : Plan} {flow : Flow Value}
    (h : plan.start library = .ok flow) :
    (∃ sources grouping, sources.toList.map Prod.fst = plan.inputs ∧
      plan.queries.mapM (Query.compile library) = .ok (sources.toList.map Prod.snd) ∧
      plan.aggregation.mapM (Aggregation.grouping library) = .ok grouping ∧
      flow.outcome = plan.completed grouping sources) ∧
    (∀ reading query, Outcome.PassesOn (Outcome.results reading query)) ∧
    (∀ second, Outcome.Withholds (fun row => (Row.lack? row).map .column)
      fun first => Outcome.join first second) ∧
    (∀ first, Outcome.PassesOn (Outcome.join first)) ∧
    (∀ grouping, Outcome.Withholds grouping.lacks? (Outcome.aggregate grouping)) ∧
    Outcome.PassesOn Outcome.distinct ∧
    ∀ order, Outcome.Withholds (Row.lacksAny? order.columns) (Outcome.sort order) := by
  refine ⟨?_, Outcome.results_passesOn, Outcome.join_withholds, Outcome.join_passesOn,
    fun grouping => Outcome.whole_upTo_withholds _ _, fun rows failure? => rfl,
    fun order => Outcome.whole_upTo_withholds _ _⟩
  obtain ⟨sources, compiled, grouping, hchecked, hcompiled, hgrouping, rfl⟩ := start_eq_ok_iff.mp h
  obtain ⟨hsources, -, -, hlimit⟩ := checked_eq_ok_iff.mp hchecked
  obtain ⟨hinputs, hqueries⟩ := map_compiled hsources hcompiled
  exact ⟨compiled, grouping, hinputs, hqueries, hgrouping, outcome_rows hlimit grouping compiled⟩

-- Two inputs, the second of which fails after its last line, through every stage.
def everyStage : Plan where
  queries := ["_", "_"]
  inputs := [⟨"a", .ofList ["1,x", "2,y"]⟩,
    ⟨"b", .append (.ofList ["2,p", "1,q"]) fun _ => .failed (.input "b" .missing)⟩]
  skipsFirst := false
  defaults := []
  aggregation := some ⟨["count"], [.ofNat 0], .ofNat 1⟩
  distinct := true
  order := some ⟨[.ofNat 1], true⟩
  limit := some (.ofNat 1)

theorem start_outcome_everyStage : ∃ flow, everyStage.start .standard = .ok flow ∧
    ∃ sources grouping, sources.toList.map Prod.fst = everyStage.inputs ∧
      everyStage.queries.mapM (Query.compile .standard) = .ok (sources.toList.map Prod.snd) ∧
      everyStage.aggregation.mapM (Aggregation.grouping .standard) = .ok grouping ∧
      flow.outcome = everyStage.completed grouping sources := by
  have hstarts : (everyStage.start .standard).toOption.isSome = true := by decide +kernel
  obtain ⟨flow, hflow⟩ := Option.isSome_iff_exists.mp hstarts
  rw [toOption_eq_some_iff] at hflow
  exact ⟨flow, hflow, (start_outcome hflow).1⟩

-- A failure of the lines does not outlive the row before it that lacks a sort column.
theorem sort_not_whole : ¬∀ (input : Input) (text : Text) (query : Query) (order : Row.SortOrder)
    (flow : Flow Value) (e : Failure), Query.compile .standard text = .ok query →
      start .standard ⟨[text], [input], false, [], none, false, some order, none⟩ = .ok flow →
      ((⟨false, [], some input.name⟩ : Reading).run query input.lines).failure? = some e →
      flow.outcome = ([], some e) := by
  let input : Input := ⟨"a", .ofList ["1", "\"a"]⟩
  let order : Row.SortOrder := ⟨[.ofNat 5], false⟩
  have hrun : ((Query.compile .standard "_").toOption.any fun query =>
      (start .standard ⟨["_"], [input], false, [], none, false, some order, none⟩).toOption.any
        fun flow => ((⟨false, [], some input.name⟩ : Reading).run query input.lines).failure?.any
          fun e => flow.failure?.any fun e' => e.message != e'.message) = true := by
    decide +kernel
  obtain ⟨query, hquery, hrun⟩ := Option.any_eq_true _ _ |>.mp hrun
  obtain ⟨flow, hflow, hrun⟩ := Option.any_eq_true _ _ |>.mp hrun
  obtain ⟨e, he, hrun⟩ := Option.any_eq_true _ _ |>.mp hrun
  obtain ⟨e', he', hmessage⟩ := Option.any_eq_true _ _ |>.mp hrun
  intro h
  have houtcome := h input "_" query order flow e (toOption_eq_some_iff.mp hquery)
    (toOption_eq_some_iff.mp hflow) he
  rw [Flow.outcome, Prod.mk.injEq, he', Option.some.injEq] at houtcome
  rw [houtcome.2, bne_self_eq_false] at hmessage
  cases hmessage

end Plan

end RecordQuery
