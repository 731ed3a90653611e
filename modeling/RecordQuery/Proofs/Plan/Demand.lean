import RecordQuery.Proofs.Flow.Upstream
import RecordQuery.Proofs.Plan.Outcome

/-!
What a limit saves. A limit on rows asks for a row only if some of its rows are missing, and a plan
whose stages work row by row hands this on to the lines of its input: the lines after the one that
gives the last result are not asked for.
-/

namespace RecordQuery

namespace Plan

variable {library : Library} {plan : Plan}

-- The plan with other lines for its inputs.
def withLines (plan : Plan) (lines : Flow Text) : Plan :=
  { plan with inputs := plan.inputs.map fun input => { input with lines } }

-- The run of the plan on some lines, or else the failure that it does not start with.
def run (library : Library) (plan : Plan) (lines : Flow Text) : Flow Value :=
  match (plan.withLines lines).start library with
  | .ok flow => flow
  | .error e => .failed e

def unlimited (plan : Plan) : Plan := { plan with limit := none }

-- A plan that starts, on one input, and has no stage that needs all rows before it gives any.
structure Streams (library : Library) (plan : Plan) : Prop where
  single : plan.inputs.length = 1
  aggregation : plan.aggregation = none
  order : plan.order = none
  starts : ∃ flow, plan.start library = .ok flow

-- The rows of a source before the limit.
def rowsOf (plan : Plan) (source : Input × Query) : Flow Value :=
  (if plan.distinct then Row.distinct else id) (plan.results source)

theorem start_eq_of_single {input : Input} {text : Text} {query : Query}
    (hinputs : plan.inputs = [input]) (hqueries : plan.queries = [text])
    (hquery : Query.compile library text = .ok query) (haggregation : plan.aggregation = none)
    (horder : plan.order = none) (hlimit : ∀ x, plan.limit = some x → isLimit x = true) :
    plan.start library = .ok (.event (.logged plan.assembled) fun _ =>
      whenSome plan.limit Row.limit (plan.rowsOf (input, query))) := by
  have hsources : plan.sources = .ok (.single (input, text)) := by
    rw [Plan.sources, hinputs, hqueries]
  have hchecked : plan.checked = .ok (.single (input, text)) := by
    refine checked_eq_ok_iff.mpr ⟨hsources, ?_, ?_, hlimit⟩
    · simp [haggregation]
    · simp [horder]
  refine start_eq_ok_iff.mpr ⟨_, .single (input, query), none, hchecked, ?_, ?_, ?_⟩
  · have hcompiled : compiledSource library (input, text) = .ok (input, query) :=
      compiledSource_eq_ok_iff.mpr ⟨rfl, hquery⟩
    rw [Sources.mapM, hcompiled]
    rfl
  · rw [haggregation]
    rfl
  · rw [rows, horder]
    rfl

theorem assembled_withLines (plan : Plan) (lines : Flow Text) :
    (plan.withLines lines).assembled = plan.assembled := by
  simp [assembled, withLines, stages, Function.comp_def]

theorem run_eq_of_single {input : Input} {text : Text} {query : Query}
    (hinputs : plan.inputs = [input]) (hqueries : plan.queries = [text])
    (hquery : Query.compile library text = .ok query) (haggregation : plan.aggregation = none)
    (horder : plan.order = none) (hlimit : ∀ x, plan.limit = some x → isLimit x = true)
    (lines : Flow Text) :
    plan.run library lines = .event (.logged plan.assembled) fun _ =>
      whenSome plan.limit Row.limit (plan.rowsOf ({ input with lines }, query)) := by
  have hlines : (plan.withLines lines).inputs = [{ input with lines }] := by
    rw [withLines, hinputs, List.map_singleton]
  rw [run, start_eq_of_single hlines hqueries hquery haggregation horder hlimit,
    assembled_withLines]
  rfl

theorem exists_single (h : plan.Streams library) : ∃ input text query,
    plan.inputs = [input] ∧ plan.queries = [text] ∧ Query.compile library text = .ok query ∧
      ∀ x, plan.limit = some x → isLimit x = true := by
  obtain ⟨flow, hstart⟩ := h.starts
  obtain ⟨sources, compiled, grouping, hchecked, hcompiled, -⟩ := start_eq_ok_iff.mp hstart
  obtain ⟨hsources, -, -, hlimit⟩ := checked_eq_ok_iff.mp hchecked
  obtain ⟨hinputs, hqueries⟩ := map_compiled hsources hcompiled
  obtain ⟨text, htext⟩ : ∃ text, plan.queries = [text] := by
    rw [← List.length_eq_one_iff, ← (map_sources hsources).2, List.length_map,
      ← List.length_map Prod.fst, (map_sources hsources).1, h.single]
  obtain ⟨source, hsource⟩ : ∃ source, compiled.toList = [source] := by
    rw [← List.length_eq_one_iff, ← List.length_map Prod.fst, hinputs, h.single]
  rw [hsource, htext, mapM_eq_ok_iff, List.map_singleton, List.forall₂_cons] at hqueries
  rw [hsource] at hinputs
  exact ⟨source.1, text, source.2, hinputs.symm, htext, hqueries.1, hlimit⟩

-- The rows come of the lines one after another, with or without repeats.
theorem exists_rowsOf_eq_expand (plan : Plan) (input : Input) (query : Query) :
    ∃ (σ : Type) (step : σ → Text → σ × Flow Value) (s : σ),
      ∀ lines, plan.rowsOf ({ input with lines }, query) = lines.expand step s := by
  let reading : Reading := ⟨plan.skipsFirst, plan.defaults, some input.name⟩
  cases hdistinct : plan.distinct with
  | false =>
    refine ⟨_, reading.step query, .start, fun lines => ?_⟩
    rw [rowsOf, hdistinct]
    rfl
  | true =>
    refine ⟨_, Flow.stepBoth (reading.step query) Row.unseen, (.start, []), fun lines => ?_⟩
    rw [rowsOf, hdistinct, ← Flow.expand_expand]
    rfl

theorem exists_run_eq_expand (h : plan.Streams library) :
    ∃ (σ : Type) (step : σ → Text → σ × Flow Value) (s : σ),
      (∀ lines, plan.run library lines = .event (.logged plan.assembled) fun _ =>
        whenSome plan.limit Row.limit (lines.expand step s)) ∧
      ∀ lines, plan.unlimited.run library lines =
        .event (.logged plan.unlimited.assembled) fun _ => lines.expand step s := by
  obtain ⟨input, text, query, hinputs, hqueries, hquery, hlimit⟩ := exists_single h
  obtain ⟨σ, step, s, hrows⟩ := exists_rowsOf_eq_expand plan input query
  refine ⟨σ, step, s, fun lines => ?_, fun lines => ?_⟩
  · rw [run_eq_of_single hinputs hqueries hquery h.aggregation h.order hlimit, hrows]
  · have hunlimited := @run_eq_of_single library plan.unlimited _ _ _ hinputs hqueries hquery
      h.aggregation h.order (fun x hx => by cases hx) lines
    rw [hunlimited, ← hrows]
    rfl

-- A limit gives the first rows, as many as it says or all of them, takes just these from its source
-- and asks for an answer only if rows are missing. Until then it hands on what comes, and it meets a
-- failure only if that comes before the last of its rows. In a plan without a stage that needs all
-- rows the same holds of the results and the lines, however many results a line gives: the lines
-- after the one with the last result are not asked for, and they cannot fail.
theorem limit_stopsAt {x : Double} {n : ℕ} (hx : x.toInt? = some (n : ℤ)) (hn : 1 ≤ n) :
    (∀ {α : Type} (u : Upstream α),
      u.StopsAt n id (Row.limit x) ∧
      (∀ k, u.Asks (Row.limit x) k ↔ u.GoesOn k ∧ (u.front k).items.length < n) ∧
      (∀ k rest, u.Asks (Row.limit x) k → Row.limit x (u.upTo k rest) =
        u.upTo k (rest.take (n - (u.front k).items.length))) ∧
      ∀ k, u.itemsAsked (Row.limit x) k = min n (u.front k).items.length) ∧
    ∀ (library : Library) (plan : Plan), plan.limit = some x → plan.Streams library →
      ∀ u : Upstream Text, u.StopsAt n (plan.unlimited.run library) (plan.run library) := by
  constructor
  · intro α u
    rw [Row.limit_eq_take hx hn]
    exact ⟨u.stopsAt_take n, fun k => Upstream.asks_take_iff,
      fun k rest h => Upstream.take_upTo h rest, u.itemsAsked_take n⟩
  · intro library plan hlimit hstreams u
    obtain ⟨σ, step, s, hrun, hunlimited⟩ := Plan.exists_run_eq_expand hstreams
    have hstops := (u.stopsAt_take_expand step s n).event (.logged plan.unlimited.assembled)
      (.logged plan.assembled)
    rw [funext hrun, funext hunlimited, hlimit]
    simp only [Plan.whenSome, Row.limit_eq_take hx hn]
    exact hstops

-- Three different results that two lines give, and lines after them that never end and that no query
-- can take.
def firstThree : Plan where
  queries := ["a"]
  inputs := [⟨"-", .done⟩]
  skipsFirst := false
  defaults := []
  aggregation := none
  distinct := true
  order := none
  limit := some (.ofNat 3)

def twoLists : Upstream Text where
  answer
    | 0 => .item "\x7b\"a\": [1, 2]\x7d"
    | 1 => .item "\x7b\"a\": [2, 3, 4]\x7d"
    | _ => .item "\""

theorem limit_stopsAt_three : (Double.ofNat 3).toInt? = some ((3 : ℕ) : ℤ) ∧
    firstThree.Streams .standard ∧ twoLists.Asks (firstThree.run .standard) 1 ∧
      ∀ j ≥ 2, ¬twoLists.Asks (firstThree.run .standard) j ∧
        ∀ rest, (firstThree.run .standard (twoLists.upTo j rest)).failure? = none := by
  have hthree : (Double.ofNat 3).toInt? = some ((3 : ℕ) : ℤ) := by decide +kernel
  have hstarts : (firstThree.start .standard).toOption.isSome = true := by decide +kernel
  obtain ⟨flow, hflow⟩ := Option.isSome_iff_exists.mp hstarts
  have hstreams : firstThree.Streams .standard :=
    ⟨rfl, rfl, rfl, flow, toOption_eq_some_iff.mp hflow⟩
  have hstops := (limit_stopsAt hthree (by decide)).2 .standard firstThree rfl hstreams twoLists
  have hone : twoLists.GoesOn 1 := by
    intro i hi
    rw [Nat.lt_one_iff.mp hi]
    rfl
  refine ⟨hthree, hstreams, (hstops.asks_iff 1).mpr ⟨hone, ?_, ?_⟩, fun j hj => ?_⟩
  · have h : ((firstThree.unlimited.run .standard (twoLists.front 1)).failure?).isNone = true := by
      decide +kernel
    exact Option.isNone_iff_eq_none.mp h
  · decide +kernel
  · obtain ⟨hasks, houtcome⟩ := hstops.settled 2 (by decide +kernel) j hj
    exact ⟨hasks, fun rest => congrArg Prod.snd (houtcome rest)⟩

end Plan

end RecordQuery
