import RecordQuery.Plan
import RecordQuery.Proofs.Attempt

/-!
How a run starts: its settings are checked, then its queries are compiled, then its reducers are
read. It starts if all of this succeeds, and is refused with the first thing that does not.
-/

namespace RecordQuery.Plan

variable {α β ε : Type} {library : Library} {plan : Plan}

namespace Sources

def toList : Sources α → List α
  | .single only => [only]
  | .pair first second => [first, second]

theorem map_toList_mapM (f : α → Except ε β) (sources : Sources α) :
    (sources.mapM f).map toList = sources.toList.mapM f := by
  cases sources with
  | single only =>
    rw [mapM, toList, List.mapM_cons]
    cases f only <;> rfl
  | pair first second =>
    rw [mapM, toList, List.mapM_cons, List.mapM_cons]
    cases f first with
    | error e => rfl
    | ok a => cases f second <;> rfl

theorem forall₂_of_mapM {f : α → Except ε β} {sources : Sources α} {results : Sources β}
    (h : sources.mapM f = .ok results) :
    List.Forall₂ (fun a b => f a = .ok b) sources.toList results.toList := by
  rw [← mapM_eq_ok_iff, ← map_toList_mapM, h]
  rfl

end Sources

-- There is one query for each input, in the same order.
theorem map_sources {sources : Sources (Input × Text)} (h : plan.sources = .ok sources) :
    sources.toList.map Prod.fst = plan.inputs ∧ sources.toList.map Prod.snd = plan.queries := by
  unfold Plan.sources at h
  split at h
  · next hinputs hqueries =>
    cases h
    exact ⟨hinputs.symm, hqueries.symm⟩
  · next hinputs hqueries =>
    cases h
    exact ⟨hinputs.symm, hqueries.symm⟩
  · split at h <;> cases h

-- One or two inputs with as many queries are a single source or a pair.
theorem length_ne_of_unpaired {inputs : List Input} {queries : List Text}
    (hsingle : ∀ input query, inputs = [input] → queries = [query] → False)
    (hpair : ∀ first second query other, inputs = [first, second] → queries = [query, other] → False)
    (hcount : ¬(inputs.length = 0 ∨ maxInputs < inputs.length)) :
    queries.length ≠ inputs.length := by
  intro heq
  rw [not_or, maxInputs, Nat.not_lt] at hcount
  match inputs, queries with
  | [], _ => exact hcount.1 rfl
  | [input], [query] => exact hsingle input query rfl rfl
  | [first, second], [query, other] => exact hpair first second query other rfl rfl
  | [_], [] | [_], _ :: _ :: _ | [_, _], [] | [_, _], [_] | [_, _], _ :: _ :: _ :: _ =>
    simp at heq
  | _ :: _ :: _ :: _, _ => simp at hcount

-- Whether there are inputs and queries to go together is a matter of how many there are.
theorem sources_eq_error_iff {c : ConfigurationError} : plan.sources = .error c ↔
    if plan.inputs.length = 0 ∨ maxInputs < plan.inputs.length then
      c = .inputCount plan.inputs.length
    else plan.queries.length ≠ plan.inputs.length ∧
      c = .queryCount plan.queries.length plan.inputs.length := by
  unfold Plan.sources
  split
  · next hinputs hqueries => simp [hinputs, hqueries, maxInputs]
  · next hinputs hqueries => simp [hinputs, hqueries, maxInputs]
  · next hsingle hpair =>
    by_cases hcount : plan.inputs.length = 0 ∨ maxInputs < plan.inputs.length
    · have hrefused : (plan.inputs.isEmpty || decide (maxInputs < plan.inputs.length)) = true := by
        simpa using hcount
      rw [if_pos hcount, if_pos hrefused, Except.error.injEq, eq_comm]
    · have haccepted : ¬(plan.inputs.isEmpty || decide (maxInputs < plan.inputs.length)) = true := by
        simpa using hcount
      rw [if_neg hcount, if_neg haccepted, Except.error.injEq, eq_comm]
      exact (and_iff_right (length_ne_of_unpaired hsingle hpair hcount)).symm

-- What speaks against settings whose inputs and queries go together.
def conflict? (plan : Plan) : Option ConfigurationError :=
  if plan.aggregation.any fun a => a.reducers.isEmpty then some .noReducers
  else if plan.order.any fun o => o.columns.isEmpty then some .noSortColumns
  else plan.limit.bind fun x => if isLimit x then none else some (.limit x)

theorem checked_eq (plan : Plan) : plan.checked = plan.sources >>= fun sources =>
    plan.conflict?.elim (.ok sources) .error := by
  rw [checked, conflict?]
  congr 1
  funext sources
  cases (plan.aggregation.any fun a => a.reducers.isEmpty) with
  | true => rfl
  | false =>
    cases (plan.order.any fun o => o.columns.isEmpty) with
    | true => rfl
    | false =>
      cases plan.limit with
      | none => rfl
      | some x => cases h : isLimit x <;> simp [h]

theorem conflict?_eq_none_iff : plan.conflict? = none ↔
    (∀ a, plan.aggregation = some a → a.reducers ≠ []) ∧
      (∀ o, plan.order = some o → o.columns ≠ []) ∧
      ∀ x, plan.limit = some x → isLimit x = true := by
  have hreducers : (plan.aggregation.any fun a => a.reducers.isEmpty) = false ↔
      ∀ a, plan.aggregation = some a → a.reducers ≠ [] := by
    cases plan.aggregation <;> simp
  have hcolumns : (plan.order.any fun o => o.columns.isEmpty) = false ↔
      ∀ o, plan.order = some o → o.columns ≠ [] := by
    cases plan.order <;> simp
  rw [← hreducers, ← hcolumns, conflict?]
  cases (plan.aggregation.any fun a => a.reducers.isEmpty) <;>
    cases (plan.order.any fun o => o.columns.isEmpty) <;> simp

-- Settings are accepted where there are reducers in an aggregation and columns in an order, and
-- where a limit is one.
theorem checked_eq_ok_iff {sources : Sources (Input × Text)} : plan.checked = .ok sources ↔
    plan.sources = .ok sources ∧ (∀ a, plan.aggregation = some a → a.reducers ≠ []) ∧
      (∀ o, plan.order = some o → o.columns ≠ []) ∧
      ∀ x, plan.limit = some x → isLimit x = true := by
  rw [← conflict?_eq_none_iff, checked_eq, bind_eq_ok_iff]
  cases plan.conflict? <;> simp

theorem checked_eq_error_iff {c : ConfigurationError} : plan.checked = .error c ↔
    plan.sources = .error c ∨ (∃ sources, plan.sources = .ok sources) ∧ plan.conflict? = some c := by
  rw [checked_eq, bind_eq_error_iff]
  cases plan.conflict? <;> simp

-- A source with its query compiled.
def compiledSource (library : Library) (source : Input × Text) : Except Failure (Input × Query) :=
  match Query.compile library source.2 with
  | .ok query => .ok (source.1, query)
  | .error e => .error (.query e)

theorem compiledSource_eq_ok_iff {source : Input × Text} {compiled : Input × Query} :
    compiledSource library source = .ok compiled ↔
      source.1 = compiled.1 ∧ Query.compile library source.2 = .ok compiled.2 := by
  unfold compiledSource
  cases Query.compile library source.2 with
  | error e => simp
  | ok query => simp [Prod.ext_iff]

-- The queries of compiled sources are those of the plan, compiled one by one.
theorem map_compiled {sources : Sources (Input × Text)} {compiled : Sources (Input × Query)}
    (hsources : plan.sources = .ok sources)
    (hcompiled : sources.mapM (compiledSource library) = .ok compiled) :
    compiled.toList.map Prod.fst = plan.inputs ∧
      plan.queries.mapM (Query.compile library) = .ok (compiled.toList.map Prod.snd) := by
  have hall := Sources.forall₂_of_mapM hcompiled
  simp only [compiledSource_eq_ok_iff] at hall
  obtain ⟨hinputs, hqueries⟩ := map_sources hsources
  rw [← hinputs, ← hqueries, mapM_eq_ok_iff]
  constructor
  · rw [eq_comm, ← List.forall₂_eq_eq_eq, List.forall₂_map_left_iff, List.forall₂_map_right_iff]
    exact hall.imp fun _ _ h => h.1
  · rw [List.forall₂_map_left_iff, List.forall₂_map_right_iff]
    exact hall.imp fun _ _ h => h.2

-- The first query that cannot be compiled is what sources are refused with.
theorem mapM_compiledSource_eq_error_iff {sources : List (Input × Text)} {e : Failure} :
    sources.mapM (compiledSource library) = .error e ↔
      ∃ s, e = .query s ∧ (sources.map Prod.snd).mapM (Query.compile library) = .error s := by
  induction sources with
  | nil => simp [pure, Except.pure]
  | cons source rest ih =>
    simp only [List.map_cons, mapM_cons_eq_error_iff, ih]
    cases hquery : Query.compile library source.2 <;> simp [compiledSource, hquery, eq_comm]

theorem compiled_eq_error_iff {sources : Sources (Input × Text)}
    (hsources : plan.sources = .ok sources) {e : Failure} :
    sources.mapM (compiledSource library) = .error e ↔
      ∃ s, e = .query s ∧ plan.queries.mapM (Query.compile library) = .error s := by
  rw [← (map_sources hsources).2, ← mapM_compiledSource_eq_error_iff, ← Sources.map_toList_mapM]
  cases sources.mapM (compiledSource library) <;> simp [Except.map]

theorem grouping_eq_error_iff {a : Aggregation} {e : Failure} :
    a.grouping library = .error e ↔ a.reducers.mapM (Reducer.parse library) = .error e := by
  rw [Aggregation.grouping]
  cases a.reducers.mapM (Reducer.parse library) <;> simp [bind, Except.bind, pure, Except.pure]

theorem mapM_grouping_eq_error_iff {e : Failure} :
    plan.aggregation.mapM (Aggregation.grouping library) = .error e ↔
      ∃ a, plan.aggregation = some a ∧ a.reducers.mapM (Reducer.parse library) = .error e := by
  cases plan.aggregation with
  | none => simp [pure, Except.pure]
  | some a =>
    have hsome : (some a).mapM (Aggregation.grouping library) =
        (a.grouping library >>= fun grouping => .ok (some grouping)) := rfl
    rw [hsome, bind_eq_error_iff, grouping_eq_error_iff]
    simp

-- The entry that tells how a run is put together.
def assembled (plan : Plan) : LogEntry :=
  .assembled (plan.inputs.map Input.name) plan.queries plan.stages

theorem start_eq (library : Library) (plan : Plan) : plan.start library =
    (plan.checked.mapError .configuration >>= fun sources =>
      sources.mapM (compiledSource library) >>= fun compiled =>
        plan.aggregation.mapM (Aggregation.grouping library) >>= fun grouping =>
          .ok (.event (.logged plan.assembled) fun _ => plan.rows grouping compiled)) := rfl

theorem start_eq_ok_iff {flow : Flow Value} : plan.start library = .ok flow ↔
    ∃ sources compiled grouping, plan.checked = .ok sources ∧
      sources.mapM (compiledSource library) = .ok compiled ∧
      plan.aggregation.mapM (Aggregation.grouping library) = .ok grouping ∧
      flow = .event (.logged plan.assembled) fun _ => plan.rows grouping compiled := by
  rw [start_eq]
  cases plan.checked with
  | error e => simp [Except.mapError, bind, Except.bind]
  | ok sources =>
    simp only [Except.mapError, bind_eq_ok_iff, Except.ok.injEq]
    grind

theorem start_eq_error_iff {e : Failure} : plan.start library = .error e ↔
    (∃ c, plan.checked = .error c ∧ e = .configuration c) ∨
      ∃ sources, plan.checked = .ok sources ∧
        (sources.mapM (compiledSource library) = .error e ∨
          ∃ compiled, sources.mapM (compiledSource library) = .ok compiled ∧
            plan.aggregation.mapM (Aggregation.grouping library) = .error e) := by
  rw [start_eq]
  cases plan.checked with
  | error e => simp [Except.mapError, bind, Except.bind, eq_comm]
  | ok sources =>
    simp only [Except.mapError, bind_eq_error_iff]
    simp

-- Why a plan does not start, the first reason in the order in which they are looked for: its settings,
-- the text of a query, or the text of a reducer.
inductive Refuses (library : Library) (plan : Plan) : Failure → Prop
  | settings {c} (h : plan.checked = .error c) : Refuses library plan (.configuration c)
  | query {sources s} (hchecked : plan.checked = .ok sources)
      (h : plan.queries.mapM (Query.compile library) = .error s) : Refuses library plan (.query s)
  | reducer {sources queries a e} (hchecked : plan.checked = .ok sources)
      (hqueries : plan.queries.mapM (Query.compile library) = .ok queries)
      (ha : plan.aggregation = some a)
      (h : a.reducers.mapM (Reducer.parse library) = .error e) : Refuses library plan e

theorem start_eq_error_iff_refuses {e : Failure} :
    plan.start library = .error e ↔ plan.Refuses library e := by
  rw [start_eq_error_iff]
  constructor
  · rintro (⟨c, hchecked, rfl⟩ | ⟨sources, hchecked, hrest⟩)
    · exact .settings hchecked
    · have hsources := (checked_eq_ok_iff.mp hchecked).1
      rcases hrest with hcompiled | ⟨compiled, hcompiled, hgrouping⟩
      · obtain ⟨s, rfl, hqueries⟩ := (compiled_eq_error_iff hsources).mp hcompiled
        exact .query hchecked hqueries
      · obtain ⟨a, ha, hreducers⟩ := mapM_grouping_eq_error_iff.mp hgrouping
        exact .reducer hchecked (map_compiled hsources hcompiled).2 ha hreducers
  · intro h
    cases h with
    | settings hchecked => exact .inl ⟨_, hchecked, rfl⟩
    | query hchecked hqueries =>
      have hsources := (checked_eq_ok_iff.mp hchecked).1
      exact .inr ⟨_, hchecked, .inl ((compiled_eq_error_iff hsources).mpr ⟨_, rfl, hqueries⟩)⟩
    | @reducer sources queries a e hchecked hqueries ha hreducers =>
      have hsources := (checked_eq_ok_iff.mp hchecked).1
      refine .inr ⟨sources, hchecked, .inr ?_⟩
      cases hcompiled : sources.mapM (compiledSource library) with
      | error e' =>
        obtain ⟨s, -, hfailed⟩ := (compiled_eq_error_iff hsources).mp hcompiled
        rw [hqueries] at hfailed
        cases hfailed
      | ok compiled => exact ⟨compiled, rfl, mapM_grouping_eq_error_iff.mpr ⟨a, ha, hreducers⟩⟩

-- Two plans that differ in the lines of their inputs and in stages that cannot be refused.
structure Alike (plan plan' : Plan) : Prop where
  inputs : plan.inputs.length = plan'.inputs.length
  queries : plan.queries = plan'.queries
  aggregation : plan.aggregation = plan'.aggregation
  order : plan.order = plan'.order
  limit : plan.limit = plan'.limit

namespace Alike

variable {plan' : Plan}

theorem symm (h : plan.Alike plan') : plan'.Alike plan :=
  ⟨h.inputs.symm, h.queries.symm, h.aggregation.symm, h.order.symm, h.limit.symm⟩

theorem sources_eq_error_iff (h : plan.Alike plan') {c : ConfigurationError} :
    plan.sources = .error c ↔ plan'.sources = .error c := by
  rw [Plan.sources_eq_error_iff, Plan.sources_eq_error_iff, h.inputs, h.queries]

theorem checked_eq_error_iff (h : plan.Alike plan') {c : ConfigurationError} :
    plan.checked = .error c ↔ plan'.checked = .error c := by
  have hok : (∃ sources, plan.sources = .ok sources) ↔ ∃ sources, plan'.sources = .ok sources := by
    have herror := @h.sources_eq_error_iff
    cases hs : plan.sources <;> cases hs' : plan'.sources <;> simp_all
  rw [Plan.checked_eq_error_iff, Plan.checked_eq_error_iff, h.sources_eq_error_iff, hok, conflict?,
    conflict?, h.aggregation, h.order, h.limit]

theorem checked_eq_ok (h : plan.Alike plan') {sources : Sources (Input × Text)}
    (hchecked : plan.checked = .ok sources) : ∃ sources, plan'.checked = .ok sources := by
  cases hchecked' : plan'.checked with
  | ok sources' => exact ⟨sources', rfl⟩
  | error c =>
    rw [← h.checked_eq_error_iff, hchecked] at hchecked'
    cases hchecked'

theorem refuses (h : plan.Alike plan') {e : Failure} (hrefuses : plan.Refuses library e) :
    plan'.Refuses library e := by
  cases hrefuses with
  | settings hchecked => exact .settings (h.checked_eq_error_iff.mp hchecked)
  | query hchecked hqueries =>
    obtain ⟨sources, hchecked'⟩ := h.checked_eq_ok hchecked
    exact .query hchecked' (h.queries ▸ hqueries)
  | reducer hchecked hqueries ha hreducers =>
    obtain ⟨sources, hchecked'⟩ := h.checked_eq_ok hchecked
    exact .reducer hchecked' (h.queries ▸ hqueries) (h.aggregation ▸ ha) hreducers

end Alike

end RecordQuery.Plan
