import RecordQuery.Function.Standard
import RecordQuery.Proofs.Expr.Literal
import RecordQuery.Proofs.Plan.Start
import RecordQuery.Proofs.Row.Reducer

/-!
Why a plan does not start. The settings do not fit together, or a query or a reducer is not spelled
right. The arguments of reducers are evaluated at this point already, and so there is one fault that
can get through: an object among them may have a key that is no text.
-/

namespace RecordQuery

-- The failure says what is wrong with the settings, or with the text of a query or reducer.
def Failure.IsRefusal (e : Failure) : Prop := (∃ c, e = .configuration c) ∨ ∃ s, e = .query s

theorem Failure.not_isRefusal {e : Failure} (hconfiguration : ∀ c, e ≠ .configuration c)
    (hquery : ∀ s, e ≠ .query s) : ¬e.IsRefusal := by
  rintro (⟨c, hc⟩ | ⟨s, hs⟩)
  · exact hconfiguration c hc
  · exact hquery s hs

theorem Failure.not_isRefusal_evaluation (e : EvaluationError) : ¬(evaluation e).IsRefusal :=
  not_isRefusal (by simp) (by simp)

namespace Reducer

variable {library : Library} {spec : Text}

-- A reducer that cannot be read is not a matter of the settings.
theorem status_of_parse {failure : Failure} (h : parse library spec = .error failure) :
    failure.status = 1 := by
  rcases parse_eq_error h with ⟨s, rfl⟩ | ⟨-, kind, rfl⟩
  · rfl
  · rfl

theorem status_of_mapM_parse {specs : List Text} {failure : Failure}
    (h : specs.mapM (parse library) = .error failure) : failure.status = 1 := by
  obtain ⟨before, spec, after, -, -, hspec⟩ := mapM_eq_error_iff.mp h
  exact status_of_parse hspec

-- A reducer that is no call with such an argument is refused, if at all, for its spelling.
theorem isRefusal_of_parse {failure : Failure} (hbad : ¬HasBadKey spec)
    (h : parse library spec = .error failure) : failure.IsRefusal := by
  rcases parse_eq_error h with hquery | ⟨hkey, -⟩
  · exact .inr hquery
  · exact absurd hkey hbad

end Reducer

namespace Plan

variable {library : Library} {plan : Plan} {e : Failure}

-- All is well with the settings and the queries, and the first reducer that cannot be read is a call
-- with a bad key.
def MeetsBadKey (library : Library) (plan : Plan) : Prop :=
  (∃ sources, plan.checked = .ok sources) ∧
    (∃ queries, plan.queries.mapM (Query.compile library) = .ok queries) ∧
    ∃ a before spec after, plan.aggregation = some a ∧ a.reducers = before ++ spec :: after ∧
      (∀ spec ∈ before, ∃ reducer, Reducer.parse library spec = .ok reducer) ∧
      Reducer.HasBadKey spec

theorem compiledSource_eq_error {source : Input × Text}
    (h : compiledSource library source = .error e) :
    e.IsRefusal ∧ ∀ query, Query.compile library source.2 ≠ .ok query := by
  unfold compiledSource at h
  cases hquery : Query.compile library source.2 with
  | ok query =>
    rw [hquery] at h
    cases h
  | error s =>
    rw [hquery] at h
    cases h
    exact ⟨.inr ⟨s, rfl⟩, nofun⟩

theorem isRefusal_of_mapM_compiledSource {sources : Sources (Input × Text)}
    (hsources : plan.sources = .ok sources)
    (h : sources.mapM (compiledSource library) = .error e) :
    e.IsRefusal ∧ ∀ queries, plan.queries.mapM (Query.compile library) ≠ .ok queries := by
  have hlist : sources.toList.mapM (compiledSource library) = .error e := by
    rw [← Sources.map_toList_mapM, h]
    rfl
  obtain ⟨before, source, after, htoList, -, hsource⟩ := mapM_eq_error_iff.mp hlist
  obtain ⟨he, hquery⟩ := compiledSource_eq_error hsource
  refine ⟨he, fun queries hqueries => ?_⟩
  have hmem : source.2 ∈ plan.queries := by
    rw [← (map_sources hsources).2]
    exact List.mem_map_of_mem (by simp [htoList])
  obtain ⟨query, hok⟩ := exists_of_mapM hqueries hmem
  exact hquery query hok

theorem start_of_meetsBadKey (h : plan.MeetsBadKey library) :
    ∃ kind, plan.start library = .error (.evaluation (.ofFault (.nameKind kind))) := by
  obtain ⟨⟨sources, hchecked⟩, ⟨queries, hqueries⟩, a, before, spec, after, ha, hspecs, hbefore,
    hbad⟩ := h
  obtain ⟨kind, hkind⟩ := Reducer.parse_of_hasBadKey library hbad
  have hreducers := mapM_eq_error_iff.mpr ⟨before, spec, after, hspecs, hbefore, hkind⟩
  refine ⟨kind, start_eq_error_iff.mpr (.inr ⟨sources, hchecked, .inr ?_⟩)⟩
  cases hcompiled : sources.mapM (compiledSource library) with
  | error e =>
    have hsources := (checked_eq_ok_iff.mp hchecked).1
    exact absurd hqueries ((isRefusal_of_mapM_compiledSource hsources hcompiled).2 queries)
  | ok compiled => exact ⟨compiled, rfl, mapM_grouping_eq_error_iff.mpr ⟨a, ha, hreducers⟩⟩

theorem isRefusal_of_start (h : plan.start library = .error e) (hmeets : ¬plan.MeetsBadKey library) :
    e.IsRefusal := by
  rcases start_eq_error_iff.mp h with ⟨c, -, rfl⟩ | ⟨sources, hchecked, hrest⟩
  · exact .inl ⟨c, rfl⟩
  have hsources := (checked_eq_ok_iff.mp hchecked).1
  rcases hrest with hcompiled | ⟨compiled, hcompiled, hgrouping⟩
  · exact (isRefusal_of_mapM_compiledSource hsources hcompiled).1
  · obtain ⟨a, ha, hreducers⟩ := mapM_grouping_eq_error_iff.mp hgrouping
    obtain ⟨before, spec, after, hspecs, hbefore, hspec⟩ := mapM_eq_error_iff.mp hreducers
    refine Reducer.isRefusal_of_parse (fun hbad => hmeets ?_) hspec
    exact ⟨⟨sources, hchecked⟩, ⟨_, (map_compiled hsources hcompiled).2⟩, a, before, spec, after,
      ha, hspecs, hbefore, hbad⟩

-- A plan that does not start is refused, unless it meets a bad key. Then it is the evaluation of the
-- argument that fails.
theorem start_error_isRefusal_iff (h : plan.start library = .error e) :
    (e.IsRefusal ↔ ¬plan.MeetsBadKey library) ∧
      (¬e.IsRefusal → ∃ kind, e = .evaluation (.ofFault (.nameKind kind))) := by
  by_cases hmeets : plan.MeetsBadKey library
  · obtain ⟨kind, hkind⟩ := start_of_meetsBadKey hmeets
    rw [h] at hkind
    cases hkind
    exact ⟨iff_of_false (Failure.not_isRefusal_evaluation _) (not_not_intro hmeets),
      fun _ => ⟨kind, rfl⟩⟩
  · have he := isRefusal_of_start h hmeets
    exact ⟨iff_of_true he hmeets, fun hn => absurd he hn⟩

-- A number as a key in the argument of a reducer.
def numberKeyed : Plan where
  queries := ["_"]
  inputs := [⟨"a", .ofList []⟩]
  skipsFirst := false
  defaults := []
  aggregation := some ⟨["percentile(\x7b1: 2\x7d)"], [], .ofNat 0⟩
  distinct := false
  order := none
  limit := none

theorem start_numberKeyed : ∃ e, numberKeyed.start .standard = .error (.evaluation e) := by
  have hfails : (match numberKeyed.start .standard with
      | .error (.evaluation _) => true
      | _ => false) = true := by decide +kernel
  split at hfails
  · next e he => exact ⟨e, he⟩
  · cases hfails

theorem start_error_isRefusal_iff_numberKeyed :
    ∃ e, numberKeyed.start .standard = .error e ∧
      (e.IsRefusal ↔ ¬numberKeyed.MeetsBadKey .standard) ∧
      (¬e.IsRefusal → ∃ kind, e = .evaluation (.ofFault (.nameKind kind))) := by
  obtain ⟨e, he⟩ := start_numberKeyed
  exact ⟨.evaluation e, he, start_error_isRefusal_iff he⟩

-- Not every plan that does not start is refused.
theorem start_not_refused :
    ¬∀ (plan : Plan) (e : Failure), plan.start .standard = .error e → e.IsRefusal := by
  intro h
  obtain ⟨e, he⟩ := start_numberKeyed
  exact Failure.not_isRefusal_evaluation e (h _ _ he)

end Plan

end RecordQuery
