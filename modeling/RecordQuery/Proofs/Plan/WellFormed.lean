import RecordQuery.Proofs.Plan.Start
import RecordQuery.Proofs.Row.WellFormed

/-!
Well-formed rows of a plan. Its queries and reducers come from texts, so the rows of a run over
well-formed defaults are well-formed.
-/

namespace RecordQuery.Plan

variable {library : Library} {plan : Plan}

theorem wellFormed_whenSome {α : Type} {setting : Option α} {stage : α → Flow Value → Flow Value}
    {flow : Flow Value} (h : flow.WellFormed)
    (hstage : ∀ a ∈ setting, (stage a flow).WellFormed) :
    (whenSome setting stage flow).WellFormed := by
  cases setting with
  | none => exact h
  | some a => exact hstage a rfl

theorem wellFormed_joined (hd : ∀ e ∈ plan.defaults, e.2.WellFormed)
    {sources : Sources (Input × Query)} (hs : ∀ source ∈ sources.toList, source.2.WellFormed) :
    (plan.joined sources).WellFormed := by
  cases sources with
  | single only => exact Reading.wellFormed_run hd (hs only List.mem_cons_self) only.1.lines
  | pair first second =>
    obtain ⟨hfirst, hsecond⟩ := List.forall_mem_cons.mp hs
    exact Row.wellFormed_join (Reading.wellFormed_run hd hfirst first.1.lines)
      (Reading.wellFormed_run hd (hsecond second List.mem_cons_self) second.1.lines)

theorem wellFormed_rows (hd : ∀ e ∈ plan.defaults, e.2.WellFormed)
    {grouping : Option Row.Grouping} (hg : ∀ g ∈ grouping, g.WellFormed)
    {sources : Sources (Input × Query)} (hs : ∀ source ∈ sources.toList, source.2.WellFormed) :
    (plan.rows grouping sources).WellFormed := by
  have hjoined := wellFormed_joined hd hs
  have haggregated := wellFormed_whenSome hjoined fun g hmem =>
    Row.wellFormed_aggregate (hg g hmem) hjoined
  have hdistinct : ((if plan.distinct then Row.distinct else id)
      (whenSome grouping Row.aggregate (plan.joined sources))).WellFormed := by
    split
    · exact Row.wellFormed_distinct haggregated
    · exact haggregated
  have hsorted := wellFormed_whenSome hdistinct fun order (_ : order ∈ plan.order) =>
    Row.wellFormed_sort order hdistinct
  exact wellFormed_whenSome hsorted fun count _ => Row.wellFormed_limit count hsorted

theorem ensures_compiledSource (hl : library.Preserves) (source : Input × Text) :
    Ensures (fun compiled => compiled.2.WellFormed) (compiledSource library source) :=
  fun _ hcompiled => Query.wellFormed_of_compile hl (compiledSource_eq_ok_iff.mp hcompiled).2

theorem ensures_grouping (hl : library.Preserves) (a : Aggregation) :
    Ensures Row.Grouping.WellFormed (a.grouping library) :=
  .bind (.mapM fun spec _ => Reducer.ensures_parse hl spec) fun _ hreducers => .ok hreducers

-- The queries and reducers of a run that starts are compiled and read from texts.
theorem wellFormed_of_start (hl : library.Preserves) (hd : ∀ e ∈ plan.defaults, e.2.WellFormed)
    {flow : Flow Value} (h : plan.start library = .ok flow) : flow.WellFormed := by
  obtain ⟨sources, compiled, grouping, -, hcompiled, hgrouping, rfl⟩ := start_eq_ok_iff.mp h
  have hsources := mapM_eq_ok_iff.mpr (Sources.forall₂_of_mapM hcompiled)
  exact wellFormed_rows hd
    (Ensures.mapM_option (fun a _ => ensures_grouping hl a) grouping hgrouping)
    (Ensures.mapM (fun source _ => ensures_compiledSource hl source) _ hsources)

end RecordQuery.Plan
