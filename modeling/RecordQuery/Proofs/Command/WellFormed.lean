import RecordQuery.Command.Run
import RecordQuery.Proofs.Plan.WellFormed

/-!
Well-formed values throughout. Whatever is read, written in a query or made by one is well-formed,
and so are the rows after every stage: no integer within the safe range is ever held exactly.
-/

namespace RecordQuery

namespace Settings

theorem ensures_readDefaults (t : Text) :
    Ensures (fun fields => ∀ e ∈ fields, e.2.WellFormed) (readDefaults t) := by
  unfold readDefaults
  split
  · exact .error _
  · next fields hread => exact .ok (Value.wellFormed_object.mp (Json.read?_wellFormed hread))
  · exact .error _

def WellFormed (settings : Settings) : Prop :=
  ∀ fields ∈ settings.defaults, ∀ e ∈ fields, e.2.WellFormed

theorem ensures_ofArguments (a : Arguments) : Ensures WellFormed (ofArguments a) := by
  have hdefaults : Ensures (fun defaults => ∀ fields ∈ defaults, ∀ e ∈ fields, e.2.WellFormed)
      ((a.text? "defaults").mapM readDefaults) :=
    .mapM_option fun t _ => ensures_readDefaults t
  unfold ofArguments
  dsimp only
  split
  · exact .error _
  · exact .bind hdefaults fun defaults h => .ok h

theorem WellFormed.defaults {settings : Settings} (h : settings.WellFormed)
    (lines : Text → Flow Text) : ∀ e ∈ (settings.plan lines).defaults, e.2.WellFormed := by
  unfold plan
  cases hdefaults : settings.defaults with
  | none => exact List.forall_mem_nil _
  | some fields => exact h fields hdefaults

end Settings

namespace Command

theorem ensures_prepare (arguments : List Text) :
    Ensures Settings.WellFormed (prepare arguments) := by
  unfold prepare
  refine .after fun a => ?_
  dsimp only
  split
  · exact .error _
  · split
    · exact .error _
    · refine .bind (.mapError (Settings.ensures_ofArguments a)) fun settings hsettings => ?_
      split
      · exact .ok hsettings
      · exact .error _

-- Documents, rows and the constants of queries are well-formed, and so is what a query makes in a
-- scope of such values. Every stage keeps to well-formed rows, so those of a run over well-formed
-- defaults are, and the command only ever has such defaults.
theorem wellFormed_throughout :
    (∀ t v, Json.read? t = some v → v.WellFormed) ∧
    (∀ line record, Record.ofRow line = .ok record → record.WellFormed) ∧
    (∀ source e, Expr.parse source = .ok e → ∀ v ∈ e.literals, v.WellFormed) ∧
    (∀ source query scope v, Query.compile .standard source = .ok query →
      (∀ x ∈ scope, x.2.WellFormed) → query.evaluate scope = .ok v → v.WellFormed) ∧
    (∀ (reading : Reading) source query lines, (∀ e ∈ reading.defaults, e.2.WellFormed) →
      Query.compile .standard source = .ok query → (reading.run query lines).WellFormed) ∧
    (∀ first second, first.WellFormed → second.WellFormed →
      (Row.join first second).WellFormed) ∧
    (∀ (a : Aggregation) grouping rows, a.grouping .standard = .ok grouping → rows.WellFormed →
      (Row.aggregate grouping rows).WellFormed) ∧
    (∀ rows, rows.WellFormed → (Row.distinct rows).WellFormed) ∧
    (∀ order rows, rows.WellFormed → (Row.sort order rows).WellFormed) ∧
    (∀ count (rows : Flow Value), rows.WellFormed → (Row.limit count rows).WellFormed) ∧
    (∀ (plan : Plan) flow, (∀ e ∈ plan.defaults, e.2.WellFormed) →
      plan.start .standard = .ok flow → flow.WellFormed) ∧
    ∀ arguments settings lines flow, prepare arguments = .ok settings →
      (settings.plan lines).start .standard = .ok flow → flow.WellFormed := by
  have hl := Library.preserves_standard
  refine ⟨fun t v => Json.read?_wellFormed, Record.ensures_ofRow,
    fun source e => Expr.wellFormed_of_parse, fun source query scope v hquery hscope => ?_,
    fun reading source query lines hdefaults hquery => ?_,
    fun first second => Row.wellFormed_join, fun a grouping rows hgrouping => ?_,
    fun rows => Row.wellFormed_distinct, fun order rows => Row.wellFormed_sort order,
    fun count rows => Row.wellFormed_limit count,
    fun plan flow hdefaults => Plan.wellFormed_of_start hl hdefaults,
    fun arguments settings lines flow hprepare => ?_⟩
  · exact (Query.wellFormed_of_compile hl hquery).ensures_evaluate hscope v
  · exact Reading.wellFormed_run hdefaults (Query.wellFormed_of_compile hl hquery) lines
  · exact Row.wellFormed_aggregate (Plan.ensures_grouping hl a grouping hgrouping)
  · exact Plan.wellFormed_of_start hl ((ensures_prepare arguments settings hprepare).defaults lines)

-- The difference of two integers beyond the safe range is within it, and so a double.
theorem wellFormed_throughout_difference :
    ∃ v query w, Json.read? "9007199254740993" = some v ∧
      Query.compile .standard "_ - 9007199254740992" = .ok query ∧
      (∀ x ∈ [(Record.selfName, v)], x.2.WellFormed) ∧
      query.evaluate [(Record.selfName, v)] = .ok w ∧ w.WellFormed := by
  have hruns : ((Json.read? "9007199254740993").any fun v =>
      (Query.compile .standard "_ - 9007199254740992").toOption.any fun query =>
        (query.evaluate [(Record.selfName, v)]).toOption.isSome) = true := by
    decide +kernel
  obtain ⟨v, hv, hruns⟩ := Option.any_eq_true _ _ |>.mp hruns
  obtain ⟨query, hquery, hruns⟩ := Option.any_eq_true _ _ |>.mp hruns
  obtain ⟨w, hw⟩ := Option.isSome_iff_exists.mp hruns
  rw [toOption_eq_some_iff] at hquery hw
  obtain ⟨hread, -, -, hevaluate, -⟩ := wellFormed_throughout
  have hscope : ∀ x ∈ [(Record.selfName, v)], x.2.WellFormed :=
    List.forall_mem_singleton.mpr (hread _ _ hv)
  exact ⟨v, query, w, hv, hquery, hscope, hw, hevaluate _ _ _ _ hquery hscope hw⟩

end Command

end RecordQuery
