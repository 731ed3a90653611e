import RecordQuery.Command.Run
import RecordQuery.Proofs.Plan.Started

/-!
A command that is turned down leaves everything alone: it opens no file, reads no line and writes
nothing but one message. The status 2 is kept for a command that asks for what cannot be done, and
no run that has started ends with it.
-/

namespace RecordQuery.Command

variable {arguments : List Text} {s : Surroundings} {settings : Settings} {flow : Flow Value}
  {message : Text} {status : Nat}

-- The arguments ask for a run with these settings, and not for what the command tells about itself.
def AsksFor (arguments : List Text) (settings : Settings) : Prop :=
  ∃ a, Arguments.read Settings.options arguments = .ok a ∧ a.isOn "help" = false ∧
    a.isOn "version" = false ∧ Settings.ofArguments a = .ok settings

-- Why a command is turned down, with its status and its message: an argument is no option of the
-- command, or options do not go together, or the settings make no plan, or a query or a reducer is
-- not spelled right. Each reason is only looked for where there is none before it.
inductive TurnedDown (arguments : List Text) (s : Surroundings) : Nat → Text → Prop
  | arguments {e} (h : Arguments.read Settings.options arguments = .error e) :
      TurnedDown arguments s 2 (usageError name e)
  | options {a c} (ha : Arguments.read Settings.options arguments = .ok a)
      (hhelp : a.isOn "help" = false) (hversion : a.isOn "version" = false)
      (h : Settings.ofArguments a = .error c) :
      TurnedDown arguments s 2 (complaint (.configuration c))
  | plan {settings c} (ha : AsksFor arguments settings)
      (h : (settings.plan s.lines).checked = .error c) :
      TurnedDown arguments s 2 (complaint (.configuration c))
  | query {settings sources e} (ha : AsksFor arguments settings)
      (hchecked : (settings.plan s.lines).checked = .ok sources)
      (h : settings.queries.mapM (Query.compile .standard) = .error e) :
      TurnedDown arguments s 1 (complaint (.query e))
  | reducer {settings sources queries aggregation e} (ha : AsksFor arguments settings)
      (hchecked : (settings.plan s.lines).checked = .ok sources)
      (hqueries : settings.queries.mapM (Query.compile .standard) = .ok queries)
      (haggregation : settings.aggregation = some aggregation)
      (h : aggregation.reducers.mapM (Reducer.parse .standard) = .error e) :
      TurnedDown arguments s 1 (complaint e)

-- What the lines of the inputs are does not matter for whether a plan is refused.
theorem alike_plan (settings : Settings) (lines lines' : Text → Flow Text) :
    (settings.plan lines).Alike (settings.plan lines') :=
  ⟨by simp [Settings.plan], rfl, rfl, rfl, rfl⟩

theorem prepare_of_asksFor (h : AsksFor arguments settings) : prepare arguments =
    match (settings.plan fun _ => .done).start Library.standard with
    | .ok _ => .ok settings
    | .error e => .error (.ofFailure e) := by
  obtain ⟨a, hread, hhelp, hversion, hsettings⟩ := h
  cases hstart : (settings.plan fun _ => .done).start Library.standard with
  | ok flow =>
    simp [prepare, hread, hhelp, hversion, hsettings, hstart, bind, Except.bind, Except.mapError,
      pure, Except.pure]
  | error e =>
    simp [prepare, hread, hhelp, hversion, hsettings, hstart, bind, Except.bind, Except.mapError]

theorem answer_of_refuses (ha : AsksFor arguments settings) {e : Failure}
    (h : (settings.plan s.lines).Refuses .standard e) : answer arguments s = .ofFailure e := by
  have hstart : (settings.plan fun _ => .done).start Library.standard = .error e :=
    Plan.start_eq_error_iff_refuses.mpr ((alike_plan settings _ _).refuses h)
  rw [answer, prepare_of_asksFor ha, hstart]

-- A run that starts has started without the lines already.
theorem answer_of_start (ha : AsksFor arguments settings)
    (h : (settings.plan s.lines).start Library.standard = .ok flow) :
    answer arguments s = follow settings.compact settings.verbose .empty flow := by
  have hrun : run settings s = follow settings.compact settings.verbose .empty flow := by
    rw [run, h]
  rw [answer, prepare_of_asksFor ha]
  cases hprepared : (settings.plan fun _ => .done).start Library.standard with
  | ok _ => exact hrun
  | error e =>
    have hrefuses := (alike_plan settings (fun _ => .done) s.lines).refuses
      (Plan.start_eq_error_iff_refuses.mp hprepared)
    rw [Plan.start_eq_error_iff_refuses.mpr hrefuses] at h
    cases h

theorem turnedDown_of_refuses (ha : AsksFor arguments settings) {e : Failure}
    (h : (settings.plan s.lines).Refuses .standard e) :
    TurnedDown arguments s e.status (complaint e) := by
  cases h with
  | settings hchecked => exact .plan ha hchecked
  | query hchecked hqueries => exact .query ha hchecked hqueries
  | reducer hchecked hqueries haggregation hreducers =>
    rw [Reducer.status_of_mapM_parse hreducers]
    exact .reducer ha hchecked hqueries haggregation hreducers

-- A command that is turned down leaves its status and its message, and nothing else.
theorem answer_of_turnedDown (h : TurnedDown arguments s status message) :
    answer arguments s = .refused status message := by
  cases h with
  | arguments hread => simp [answer, prepare, hread, bind, Except.bind, Except.mapError]
  | options hread hhelp hversion hsettings =>
    simp [answer, prepare, hread, hhelp, hversion, hsettings, bind, Except.bind, Except.mapError,
      Report.ofFailure, Failure.status]
  | plan ha hchecked => exact answer_of_refuses ha (.settings hchecked)
  | query ha hchecked hqueries => exact answer_of_refuses ha (.query hchecked hqueries)
  | reducer ha hchecked hqueries haggregation hreducers =>
    rw [answer_of_refuses ha (.reducer hchecked hqueries haggregation hreducers), Report.ofFailure,
      Reducer.status_of_mapM_parse hreducers]

-- A command that is not turned down tells about itself or starts a run.
theorem turnedDown_or_run (arguments : List Text) (s : Surroundings) :
    (∃ status message, TurnedDown arguments s status message) ∨ (answer arguments s).status = 0 ∨
      ∃ (settings : Settings) (flow : Flow Value),
        (settings.plan s.lines).start Library.standard = .ok flow ∧
          answer arguments s = follow settings.compact settings.verbose .empty flow := by
  cases hread : Arguments.read Settings.options arguments with
  | error e => exact .inl ⟨_, _, .arguments hread⟩
  | ok a =>
    by_cases hhelp : a.isOn "help" = true
    · exact .inr (.inl (by simp [answer, prepare, hread, hhelp, bind, Except.bind, Except.mapError]))
    by_cases hversion : a.isOn "version" = true
    · refine .inr (.inl ?_)
      simp [answer, prepare, hread, hhelp, hversion, bind, Except.bind, Except.mapError]
    rw [Bool.not_eq_true] at hhelp hversion
    cases hsettings : Settings.ofArguments a with
    | error c => exact .inl ⟨_, _, .options hread hhelp hversion hsettings⟩
    | ok settings =>
      have ha : AsksFor arguments settings := ⟨a, hread, hhelp, hversion, hsettings⟩
      cases hstart : (settings.plan s.lines).start Library.standard with
      | error e =>
        exact .inl ⟨_, _, turnedDown_of_refuses ha (Plan.start_eq_error_iff_refuses.mp hstart)⟩
      | ok flow => exact .inr (.inr ⟨settings, flow, hstart, answer_of_start ha hstart⟩)

-- The lines of an input fail only where a file cannot be opened.
theorem neverRefused_lines (s : Surroundings) (file : Text) : (s.lines file).NeverRefused := by
  unfold Surroundings.lines
  split
  · exact Flow.FailsOnly.ofSource _ _
  · split
    · exact Flow.FailsOnly.ofSource _ _
    · exact Flow.FailsOnly.failed (Failure.not_isRefusal (by simp) (by simp))

-- The status of a run is that of its failure.
theorem status_follow (compact verbose : Bool) (t : Transcript) (flow : Flow Value) :
    (follow compact verbose t flow).status = flow.failure?.elim 0 Failure.status := by
  induction flow generalizing t with
  | done => rfl
  | failed e => rfl
  | event e rest ih => exact ih () _
  | item v rest ih => exact ih () _

theorem status_ne_two (h : flow.NeverRefused) (compact verbose : Bool) (t : Transcript) :
    (follow compact verbose t flow).status ≠ 2 := by
  rw [status_follow]
  cases hfailure : flow.failure? with
  | none => decide
  | some e =>
    have hrefusal : ¬e.IsRefusal := h e hfailure
    cases e with
    | configuration c => exact absurd (.inl ⟨c, rfl⟩) hrefusal
    | _ => simp [Failure.status]

-- A command that is turned down, for whatever comes first of all that is wrong with it, reports this
-- and leaves the surroundings alone; and the status 2 is that of such a command only.
theorem answer_turnedDown (arguments : List Text) (s : Surroundings) :
    (∀ status message, TurnedDown arguments s status message →
      (answer arguments s).events = [] ∧ (answer arguments s).output = [] ∧
        (answer arguments s).errors = message ∧ (answer arguments s).status = status) ∧
      ((answer arguments s).status = 2 → ∃ message, TurnedDown arguments s 2 message) := by
  constructor
  · intro status message h
    rw [answer_of_turnedDown h]
    exact ⟨rfl, rfl, rfl, rfl⟩
  · intro hstatus
    rcases turnedDown_or_run arguments s with
      ⟨status, message, h⟩ | hzero | ⟨settings, flow, hstart, hrun⟩
    · rw [answer_of_turnedDown h] at hstatus
      obtain rfl : status = 2 := hstatus
      exact ⟨message, h⟩
    · rw [hzero] at hstatus
      cases hstatus
    · have hlines : ∀ input ∈ (settings.plan s.lines).inputs, input.lines.NeverRefused := by
        intro input hinput
        obtain ⟨file, -, rfl⟩ := List.mem_map.mp hinput
        exact neverRefused_lines s file
      rw [hrun] at hstatus
      exact absurd hstatus (status_ne_two (Plan.neverRefused_of_start hstart hlines) _ _ _)

-- A limit that is none, a query that ends too early and a file that is missing: it is the limit that
-- is reported.
theorem answer_turnedDown_limit :
    let arguments : List Text := ["-q", "1 +", "-f", "missing", "-l", "-1"]
    let s : Surroundings := ⟨["1"], fun _ => .error .missing⟩
    let message := complaint (.configuration (.limit (.ofInt (-1))))
    TurnedDown arguments s 2 message ∧ (answer arguments s).events = [] ∧
      (answer arguments s).output = [] ∧ (answer arguments s).errors = message ∧
      (answer arguments s).status = 2 := by
  intro arguments s message
  have hstatus : (answer arguments s).status = 2 := by decide +kernel
  have hmessage : (answer arguments s).errors = message := by decide +kernel
  obtain ⟨hreport, hdown⟩ := answer_turnedDown arguments s
  obtain ⟨found, h⟩ := hdown hstatus
  obtain ⟨hevents, houtput, herrors, -⟩ := hreport 2 found h
  obtain rfl : found = message := herrors.symm.trans hmessage
  exact ⟨h, hevents, houtput, herrors, hstatus⟩

end RecordQuery.Command
