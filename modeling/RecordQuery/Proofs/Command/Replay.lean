import RecordQuery.Command.Run
import RecordQuery.Proofs.Json.Line
import RecordQuery.Proofs.Json.Reader
import RecordQuery.Proofs.Record.Names
import RecordQuery.Proofs.Record.Results

/-!
Running the command over what it wrote. A document that is read and written again is the same text;
compact documents are one line each, so the output of a run over objects is read as the same objects
and comes out unchanged.
-/

namespace RecordQuery

namespace Reading

variable {reading : Reading} {query : Query} {lines : List Text}

-- The objects of an input, blank lines passed over.
def objectsIn (lines : List Text) : List (Fields Value) :=
  (lines.filter fun line => !line.trim.isEmpty).filterMap Record.object?

-- Nothing but objects and blank lines.
def HoldsObjects (lines : List Text) : Prop :=
  ∀ line ∈ lines, line.trim.isEmpty = true ∨ (Record.object? line).isSome = true

instance (lines : List Text) : Decidable (HoldsObjects lines) :=
  inferInstanceAs (Decidable (∀ line ∈ lines, _))

theorem distinctNames_of_object? {line : Text} {fields : Fields Value}
    (h : Record.object? line = some fields) : (Value.object fields).DistinctNames :=
  Json.read?_distinctNames (read?_of_object? h)

theorem objectsIn_cons_blank {line : Text} (h : line.trim.isEmpty = true) (lines : List Text) :
    objectsIn (line :: lines) = objectsIn lines := by
  rw [objectsIn, objectsIn, List.filter_cons_of_neg (by simp [h])]

theorem objectsIn_cons_object {line : Text} {fields : Fields Value} (hblank : line.trim.isEmpty = false)
    (h : Record.object? line = some fields) (lines : List Text) :
    objectsIn (line :: lines) = fields :: objectsIn lines := by
  rw [objectsIn, List.filter_cons_of_pos (by simp [hblank]), List.filterMap_cons, h]
  rfl

-- Without defaults a record is the object that was read.
theorem ofObject_nil {line : Text} {fields : Fields Value} (h : Record.object? line = some fields) :
    Record.ofObject [] fields = ⟨.object fields, Record.scopeOf fields⟩ := by
  have hnames := (Value.distinctNames_object.mp (distinctNames_of_object? h)).1
  have hself : Fields.merge [] fields = fields := Fields.ofEntries_eq_self hnames
  rw [Record.ofObject, hself]

-- A query that gives the record itself gives the objects, without a failure.
theorem outcome_expand_objects (hskip : reading.skipsFirst = false) (hdefaults : reading.defaults = [])
    (hquery : ∀ fields, query.evaluate (Record.scopeOf fields) = .ok (.object fields))
    (h : HoldsObjects lines) (source : Text) (n : ℕ) :
    ((Flow.ofSource source lines).expand (reading.step query) ⟨.json, n⟩).outcome =
      ((objectsIn lines).map .object, none) := by
  induction lines generalizing n with
  | nil => rfl
  | cons line lines ih =>
    obtain ⟨hline, hlines⟩ := List.forall_mem_cons.mp h
    have hrest := ih hlines (n + 1)
    have hstep : ((Flow.ofSource source (line :: lines)).expand (reading.step query) ⟨.json, n⟩).outcome =
        ((reading.step query ⟨.json, n⟩ line).2.append fun _ =>
          (Flow.ofSource source lines).expand (reading.step query)
            (reading.step query ⟨.json, n⟩ line).1).outcome := rfl
    rw [hstep]
    cases hblank : line.trim.isEmpty with
    | true =>
      have hcounts : reading.counts (line, n + 1) = false := by simp [counts, hblank]
      rw [step_uncounted hcounts, Flow.append, hrest, objectsIn_cons_blank hblank]
    | false =>
      have hcounts : reading.counts (line, n + 1) = true := by simp [counts, hskip, hblank]
      obtain ⟨fields, hobject⟩ := Option.isSome_iff_exists.mp (hline.resolve_left (by simp [hblank]))
      have hanswer : answer query (n + 1) (Record.scopeOf fields) = .ok [.object fields] := by
        rw [answer, hquery]
        rfl
      obtain ⟨hfirst, hlast⟩ := Prod.mk.inj hrest
      rw [step_object hcounts hobject, hdefaults, ofObject_nil hobject, hanswer,
        objectsIn_cons_object hblank hobject, List.map_cons, flowOf, Flow.outcome,
        Flow.items_ofList_append, Flow.failure?_ofList_append, hfirst, hlast, List.singleton_append]

end Reading

namespace Command

open Reading (HoldsObjects objectsIn)
open Text (allLines)

-- What a run writes for a flow that does not fail: its items, each on a line of its own.
theorem follow_of_outcome (compact : Bool) (t : Transcript) {flow : Flow Value} {items : List Value}
    (h : flow.outcome = (items, none)) :
    (follow compact false t flow).status = 0 ∧
      (follow compact false t flow).errors = t.errors.reverse.flatten ∧
      (follow compact false t flow).output =
        t.output.reverse.flatten ++ items.flatMap fun v => v.line compact ++ [10] := by
  induction flow generalizing t items with
  | done =>
    cases h
    exact ⟨rfl, rfl, (List.append_nil _).symm⟩
  | failed e => cases h
  | event e rest ih =>
    have hnote : (t.note false e).errors = t.errors ∧ (t.note false e).output = t.output := by
      cases e <;> exact ⟨rfl, rfl⟩
    have hrest := ih () (t.note false e) h
    rwa [hnote.1, hnote.2] at hrest
  | item v rest ih =>
    obtain ⟨hitems, hfailure⟩ := Prod.mk.inj h
    have hrest : (rest ()).outcome = ((rest ()).items, none) := Prod.ext rfl hfailure
    obtain ⟨hstatus, herrors, houtput⟩ := ih () (t.print compact v) hrest
    refine ⟨hstatus, herrors, ?_⟩
    rw [follow, houtput, ← hitems, Flow.items, List.flatMap_cons, Transcript.print,
      List.reverse_cons, List.flatten_append, List.flatten_singleton, List.append_assoc,
      List.append_assoc]

-- What the command is asked for with `-c` alone.
def compactSettings : Settings where
  files := [Settings.standardInput]
  queries := [Record.selfName]
  compact := true
  verbose := false
  skipsFirst := false
  defaults := none
  aggregation := none
  distinct := false
  order := none
  limit := none

theorem prepare_compact : prepare ["-c"] = .ok compactSettings := by
  have hprepare : ((prepare ["-c"]).toOption.any fun s =>
      s.files == [Settings.standardInput] && s.queries == [Record.selfName] && s.compact &&
        !s.verbose && !s.skipsFirst && s.defaults.isNone && s.aggregation.isNone && !s.distinct &&
        s.order.isNone && s.limit.isNone) = true := by decide +kernel
  obtain ⟨s, hs, hfields⟩ := Option.any_eq_true _ _ |>.mp hprepare
  rw [toOption_eq_some_iff.mp hs]
  cases s
  simp_all [compactSettings]

theorem start_compact (s : Surroundings) :
    ∃ entry query, (∀ fields, query.evaluate (Record.scopeOf fields) = .ok (.object fields)) ∧
      (compactSettings.plan s.lines).start Library.standard = .ok (.event (.logged entry) fun _ =>
        (⟨false, [], some Settings.standardInput⟩ : Reading).run query
          (.ofSource Settings.standardInput s.standardInput)) := by
  let query : Query := ⟨Library.standard, Record.selfName, .name Record.selfName⟩
  let input : Input := ⟨Settings.standardInput, s.lines Settings.standardInput⟩
  have hcompile : Query.compile Library.standard Record.selfName = .ok query :=
    Record.compile_name (by decide +kernel)
  have hlines : s.lines Settings.standardInput =
      .ofSource Settings.standardInput s.standardInput := if_pos rfl
  refine ⟨.assembled [Settings.standardInput] [Record.selfName] [.map], query, fun fields => ?_, ?_⟩
  · simp only [query, Query.evaluate, Expr.evaluate, Record.get?_scopeOf_self]
    rfl
  · rw [← hlines]
    refine bind_eq_ok_iff.mpr ⟨.single (input, Record.selfName), rfl, ?_⟩
    refine bind_eq_ok_iff.mpr ⟨.single (input, query), ?_, bind_eq_ok_iff.mpr ⟨none, rfl, rfl⟩⟩
    simp only [Plan.Sources.mapM, hcompile]
    rfl

-- A run over objects writes them one a line.
theorem answer_compact {lines : List Text} (h : HoldsObjects lines)
    (file : Text → Except OpenError (List Text)) :
    (answer ["-c"] ⟨lines, file⟩).status = 0 ∧ (answer ["-c"] ⟨lines, file⟩).errors = [] ∧
      (answer ["-c"] ⟨lines, file⟩).output =
        ((objectsIn lines).map fun fields => Json.write 0 (.object fields)).flatMap (· ++ [10]) := by
  obtain ⟨entry, query, hquery, hstart⟩ := start_compact ⟨lines, file⟩
  have houtcome : (Flow.event (.logged entry) fun _ =>
      (⟨false, [], some Settings.standardInput⟩ : Reading).run query
        (.ofSource Settings.standardInput lines)).outcome = ((objectsIn lines).map .object, none) :=
    Reading.outcome_expand_objects rfl rfl hquery h Settings.standardInput 0
  obtain ⟨hstatus, herrors, houtput⟩ := follow_of_outcome true .empty houtcome
  have hanswer : answer ["-c"] ⟨lines, file⟩ = follow true false .empty (.event (.logged entry)
      fun _ => (⟨false, [], some Settings.standardInput⟩ : Reading).run query
        (.ofSource Settings.standardInput lines)) := by
    rw [answer, prepare_compact]
    dsimp only
    rw [run, hstart]
    rfl
  rw [hanswer]
  refine ⟨hstatus, herrors, houtput.trans ?_⟩
  rw [List.flatMap_map, List.flatMap_map]
  rfl

theorem object?_write {fields : Fields Value} (h : (Value.object fields).DistinctNames) :
    Record.object? (Json.write 0 (.object fields)) = some (Json.heldFields fields) := by
  rw [Record.object?, Json.read?_write h, Json.held_object]

theorem write_ne_blank (fields : Fields Value) :
    (Json.write 0 (.object fields)).trim.isEmpty = false := by
  have hbrace : (123 : UInt16) ∈ Json.write 0 (.object fields) := by
    rw [Json.write, Json.writeBefore]
    split <;> exact List.mem_cons_self
  rw [List.isEmpty_eq_false_iff]
  exact List.ne_nil_of_mem (Text.mem_trim hbrace rfl)

theorem distinctNames_of_mem_objectsIn {lines : List Text} {fields : Fields Value}
    (h : fields ∈ objectsIn lines) : (Value.object fields).DistinctNames := by
  obtain ⟨line, -, hobject⟩ := List.mem_filterMap.mp h
  exact Reading.distinctNames_of_object? hobject

-- Objects that are written one a line are read as what their documents hold.
theorem objectsIn_write (objects : List (Fields Value))
    (h : ∀ fields ∈ objects, (Value.object fields).DistinctNames) :
    let lines := objects.map fun fields => Json.write 0 (.object fields)
    HoldsObjects lines ∧ objectsIn lines = objects.map Json.heldFields := by
  intro lines
  constructor
  · intro line hline
    obtain ⟨fields, hfields, rfl⟩ := List.mem_map.mp hline
    exact .inr (by rw [object?_write (h fields hfields)]; rfl)
  · have hkept : lines.filter (fun line => !line.trim.isEmpty) = lines := by
      refine List.filter_eq_self.mpr fun line hline => ?_
      obtain ⟨fields, -, rfl⟩ := List.mem_map.mp hline
      rw [write_ne_blank]
      rfl
    rw [objectsIn, hkept, List.filterMap_map, ← List.filterMap_eq_map]
    exact List.filterMap_congr fun fields hfields => object?_write (h fields hfields)

-- A document is written again as it was once it has been read, whatever the indent; and a run over
-- what a run over objects has written, line by line, writes the same.
theorem written_again {v : Value} (hv : v.DistinctNames) (indent : ℕ) {lines : List Text}
    (hlines : HoldsObjects lines) (file file' : Text → Except OpenError (List Text))
    (returnEnds : Bool) :
    (∃ w, Json.read? (Json.write indent v) = some w ∧ Json.write indent w = Json.write indent v) ∧
      let once := answer ["-c"] ⟨lines, file⟩
      let twice := answer ["-c"] ⟨allLines returnEnds once.output, file'⟩
      once.status = 0 ∧ once.errors = [] ∧ twice.status = 0 ∧ twice.errors = [] ∧
        twice.output = once.output := by
  refine ⟨⟨Json.held v, Json.read?_write hv, Json.write_held v⟩, ?_⟩
  intro once twice
  obtain ⟨hstatus, herrors, honce⟩ := answer_compact hlines file
  have hcut : allLines returnEnds once.output =
      (objectsIn lines).map fun fields => Json.write 0 (.object fields) := by
    rw [honce]
    refine Text.allLines_flatMap returnEnds fun line hline => ?_
    obtain ⟨fields, -, rfl⟩ := List.mem_map.mp hline
    exact Json.oneLine_write _
  obtain ⟨hholds, hobjects⟩ :=
    objectsIn_write (objectsIn lines) fun fields => distinctNames_of_mem_objectsIn
  rw [← hcut] at hholds hobjects
  obtain ⟨hstatus', herrors', htwice⟩ := answer_compact hholds file'
  have hsame : ∀ fields : Fields Value,
      Json.write 0 (.object (Json.heldFields fields)) = Json.write 0 (.object fields) := fun fields => by
    rw [← Json.held_object, Json.write_held]
  rw [hobjects, List.map_map] at htwice
  refine ⟨hstatus, herrors, hstatus', herrors', htwice.trans (Eq.trans ?_ honce.symm)⟩
  exact congrArg (·.flatMap (· ++ [10])) (List.map_congr_left fun fields _ => hsame fields)

-- A tuple with NaN, a zero with a sign, half a pair and an integer beyond the safe range; and objects
-- with repeated names, a double that prints as an integer, and blank lines between them.
theorem written_again_mixed :
    let v : Value := .tuple [.number (.float .nan), .number (.float (.zero true)), .text [0xD800],
      .number (.float (Double.ofInt (2 ^ 60))), .number (.big (-9007199254740993))]
    let lines : List Text := ["\x7b\"a\": 1e3, \"b\": [1e20], \"a\": null\x7d", " ", "\x7b \x7d"]
    let once := answer ["-c"] ⟨lines, fun _ => .error .missing⟩
    let twice := answer ["-c"] ⟨allLines true once.output, fun _ => .error .missing⟩
    v.DistinctNames ∧ HoldsObjects lines ∧
      (∃ w, Json.read? (Json.write 2 v) = some w ∧ Json.write 2 w = Json.write 2 v) ∧
      once.status = 0 ∧ once.errors = [] ∧ twice.status = 0 ∧ twice.errors = [] ∧
        twice.output = once.output := by
  intro v lines once twice
  have hv : v.DistinctNames := .tuple (by simp [Value.DistinctNames.number, Value.DistinctNames.text])
  have hlines : HoldsObjects lines := by decide +kernel
  exact ⟨hv, hlines, written_again hv 2 hlines _ _ true⟩

end Command

end RecordQuery
