import RecordQuery.Function.Standard
import RecordQuery.Proofs.Expr.Literal
import RecordQuery.Proofs.Record.Results

/-!
Failures of a run and the lines they arise for. A failure tells the number of its line unless the
line is taken for a row and one of its fields spells a literal that has no value.
-/

namespace RecordQuery

-- A failure that reports a line by its number, be it unreadable or one on which evaluation fails.
def Failure.TellsLine (e : Failure) (line : Text) (number : Nat) : Prop :=
  e = .unreadable line (some number) ∨ ∃ fault, e = .evaluation ⟨fault, some number⟩

instance (e : Failure) (line : Text) (number : Nat) : Decidable (e.TellsLine line number) :=
  match e with
  | .evaluation e => decidable_of_iff (e.line = some number) (by
      cases e
      simp [Failure.TellsLine])
  | .unreadable t n => decidable_of_iff (t = line ∧ n = some number) (by simp [Failure.TellsLine])
  | .configuration _ => isFalse (by simp [Failure.TellsLine])
  | .query _ => isFalse (by simp [Failure.TellsLine])
  | .column _ => isFalse (by simp [Failure.TellsLine])
  | .input _ _ => isFalse (by simp [Failure.TellsLine])

theorem Failure.not_tellsLine_evaluation (fault : Fault) (line : Text) (number : Nat) :
    ¬(Failure.evaluation ⟨fault, none⟩).TellsLine line number := by
  rintro (h | ⟨fault', h⟩) <;> cases h

namespace Record

-- A row with a field that spells a literal in which some key is no text.
def HasBadKey (line : Text) : Prop :=
  ∃ fields, Csv.fields line = .ok fields ∧ ∃ field ∈ fields, Value.SpellsBadKey field

theorem tupleOf_cases (fields : List Text) :
    ((∀ field ∈ fields, ¬Value.SpellsBadKey field) ∧ ∃ v, tupleOf fields = .ok v) ∨
      ((∃ field ∈ fields, Value.SpellsBadKey field) ∧
        ∃ kind, tupleOf fields = .error (.nameKind kind)) := by
  rw [tupleOf]
  rcases mapM_cases Value.ofSpelling fields with ⟨vs, hvs, hall⟩ | ⟨field, hmem, e, he, hfail⟩
  · refine .inl ⟨fun field hfield => ?_, by rw [hvs]; exact ⟨_, rfl⟩⟩
    rcases Value.ofSpelling_cases field with ⟨hgood, -⟩ | ⟨-, kind, herror⟩
    · exact hgood
    · obtain ⟨v, hv⟩ := hall field hfield
      rw [herror] at hv
      cases hv
  · rcases Value.ofSpelling_cases field with ⟨-, v, hv⟩ | ⟨hbad, kind, herror⟩
    · rw [hv] at he
      cases he
    · rw [herror] at he
      cases he
      exact .inr ⟨⟨field, hmem, hbad⟩, kind, by rw [hfail]; rfl⟩

end Record

namespace Reading

variable {reading : Reading} {query : Query} {lines before : List Text} {line : Text} {n : Nat}
  {e : Failure} {mode : Mode}

theorem failure?_flowOf (o : Except Failure (List Value)) :
    (flowOf o).failure? = some e ↔ o = .error e := by
  cases o with
  | error e' => simp [flowOf, Flow.failure?]
  | ok items => simp [flowOf]

theorem tellsLine_of_answer (line : Text) {scope : Scope} (h : answer query n scope = .error e) :
    e.TellsLine line n := by
  rw [answer] at h
  split at h
  · cases h
  · cases h
    exact .inr ⟨_, rfl⟩

-- On a row, what is missing is the number of the line of a literal without a value.
theorem tellsLine_of_rowOutcome (h : rowOutcome query (line, n) = .error e) :
    (e.TellsLine line n ↔ ¬Record.HasBadKey line) ∧
      (¬e.TellsLine line n → ∃ kind, e = .evaluation ⟨.nameKind kind, none⟩) := by
  simp only [rowOutcome] at h
  split at h
  · next fault hfields =>
    cases h
    have htells : (Failure.unreadable line (some n)).TellsLine line n := .inl rfl
    refine ⟨iff_of_true htells ?_, fun hn => absurd htells hn⟩
    rintro ⟨fields, hok, -⟩
    rw [hfields] at hok
    cases hok
  · next fields hfields =>
    have hbad : Record.HasBadKey line ↔ ∃ field ∈ fields, Value.SpellsBadKey field := by
      simp [Record.HasBadKey, hfields]
    rw [hbad]
    rcases Record.tupleOf_cases fields with ⟨hgood, v, hv⟩ | ⟨hbad, kind, hkind⟩
    · rw [hv] at h
      have htells := tellsLine_of_answer line h
      refine ⟨iff_of_true htells ?_, fun hn => absurd htells hn⟩
      rintro ⟨field, hmem, hfield⟩
      exact hgood field hmem hfield
    · rw [hkind] at h
      cases h
      exact ⟨iff_of_false (Failure.not_tellsLine_evaluation _ _ _) (not_not_intro hbad),
        fun _ => ⟨kind, rfl⟩⟩

-- A line is taken for a row if it or a line before it counts and is no object.
def TakesForRow (reading : Reading) (before : List Text) (line : Text) : Prop :=
  ∃ l ∈ reading.countedLines (before ++ [line]), isObject l = false

-- Lines are taken for objects as long as every line that counts is one.
theorem stateAfter_step (reading : Reading) (query : Query) (mode : Mode) (n : Nat)
    (lines : List Text) :
    ((Flow.stateAfter (reading.step query) ⟨mode, n⟩ lines).mode = .json ↔
        mode = .json ∧ (reading.countedAfter n lines).all isObject = true) ∧
      (Flow.stateAfter (reading.step query) ⟨mode, n⟩ lines).count = n + lines.length := by
  induction lines generalizing mode n with
  | nil => exact ⟨by simp [Flow.stateAfter, countedAfter], rfl⟩
  | cons line lines ih =>
    have hcount : n + (line :: lines).length = n + 1 + lines.length := by
      rw [List.length_cons]
      omega
    rw [Flow.stateAfter, List.foldl_cons, ← Flow.stateAfter, countedAfter_cons, hcount]
    cases hcounts : reading.counts (line, n + 1) with
    | false =>
      rw [step_uncounted hcounts]
      exact ih mode (n + 1)
    | true =>
      rw [if_pos rfl, List.all_cons, Bool.and_eq_true_iff]
      cases mode with
      | csv =>
        rw [step_row hcounts]
        obtain ⟨hmode, hlength⟩ := ih .csv (n + 1)
        exact ⟨by simpa using hmode, hlength⟩
      | json =>
        cases hobject : Record.object? line with
        | some fields =>
          rw [step_object hcounts hobject]
          obtain ⟨hmode, hlength⟩ := ih .json (n + 1)
          exact ⟨by simpa [isObject, hobject] using hmode, hlength⟩
        | none =>
          rw [step_firstRow hcounts hobject]
          obtain ⟨hmode, hlength⟩ := ih .csv (n + 1)
          exact ⟨by simpa [isObject, hobject] using hmode, hlength⟩

theorem takesForRow_iff (hcounts : reading.counts (line, before.length + 1) = true) :
    reading.TakesForRow before line ↔
      (reading.countedLines before).all isObject = false ∨ Record.object? line = none := by
  have hconcat : reading.countedLines (before ++ [line]) =
      reading.countedLines before ++ [(line, before.length + 1)] := by
    rw [countedLines_eq, countedLines_eq, countedAfter, countedAfter, List.zipIdx_append,
      List.filter_append, List.zipIdx_singleton, List.filter_singleton, Nat.zero_add,
      Nat.add_comm 1, hcounts, cond_true]
  rw [TakesForRow, hconcat]
  simp [isObject, or_and_right, exists_or]

-- A failing run fails on one line, after lines that do not fail, and the failure tells the number of
-- that line unless the line is taken for a row and has a field that spells a literal without a
-- value; then it names the kind of a key and no line.
theorem failure_tellsLine_iff (h : (reading.run query (.ofList lines)).failure? = some e) :
    ∃ before line after, lines = before ++ line :: after ∧
      (reading.run query (.ofList before)).failure? = none ∧
      (e.TellsLine line (before.length + 1) ↔
        ¬(reading.TakesForRow before line ∧ Record.HasBadKey line)) ∧
      (¬e.TellsLine line (before.length + 1) → ∃ kind, e = .evaluation ⟨.nameKind kind, none⟩) := by
  obtain ⟨before, line, after, rfl, hbefore, hline⟩ := Flow.exists_step_of_failure?_expand h
  refine ⟨before, line, after, rfl, hbefore, ?_⟩
  obtain ⟨hmode, hcount⟩ := stateAfter_step reading query .json 0 before
  change (Flow.stateAfter (reading.step query) .start before).mode = _ ↔ _ at hmode
  change (Flow.stateAfter (reading.step query) .start before).count = _ at hcount
  rw [← countedLines_eq, eq_self, true_and] at hmode
  rw [Nat.zero_add] at hcount
  generalize Flow.stateAfter (reading.step query) .start before = state at hline hmode hcount
  obtain ⟨mode, n⟩ := state
  obtain rfl : n = before.length := hcount
  cases hcounts : reading.counts (line, before.length + 1) with
  | false =>
    rw [step_uncounted hcounts] at hline
    cases hline
  | true =>
    cases mode with
    | csv =>
      rw [step_row hcounts] at hline
      have hmixed : (reading.countedLines before).all isObject = false :=
        Bool.eq_false_iff.mpr fun hall => by cases hmode.mpr hall
      have hrow := (takesForRow_iff hcounts).mpr (.inl hmixed)
      simpa only [hrow, true_and] using tellsLine_of_rowOutcome ((failure?_flowOf _).mp hline)
    | json =>
      have hall : (reading.countedLines before).all isObject = true := hmode.mp rfl
      cases hobject : Record.object? line with
      | none =>
        rw [step_firstRow hcounts hobject] at hline
        have hrow := (takesForRow_iff hcounts).mpr (.inr hobject)
        simpa only [hrow, true_and] using tellsLine_of_rowOutcome ((failure?_flowOf _).mp hline)
      | some fields =>
        rw [step_object hcounts hobject] at hline
        have htells := tellsLine_of_answer line ((failure?_flowOf _).mp hline)
        have hrow : ¬reading.TakesForRow before line := by
          rw [takesForRow_iff hcounts, hall, hobject]
          simp
        exact ⟨iff_of_true htells fun hbad => hrow hbad.1, fun hn => absurd htells hn⟩

-- A line that spells an object with a number as its key is no JSON and one field as a row.
theorem failure?_numberKey : ∃ query e, Query.compile .standard "_" = .ok query ∧
    ((⟨false, [], none⟩ : Reading).run query (.ofList ["\x7b1: 2\x7d"])).failure? = some e ∧
      ¬e.TellsLine "\x7b1: 2\x7d" 1 := by
  have hrun : ((Query.compile .standard "_").toOption.any fun query =>
      ((⟨false, [], none⟩ : Reading).run query (.ofList ["\x7b1: 2\x7d"])).failure?.any fun e =>
        ¬e.TellsLine "\x7b1: 2\x7d" 1) = true := by decide +kernel
  obtain ⟨query, hquery, hrun⟩ := Option.any_eq_true _ _ |>.mp hrun
  obtain ⟨e, hfailure, htells⟩ := Option.any_eq_true _ _ |>.mp hrun
  exact ⟨query, e, toOption_eq_some_iff.mp hquery, hfailure, of_decide_eq_true htells⟩

theorem failure_tellsLine_iff_numberKey : ∃ query e, Query.compile .standard "_" = .ok query ∧
    ((⟨false, [], none⟩ : Reading).run query (.ofList ["\x7b1: 2\x7d"])).failure? = some e ∧
      ∃ before line after, [Text.ofString "\x7b1: 2\x7d"] = before ++ line :: after ∧
        ((⟨false, [], none⟩ : Reading).run query (.ofList before)).failure? = none ∧
        (e.TellsLine line (before.length + 1) ↔
          ¬((⟨false, [], none⟩ : Reading).TakesForRow before line ∧ Record.HasBadKey line)) ∧
        (¬e.TellsLine line (before.length + 1) →
          ∃ kind, e = .evaluation ⟨.nameKind kind, none⟩) := by
  obtain ⟨query, e, hquery, hfailure, -⟩ := failure?_numberKey
  exact ⟨query, e, hquery, hfailure, failure_tellsLine_iff hfailure⟩

-- Not every failure tells the line it arises for.
theorem failure_without_line :
    ¬∀ (reading : Reading) (source : Text) (query : Query) (lines : List Text) (e : Failure),
      Query.compile .standard source = .ok query →
        (reading.run query (.ofList lines)).failure? = some e →
        ∃ before line after, lines = before ++ line :: after ∧
          e.TellsLine line (before.length + 1) := by
  intro h
  obtain ⟨query, e, hquery, hfailure, htells⟩ := failure?_numberKey
  obtain ⟨before, line, after, hlines, htold⟩ := h _ _ _ _ _ hquery hfailure
  obtain ⟨rfl, rfl, -⟩ | hnone := List.singleton_eq_append_iff.mp hlines
  · exact htells htold
  · simp at hnone

end Reading

end RecordQuery
