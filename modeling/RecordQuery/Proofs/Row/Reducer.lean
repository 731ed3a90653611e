import RecordQuery.Proofs.Expr.Literal
import RecordQuery.Row.Reducer

/-!
What a reducer is read as: a name or a call, each argument of which is read by itself. A text that is
read as no reducer fails for its spelling, or for a bad key in an argument.
-/

namespace RecordQuery.Reducer

variable {library : Library} {spec : Text}

-- One argument of a call that was given as a reducer.
def argumentOf (spec : Text) (e : Expr) : Except Failure Value :=
  match e.literal? with
  | .ok (some v) => .ok v
  | .ok none => .error (.query (.reducerArgument spec))
  | .error e => .error (.evaluation (.ofFault e))

theorem argumentsOf_eq (spec : Text) (arguments : List Expr) :
    argumentsOf spec arguments = arguments.mapM (argumentOf spec) := rfl

theorem parse_call {name : Text} {arguments : List Expr}
    (h : Expr.parse spec = .ok (.call name arguments)) :
    parse library spec = (argumentsOf spec arguments >>= fun values =>
      functionOf library name values >>= fun function =>
        .ok ⟨spec.trim, function, values⟩) := by
  rw [parse, h]
  simp only [bind, Except.bind]
  cases argumentsOf spec arguments <;> rfl

theorem parse_name {name : Text} (h : Expr.parse spec = .ok (.name name)) :
    parse library spec =
      (functionOf library name [] >>= fun function => .ok ⟨spec.trim, function, []⟩) := by
  rw [parse, h]
  rfl

theorem parse_error {e : SyntaxError} (h : Expr.parse spec = .error e) :
    parse library spec = .error (.query e) := by
  rw [parse, h]
  rfl

-- A call in which some argument is a literal with a key that is no text, and those before it are
-- literals with a value.
def HasBadKey (spec : Text) : Prop :=
  ∃ name before e after, Expr.parse spec = .ok (.call name (before ++ e :: after)) ∧
    (∀ a ∈ before, a.isLiteral = true ∧ a.hasTextKeys = true) ∧
      e.isLiteral = true ∧ e.hasTextKeys = false

theorem argumentOf_eq_ok_iff {e : Expr} :
    (∃ v, argumentOf spec e = .ok v) ↔ e.isLiteral = true ∧ e.hasTextKeys = true := by
  unfold argumentOf
  rcases e.literal?_cases with ⟨hliteral, hvalue⟩ | ⟨hliteral, hkeys, v, hvalue⟩ |
    ⟨-, hkeys, kind, hvalue⟩
  · simp [hvalue, hliteral]
  · simp [hvalue, hliteral, hkeys]
  · simp [hvalue, hkeys]

theorem argumentOf_eq_error {e : Expr} {failure : Failure} (h : argumentOf spec e = .error failure) :
    (¬(e.isLiteral = true ∧ e.hasTextKeys = false) ∧ failure = .query (.reducerArgument spec)) ∨
      ((e.isLiteral = true ∧ e.hasTextKeys = false) ∧
        ∃ kind, failure = .evaluation (.ofFault (.nameKind kind))) := by
  unfold argumentOf at h
  rcases e.literal?_cases with ⟨hliteral, hvalue⟩ | ⟨-, -, v, hvalue⟩ |
    ⟨hliteral, hkeys, kind, hvalue⟩
  · rw [hvalue] at h
    cases h
    exact .inl ⟨by simp [hliteral], rfl⟩
  · rw [hvalue] at h
    cases h
  · rw [hvalue] at h
    cases h
    exact .inr ⟨⟨hliteral, hkeys⟩, kind, rfl⟩

theorem functionOf_eq_error {name : Text} {arguments : List Value} {failure : Failure}
    (h : functionOf library name arguments = .error failure) : ∃ s, failure = .query s := by
  unfold functionOf at h
  split at h
  · cases h
    exact ⟨_, rfl⟩
  · split at h
    · cases h
    · cases h
      exact ⟨_, rfl⟩

-- What a reducer that cannot be read fails with: its spelling, or the bad key of an argument.
theorem parse_eq_error {failure : Failure} (h : parse library spec = .error failure) :
    (∃ s, failure = .query s) ∨
      (HasBadKey spec ∧ ∃ kind, failure = .evaluation (.ofFault (.nameKind kind))) := by
  cases hparse : Expr.parse spec with
  | error e =>
    rw [parse_error hparse] at h
    cases h
    exact .inl ⟨e, rfl⟩
  | ok expr =>
    cases expr with
    | name name =>
      rw [parse_name hparse] at h
      rcases bind_eq_error_iff.mp h with hfunction | ⟨function, -, hok⟩
      · exact .inl (functionOf_eq_error hfunction)
      · cases hok
    | call name arguments =>
      rw [parse_call hparse, argumentsOf_eq] at h
      rcases bind_eq_error_iff.mp h with harguments | ⟨values, -, hrest⟩
      · obtain ⟨before, e, after, rfl, hbefore, he⟩ := mapM_eq_error_iff.mp harguments
        simp only [argumentOf_eq_ok_iff] at hbefore
        rcases argumentOf_eq_error he with ⟨-, rfl⟩ | ⟨⟨hliteral, hkeys⟩, hkind⟩
        · exact .inl ⟨_, rfl⟩
        · exact .inr ⟨⟨name, before, e, after, hparse, hbefore, hliteral, hkeys⟩, hkind⟩
      · rcases bind_eq_error_iff.mp hrest with hfunction | ⟨function, -, hok⟩
        · exact .inl (functionOf_eq_error hfunction)
        · cases hok
    | _ =>
      rw [parse, hparse] at h
      cases h
      exact .inl ⟨_, rfl⟩

theorem parse_of_hasBadKey (library : Library) (h : HasBadKey spec) :
    ∃ kind, parse library spec = .error (.evaluation (.ofFault (.nameKind kind))) := by
  obtain ⟨name, before, e, after, hparse, hbefore, hbad⟩ := h
  have harguments : ∀ a ∈ before, ∃ v, argumentOf spec a = .ok v := fun a ha =>
    argumentOf_eq_ok_iff.mpr (hbefore a ha)
  cases he : argumentOf spec e with
  | ok v =>
    have hgood := argumentOf_eq_ok_iff.mp ⟨v, he⟩
    rw [hgood.2] at hbad
    cases hbad.2
  | error failure =>
    obtain ⟨hgood, -⟩ | ⟨-, kind, rfl⟩ := argumentOf_eq_error he
    · exact absurd hbad hgood
    · refine ⟨kind, ?_⟩
      rw [parse_call hparse, argumentsOf_eq,
        mapM_eq_error_iff.mpr ⟨before, e, after, rfl, harguments, he⟩]
      rfl

end RecordQuery.Reducer
