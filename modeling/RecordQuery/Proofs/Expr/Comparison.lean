import RecordQuery.Expr.Evaluation
import RecordQuery.Proofs.Attempt

/-!
Comparisons of more than two operands. One comparison with several links comes to what its links come
to as comparisons of their own, joined by `and` in any grouping, although there the operands between
two links are evaluated twice. What stands after the first link that does not hold has no say.
-/

namespace RecordQuery.Expr

variable {library : Library} {scope : Scope} {first e c : Expr} {es fs : List Expr}
  {links : List (CompareOp × Expr)} {left : Value}

-- The links of a comparison, each as a comparison of the two operands beside it.
def comparisons (first : Expr) : List (CompareOp × Expr) → List Expr
  | [] => []
  | (op, e) :: rest => .compare first [(op, e)] :: comparisons e rest

-- Expressions joined by `and` in some grouping.
inductive Conjunction : List Expr → Expr → Prop
  | single (e : Expr) : Conjunction [e] e
  | and {es fs e f} (he : Conjunction es e) (hf : Conjunction fs f) :
    Conjunction (es ++ fs) (.logical .and e f)

-- Whether all of some expressions are true, evaluated one after another up to the first that is not.
def allTrue (library : Library) (scope : Scope) : List Expr → Except Fault Bool
  | [] => return true
  | e :: rest => do
    if (← evaluate library scope e).isTruthy then allTrue library scope rest else return false

theorem allTrue_append : allTrue library scope (es ++ fs) = do
    if ← allTrue library scope es then allTrue library scope fs else return false := by
  induction es with
  | nil => rfl
  | cons e rest ih =>
    rw [List.cons_append, allTrue, allTrue, ih]
    cases evaluate library scope e with
    | error fault => rfl
    | ok v => cases h : v.isTruthy <;> simp [bind, Except.bind, h, pure, Except.pure]

theorem exists_last_comparisons (first : Expr) (links more : List (CompareOp × Expr)) :
    ∃ last, comparisons first (links ++ more) = comparisons first links ++ comparisons last more := by
  induction links generalizing first with
  | nil => exact ⟨first, rfl⟩
  | cons link rest ih =>
    obtain ⟨op, e⟩ := link
    obtain ⟨last, hlast⟩ := ih e
    refine ⟨last, ?_⟩
    rw [List.cons_append, comparisons, comparisons, hlast, List.cons_append]

theorem evaluate_single {op : CompareOp} (first e : Expr) :
    evaluate library scope (.compare first [(op, e)]) = do
      let left ← evaluate library scope first
      let right ← evaluate library scope e
      return .bool (← Value.holds op left right) := by
  simp only [evaluate, allHold]
  cases evaluate library scope first with
  | error fault => rfl
  | ok left =>
    cases evaluate library scope e with
    | error fault => rfl
    | ok right =>
      cases hholds : Value.holds op left right with
      | error fault => simp [bind, Except.bind, hholds]
      | ok b => cases b <;> simp [bind, Except.bind, hholds, pure, Except.pure]

-- The operand between two links comes to the same value for both, so the value carried from link to
-- link is the one that the next comparison evaluates again.
theorem allHold_eq_allTrue (hfirst : evaluate library scope first = .ok left) :
    allHold library scope left links = allTrue library scope (comparisons first links) := by
  induction links generalizing first left with
  | nil => rfl
  | cons link rest ih =>
    obtain ⟨op, e⟩ := link
    rw [allHold, comparisons, allTrue, evaluate_single, hfirst]
    cases he : evaluate library scope e with
    | error fault => rfl
    | ok right =>
      cases hholds : Value.holds op left right with
      | error fault => simp [bind, Except.bind, hholds]
      | ok b =>
        cases b with
        | false => simp [bind, Except.bind, hholds, pure, Except.pure, Value.isTruthy]
        | true => simpa [bind, Except.bind, hholds, pure, Except.pure, Value.isTruthy] using ih he

theorem evaluate_compare_eq_allTrue (hlinks : links ≠ []) :
    evaluate library scope (.compare first links) =
      (allTrue library scope (comparisons first links)).map .bool := by
  rw [evaluate]
  cases hfirst : evaluate library scope first with
  | ok left =>
    change (allHold library scope left links >>= _) = _
    rw [allHold_eq_allTrue hfirst]
    cases allTrue library scope (comparisons first links) <;> rfl
  | error fault =>
    obtain ⟨⟨op, e⟩, rest, rfl⟩ := List.exists_cons_of_ne_nil hlinks
    rw [comparisons, allTrue, evaluate_single, hfirst]
    rfl

-- An expression that comes to a boolean if it comes to anything.
def IsTest (library : Library) (scope : Scope) (e : Expr) : Prop :=
  Ensures (fun v => ∃ b, v = .bool b) (evaluate library scope e)

theorem isTest_comparisons (first : Expr) (links : List (CompareOp × Expr)) :
    ∀ e ∈ comparisons first links, IsTest library scope e := by
  induction links generalizing first with
  | nil => exact nofun
  | cons link rest ih =>
    obtain ⟨op, e⟩ := link
    refine List.forall_mem_cons.mpr ⟨?_, ih e⟩
    rw [IsTest, evaluate_single]
    exact .after fun left => .after fun right => .after fun b => .ok ⟨b, rfl⟩

theorem Conjunction.evaluate_eq (h : Conjunction es c)
    (htests : ∀ e ∈ es, IsTest library scope e) :
    evaluate library scope c = (allTrue library scope es).map .bool := by
  induction h with
  | single e =>
    have htest := htests e List.mem_cons_self
    rw [allTrue]
    cases he : evaluate library scope e with
    | error fault => rfl
    | ok v =>
      obtain ⟨b, rfl⟩ := htest v he
      cases b <;> rfl
  | and _ _ ihe ihf =>
    rw [List.forall_mem_append] at htests
    rw [evaluate, allTrue_append, ihe htests.1]
    cases allTrue library scope _ with
    | error fault => rfl
    | ok b =>
      cases b with
      | false => rfl
      | true => exact ihf htests.2

theorem Conjunction.ne_nil (h : Conjunction es c) : es ≠ [] := by
  induction h with
  | single e => exact List.cons_ne_nil e []
  | and _ _ ih => exact fun hnil => ih (List.append_eq_nil_iff.mp hnil).1

theorem links_ne_nil_of_false (h : evaluate library scope (.compare first links) = .ok (.bool false)) :
    links ≠ [] := by
  rintro rfl
  obtain ⟨left, -, htrue⟩ := bind_eq_ok_iff.mp h
  cases htrue

-- A comparison with any number of links comes to the same value or the same fault as its links joined
-- by `and`. Once the links up to some place make it false, it is false whatever comes after them.
theorem evaluate_compare_eq_conjunction (library : Library) (scope : Scope) (first : Expr)
    (links : List (CompareOp × Expr)) :
    (∀ c, Conjunction (comparisons first links) c →
      evaluate library scope (.compare first links) = evaluate library scope c) ∧
    (evaluate library scope (.compare first links) = .ok (.bool false) →
      ∀ more, evaluate library scope (.compare first (links ++ more)) = .ok (.bool false)) := by
  refine ⟨fun c hc => ?_, fun hfalse more => ?_⟩
  · have hlinks : links ≠ [] := by
      rintro rfl
      exact hc.ne_nil rfl
    rw [evaluate_compare_eq_allTrue hlinks, hc.evaluate_eq (isTest_comparisons first links)]
  · have hlinks := links_ne_nil_of_false hfalse
    have hmore : links ++ more ≠ [] := fun hnil => hlinks (List.append_eq_nil_iff.mp hnil).1
    obtain ⟨last, hlast⟩ := exists_last_comparisons first links more
    rw [evaluate_compare_eq_allTrue hlinks] at hfalse
    rw [evaluate_compare_eq_allTrue hmore, hlast, allTrue_append]
    cases hall : allTrue library scope (comparisons first links) with
    | error fault =>
      rw [hall] at hfalse
      cases hfalse
    | ok b =>
      rw [hall] at hfalse
      cases hfalse
      rfl

-- After a link that does not hold a name that is not defined does no harm. Where the second link is at
-- fault, so is a conjunction that is grouped from the right.
theorem evaluate_compare_eq_conjunction_false :
    let a := Expr.literal (.text "a")
    let b := Expr.literal (.text "b")
    let links := [(CompareOp.lt, b), (.notMember, b)]
    let faulty := [(CompareOp.lt, b), (.lt, .literal .null), (.eq, name "x")]
    let grouped := logical .and (.compare a [(.lt, b)])
      (logical .and (.compare b [(.lt, .literal .null)]) (.compare (.literal .null) [(.eq, name "x")]))
    evaluate [] [] (.compare a links) = .ok (.bool false) ∧
      evaluate [] [] (.compare a (links ++ [(.member, name "x")])) = .ok (.bool false) ∧
      Conjunction (comparisons a faulty) grouped ∧
      evaluate [] [] (.compare a faulty) = evaluate [] [] grouped ∧
      evaluate [] [] grouped = .error (.unordered .lt .string .null) := by
  intro a b links faulty grouped
  have hfalse : evaluate [] [] (.compare a links) = .ok (.bool false) := rfl
  have hgrouped : Conjunction (comparisons a faulty) grouped :=
    .and (.single _) (.and (.single _) (.single _))
  obtain ⟨-, hmore⟩ := evaluate_compare_eq_conjunction [] [] a links
  obtain ⟨hconjunction, -⟩ := evaluate_compare_eq_conjunction [] [] a faulty
  exact ⟨hfalse, hmore hfalse _, hgrouped, hconjunction _ hgrouped, rfl⟩

end RecordQuery.Expr
