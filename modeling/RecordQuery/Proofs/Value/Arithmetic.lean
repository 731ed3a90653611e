import RecordQuery.Expr.Evaluation
import RecordQuery.Proofs.Number.Order

/-!
Arithmetic that is never undefined. The operations that numbers are computed with are not defined
everywhere: an integer has no quotient by zero and no power with a negative exponent, only a double
without a fraction can be made an integer, and no operation takes a double together with an integer.
Here the operators are carried out step by step with operations that say so, and no step is ever one of
these cases; what is told to the user instead is a division by zero, just where there is one.
-/

namespace RecordQuery

-- Why an operation has no result.
inductive Undefined
  | zeroDivisor
  | negativeExponent
  | noInteger
  | mixedForms

namespace Number

-- The integer that is made of a number.
def exactly (n : Number) : Except Undefined Int :=
  match n with
  | .big z => .ok z
  | .float x =>
    match x.toInt? with
    | some z => .ok z
    | none => .error .noInteger

-- An operation on integers where it is defined.
def Operation.onIntsChecked (op : Operation) (x y : Int) : Except Undefined Int :=
  match op with
  | .quotient => if y = 0 then .error .zeroDivisor else .ok (op.onInts x y)
  | .remainder => if y = 0 then .error .zeroDivisor else .ok (op.onInts x y)
  | .power => if y < 0 then .error .negativeExponent else .ok (op.onInts x y)
  | _ => .ok (op.onInts x y)

-- An operation on two doubles or on two integers.
def Operation.perform (op : Operation) (a b : Number) : Except Undefined Number :=
  match a, b with
  | .float x, .float y => .ok (.float (op.onDoubles x y))
  | .big x, .big y => (op.onIntsChecked x y).map .big
  | _, _ => .error .mixedForms

-- The canonical form of a number of which an integer may have come out.
def canonical : Number → Number
  | .big z => ofInt z
  | .float x => .float x

def sign : Number → Ordering
  | .big z => Ord.compare z 0
  | .float x => x.compare (Double.zero false)

-- Whether the result has to be an exact integer: the operands are, and there is no negative exponent.
def Operation.isExactOn (op : Operation) (a b : Number) : Except Undefined Bool :=
  if a.toExact?.isSome && b.toExact?.isSome then
    if op = .power then do return !decide ((← b.exactly) < 0)
    else return true
  else return false

def Operation.onIntegers (op : Operation) (a b : Number) : Except Undefined Number := do
  let x ← a.exactly
  let y ← b.exactly
  return canonical (← op.perform (.big x) (.big y))

def Operation.exactResult (op : Operation) (a b : Number) : Except Undefined Number := do
  if op = .power then
    let approx ← op.perform (.float a.toDouble) (.float b.toDouble)
    if approx.isFinite then op.onIntegers a b else return approx
  else op.onIntegers a b

-- The operation on numbers, step by step.
def Operation.applyChecked (op : Operation) (a b : Number) : Except Undefined Number := do
  let exact ← op.isExactOn a b
  if areFloats a b then
    let result ← op.perform a b
    if !exact || result.toExact?.isSome then return result else op.exactResult a b
  else if exact then op.exactResult a b
  else op.perform (.float a.toDouble) (.float b.toDouble)

def compareToDoubleChecked (n : Int) (x : Double) : Except Undefined Ordering :=
  if !x.isFinite then return if x.isNegative then .gt else .lt
  else if x.toInt?.isSome then do
    let m ← exactly (.float x)
    return (← Operation.sub.perform (.big n) (.big m)).sign
  else return (Double.ofInt n).compare x

-- The order of numbers, step by step.
def compareChecked (a b : Number) : Except Undefined Ordering :=
  if a.isNaN then return if b.isNaN then .eq else .gt
  else if b.isNaN then return .lt
  else
    match a, b with
    | .float x, .float y => return x.compare y
    | .float x, .big n => do return (← compareToDoubleChecked n x).swap
    | .big m, .big n => do return (← Operation.sub.perform (.big m) (.big n)).sign
    | .big n, .float y => compareToDoubleChecked n y

variable {op : Operation} {a b : Number} {x y : Int}

theorem exactly_of_toExact? (h : a.toExact? = some x) : a.exactly = .ok x := by
  cases a with
  | float d =>
    rw [exactly, (toInt?_of_toSafeInt? h).1]
  | big z => exact congrArg Except.ok (Option.some.inj h)

theorem isZero_of_toExact? (h : a.toExact? = some 0) : a.isZero = true := by
  cases a with
  | float d =>
    obtain ⟨hfinite, hvalue⟩ := Double.toInt?_eq_some_iff.mp (toInt?_of_toSafeInt? h).1
    exact (Double.isZero_iff hfinite).mpr (by rw [hvalue, Int.cast_zero])
  | big z => exact beq_iff_eq.mpr (Option.some.inj h)

-- What the operands have to be for the operation on integers to be defined.
def Operation.IsDefinedOn (op : Operation) (y : Int) : Prop :=
  (op = .quotient ∨ op = .remainder → y ≠ 0) ∧ (op = .power → 0 ≤ y)

theorem onIntsChecked_eq (h : op.IsDefinedOn y) : op.onIntsChecked x y = .ok (op.onInts x y) := by
  obtain ⟨hdivisor, hexponent⟩ := h
  cases op with
  | quotient => exact if_neg (hdivisor (.inl rfl))
  | remainder => exact if_neg (hdivisor (.inr rfl))
  | power => exact if_neg (not_lt.mpr (hexponent rfl))
  | add | sub | mul => rfl

theorem onIntegers_eq (ha : a.toExact? = some x) (hb : b.toExact? = some y)
    (h : op.IsDefinedOn y) : op.onIntegers a b = .ok (ofInt (op.onInts x y)) := by
  rw [Operation.onIntegers, exactly_of_toExact? ha, exactly_of_toExact? hb]
  change (op.onIntsChecked x y).map Number.big >>= _ = _
  rw [onIntsChecked_eq h]
  rfl

theorem isExactOn_eq (op : Operation) (ha : a.toExact? = some x) (hb : b.toExact? = some y) :
    op.isExactOn a b = .ok !decide (op = .power ∧ y < 0) := by
  rw [Operation.isExactOn, ha, hb]
  by_cases hop : op = .power
  · subst hop
    rw [exactly_of_toExact? hb]
    simp [bind, Except.bind, pure, Except.pure]
  · simp [hop, pure, Except.pure]

theorem isExactOn_of_none (op : Operation) (h : a.toExact? = none ∨ b.toExact? = none) :
    op.isExactOn a b = .ok false := by
  rw [Operation.isExactOn]
  rcases h with ha | hb
  · simp [ha, pure, Except.pure]
  · simp [hb, pure, Except.pure]

theorem perform_eq (op : Operation) (h : areFloats a b = true) :
    op.perform a b = .ok (.float (op.onDoubles a.toDouble b.toDouble)) := by
  cases a with
  | float => cases b with
    | float => rfl
    | big => cases h
  | big => cases h

-- What need not be exact is computed on doubles, whatever form the operands have.
theorem applyChecked_of_inexact (h : op.isExactOn a b = .ok false) :
    op.applyChecked a b = .ok (.float (op.onDoubles a.toDouble b.toDouble)) := by
  rw [Operation.applyChecked, h]
  cases hfloats : areFloats a b with
  | true =>
    rw [perform_eq op hfloats]
    rfl
  | false => exact perform_eq op (a := .float a.toDouble) (b := .float b.toDouble) rfl

theorem exactResult_eq (ha : a.toExact? = some x) (hb : b.toExact? = some y)
    (h : op.IsDefinedOn y) : op.exactResult a b =
      .ok (if op = .power ∧ !(op.onDoubles a.toDouble b.toDouble).isFinite then
        .float (op.onDoubles a.toDouble b.toDouble)
      else ofInt (op.onInts x y)) := by
  rw [Operation.exactResult, onIntegers_eq ha hb h]
  by_cases hop : op = .power
  · subst hop
    rw [if_pos rfl, perform_eq .power (a := .float a.toDouble) (b := .float b.toDouble) rfl]
    simp only [toDouble.eq_1]
    cases hfinite : (Operation.power.onDoubles a.toDouble b.toDouble).isFinite <;>
      simp [bind, Except.bind, pure, Except.pure, isFinite, hfinite]
  · rw [if_neg hop, if_neg fun hand => hop hand.1]

-- No step of an operation is undefined if a divisor is not zero.
theorem applyChecked_eq (h : op = .quotient ∨ op = .remainder → b.isZero = false) :
    op.applyChecked a b = .ok (op.apply a b) := by
  have hinexact : a.toExact? = none ∨ b.toExact? = none →
      op.applyChecked a b = .ok (op.apply a b) := fun hnone => by
    rw [applyChecked_of_inexact (isExactOn_of_none op hnone), Operation.apply]
    split
    · next ha hb => simp [ha, hb] at hnone
    · rfl
  cases ha : a.toExact? with
  | none => exact hinexact (.inl ha)
  | some x =>
    cases hb : b.toExact? with
    | none => exact hinexact (.inr hb)
    | some y =>
      have hexactOn := isExactOn_eq op ha hb
      simp only [Operation.apply, ha, hb]
      by_cases hnegative : op = .power ∧ y < 0
      · rw [decide_eq_true hnegative] at hexactOn
        rw [applyChecked_of_inexact hexactOn, if_pos hnegative]
      · have hdefined : op.IsDefinedOn y := by
          refine ⟨fun hop hy => ?_, fun hop => not_lt.mp fun hy => hnegative ⟨hop, hy⟩⟩
          rw [hy] at hb
          rw [isZero_of_toExact? hb] at h
          cases h hop
        have hresult := exactResult_eq ha hb hdefined
        rw [Operation.applyChecked, hexactOn, if_neg hnegative]
        cases hfloats : areFloats a b with
        | true =>
          cases hsafe : (op.onDoubles a.toDouble b.toDouble).toSafeInt? <;>
            simp [bind, Except.bind, pure, Except.pure, perform_eq op hfloats, hnegative, hsafe,
              hresult, toExact?]
        | false => simp [bind, Except.bind, hnegative, hresult]

theorem sign_sub (m n : Int) :
    (Operation.sub.perform (.big m) (.big n)).map sign = .ok (Ord.compare m n) := by
  have hsub : (Operation.sub.perform (.big m) (.big n)).map sign =
      .ok (Ord.compare (m - n) 0) := rfl
  rw [hsub, ← cmp_eq_compare, cmp_sub_zero, cmp_eq_compare]

-- A double is only made an integer where it is one, so no step of a comparison is undefined.
theorem compareToDoubleChecked_eq (n : Int) (x : Double) :
    compareToDoubleChecked n x = .ok (compareToDouble n x) := by
  rw [compareToDoubleChecked, compareToDouble]
  cases hx : x.toInt? with
  | some m =>
    obtain ⟨hfinite, -⟩ := Double.toInt?_eq_some_iff.mp hx
    have hexactly : exactly (.float x) = .ok m := by rw [exactly, hx]
    rw [hfinite, hexactly]
    exact sign_sub n m
  | none => cases x.isFinite <;> rfl

theorem compareChecked_eq (a b : Number) : compareChecked a b = .ok (a.compare b) := by
  rw [compareChecked.eq_def, compare.eq_def]
  cases a.isNaN with
  | true => rfl
  | false =>
    cases b.isNaN with
    | true => rfl
    | false =>
      cases a with
      | float x =>
        cases b with
        | float y => rfl
        | big n =>
          simp only [compareToDoubleChecked_eq]
          rfl
      | big m =>
        cases b with
        | float y => exact compareToDoubleChecked_eq m y
        | big n => exact sign_sub m n

theorem top_ne_zero : (⊤ : Extended) ≠ 0 := by
  rw [← WithBot.coe_top, ← WithBot.coe_zero, Ne, WithBot.coe_inj]
  exact WithTop.top_ne_zero

theorem coe_eq_zero_iff (q : ℚ) : ((q : WithTop ℚ) : Extended) = 0 ↔ q = 0 := by
  rw [← WithBot.coe_zero, WithBot.coe_inj, ← WithTop.coe_zero, WithTop.coe_inj]

-- Zero has the value zero in all its forms, and what is below zero has a negative value.
theorem isZero_iff_extended (a : Number) : a.isZero = true ↔ a.extended = 0 := by
  cases a with
  | big z => rw [extended, coe_eq_zero_iff, Int.cast_eq_zero, isZero, beq_iff_eq]
  | float x =>
    cases hfinite : x.isFinite with
    | true => rw [extended, Double.extended_of_isFinite hfinite, coe_eq_zero_iff, isZero,
        Double.isZero_iff hfinite]
    | false =>
      cases x with
      | nan => simp [isZero, Double.isZero, extended, Double.extended, top_ne_zero]
      | infinite negative =>
        cases negative <;> simp [isZero, Double.isZero, extended, Double.extended, top_ne_zero]
      | finite => cases hfinite

theorem extended_zero : zero.extended = 0 := by
  rw [zero, extended, Double.extended_of_isFinite rfl, Double.value_zero, coe_eq_zero_iff]

theorem compare_zero_iff (a : Number) : a.compare zero = .lt ↔ a.extended < 0 := by
  cases ha : a.isNaN with
  | false => rw [compare_eq_cmp ha rfl, extended_zero, cmp_eq_lt_iff]
  | true =>
    cases a with
    | big z => cases ha
    | float x =>
      obtain rfl := Double.isNaN_iff.mp ha
      simp [compare.eq_def, isNaN, Double.isNaN, zero, Double.zero, extended, Double.extended]

end Number

namespace Value

def dividesByZeroChecked (op : BinaryOp) (x y : Number) : Except Undefined Bool :=
  match op with
  | .divide => return y.isZero
  | .exact .quotient => return y.isZero
  | .exact .remainder => return y.isZero
  | .exact .power =>
    if x.isZero then do return (← y.compareChecked Number.zero) == .lt else return false
  | _ => return false

def onNumbersChecked (op : BinaryOp) (x y : Number) : Except Undefined (Except Fault Value) := do
  if ← dividesByZeroChecked op x y then return .error .divisionByZero
  match op with
  | .divide => return .ok (.number (.float (x.toDouble / y.toDouble)))
  | .exact op => return .ok (.number (← op.applyChecked x y))

-- An operator on values, step by step. No number is computed unless both values count as numbers.
def binaryChecked (op : BinaryOp) (a b : Value) : Except Undefined (Except Fault Value) :=
  match a.numeric?, b.numeric? with
  | some x, some y => onNumbersChecked op x y
  | _, _ =>
    let sequence := match op with
      | .exact .add => joined? a b
      | .exact .mul => product? a b
      | _ => none
    return match sequence with
      | some v => .ok v
      | none => .error (.operands op a.kind b.kind)

-- A quotient or remainder by zero, and a negative power of zero.
def IsDivisionByZero (op : BinaryOp) (x y : Number) : Prop :=
  (op = .divide ∨ op = .exact .quotient ∨ op = .exact .remainder) ∧ y.extended = 0 ∨
    op = .exact .power ∧ x.extended = 0 ∧ y.extended < 0

variable {op : BinaryOp} {a b : Value} {x y : Number}

theorem dividesByZero_iff : dividesByZero op x y = true ↔ IsDivisionByZero op x y := by
  rw [IsDivisionByZero, ← Number.isZero_iff_extended, ← Number.isZero_iff_extended,
    ← Number.compare_zero_iff]
  cases op with
  | divide => simp [dividesByZero]
  | exact op => cases op <;> simp [dividesByZero]

theorem dividesByZeroChecked_eq (op : BinaryOp) (x y : Number) :
    dividesByZeroChecked op x y = .ok (dividesByZero op x y) := by
  cases op with
  | divide => rfl
  | exact op =>
    cases op with
    | power =>
      rw [dividesByZeroChecked, dividesByZero, Number.compareChecked_eq]
      cases x.isZero <;> rfl
    | _ => rfl

theorem onNumbersChecked_eq (op : BinaryOp) (x y : Number) :
    onNumbersChecked op x y = .ok (onNumbers op x y) := by
  rw [onNumbersChecked.eq_def, onNumbers.eq_def, dividesByZeroChecked_eq]
  cases hzero : dividesByZero op x y with
  | true => rfl
  | false =>
    cases op with
    | divide => rfl
    | exact op =>
      have hdivisor : op = .quotient ∨ op = .remainder → y.isZero = false := by
        rintro (rfl | rfl)
        · exact hzero
        · exact hzero
      change (op.applyChecked x y >>= _) = _
      rw [Number.applyChecked_eq hdivisor]
      rfl

theorem binaryChecked_eq (op : BinaryOp) (a b : Value) :
    binaryChecked op a b = .ok (binary op a b) := by
  rw [binaryChecked.eq_def, binary.eq_def]
  cases a.numeric? with
  | none => rfl
  | some x =>
    cases b.numeric? with
    | none => rfl
    | some y => exact onNumbersChecked_eq op x y

-- An operator is only ever at fault with a division by zero or with the kinds of its operands.
theorem binary_eq_error {fault : Fault} (h : binary op a b = .error fault) :
    (fault = .divisionByZero ∧
      ∃ x y, a.numeric? = some x ∧ b.numeric? = some y ∧ IsDivisionByZero op x y) ∨
      fault = .operands op a.kind b.kind := by
  rw [binary.eq_def] at h
  split at h
  · next x y hx hy =>
    rw [onNumbers.eq_def] at h
    cases hzero : dividesByZero op x y with
    | true =>
      rw [hzero] at h
      cases h
      exact .inl ⟨rfl, x, y, hx, hy, dividesByZero_iff.mp hzero⟩
    | false =>
      rw [hzero] at h
      cases op <;> cases h
  · dsimp only at h
    split at h
    · cases h
    · cases h
      exact .inr rfl

theorem message_operands_ne (op : BinaryOp) (left right : Kind) :
    (Fault.operands op left right).message ≠ Fault.divisionByZero.message := by
  intro h
  have hfirst : some (117 : UInt16) = some 100 := congrArg List.head? h
  simp at hfirst

theorem binary_of_isDivisionByZero (hx : a.numeric? = some x) (hy : b.numeric? = some y)
    (h : IsDivisionByZero op x y) : binary op a b = .error .divisionByZero := by
  rw [binary.eq_def, hx, hy]
  exact if_pos (dividesByZero_iff.mpr h)

-- The operators on values never meet a case of arithmetic that is undefined, whatever the values are:
-- carried out step by step they come to what they are evaluated to. They report a division by zero
-- just for two numbers or booleans of which the second is a divisor and zero, or the first is zero and
-- the second its negative exponent.
theorem evaluate_binary_defined (library : Library) (scope : Scope) (op : BinaryOp) (a b : Value) :
    let result := Expr.evaluate library scope (.binary op (.literal a) (.literal b))
    binaryChecked op a b = .ok result ∧
      ((∃ fault, result = .error fault ∧ fault.message = "division by zero") ↔
        ∃ x y, a.numeric? = some x ∧ b.numeric? = some y ∧ IsDivisionByZero op x y) := by
  intro result
  have hresult : result = binary op a b := by
    simp only [result, Expr.evaluate]
    rfl
  rw [hresult]
  refine ⟨binaryChecked_eq op a b, ?_, ?_⟩
  · rintro ⟨fault, hfault, hmessage⟩
    rcases binary_eq_error hfault with ⟨-, hzero⟩ | rfl
    · exact hzero
    · exact absurd hmessage (message_operands_ne op a.kind b.kind)
  · rintro ⟨x, y, hx, hy, hzero⟩
    exact ⟨.divisionByZero, binary_of_isDivisionByZero hx hy hzero, rfl⟩

end Value

end RecordQuery
