import RecordQuery.Proofs.Expr.Integer
import RecordQuery.Proofs.Function.Reduction
import RecordQuery.Proofs.Number.Order

/-!
Conversion to an integer. The result is the integer part of what is converted, in the canonical form
for a text or a boolean and in the form it came in for a number. A double beyond the safe range
stays a double, so that it is no canonical integer.
-/

namespace RecordQuery

-- A rational number without its fraction.
def integerPart (q : ℚ) : ℤ := if 0 ≤ q then ⌊q⌋ else ⌈q⌉

theorem integerPart_intCast (n : ℤ) : integerPart n = n := by
  rw [integerPart, Int.floor_intCast, Int.ceil_intCast, ite_self]

theorem tdiv_eq_integerPart (n : ℤ) (d : ℕ) : n.tdiv d = integerPart (n / d) := by
  by_cases hn : 0 ≤ n
  · have hq : (0 : ℚ) ≤ n / d := div_nonneg (by exact_mod_cast hn) (by positivity)
    rw [integerPart, if_pos hq, Rat.floor_intCast_div_natCast, Int.tdiv_eq_ediv_of_nonneg hn]
  · have hneg : 0 ≤ -n := by omega
    have hceil : ⌈(n / d : ℚ)⌉ = n.tdiv d := by
      rw [← neg_neg n, Int.cast_neg, neg_div, Int.ceil_neg, Rat.floor_intCast_div_natCast,
        Int.neg_tdiv, Int.tdiv_eq_ediv_of_nonneg hneg]
    rcases Nat.eq_zero_or_pos d with rfl | hd
    · simp [integerPart]
    · have hq : ¬(0 : ℚ) ≤ n / d := by
        rw [not_le]
        exact div_neg_of_neg_of_pos (by exact_mod_cast not_le.mp hn) (by exact_mod_cast hd)
      rw [integerPart, if_neg hq, hceil]

theorem abs_integerPart_le (q : ℚ) : |(integerPart q : ℚ)| ≤ |q| := by
  by_cases hq : 0 ≤ q
  · have hfloor : (0 : ℚ) ≤ ⌊q⌋ := by exact_mod_cast Int.floor_nonneg.mpr hq
    rw [integerPart, if_pos hq, abs_of_nonneg hfloor, abs_of_nonneg hq]
    exact Int.floor_le q
  · have hneg : q ≤ 0 := (not_le.mp hq).le
    have hceil : (⌈q⌉ : ℚ) ≤ 0 := by exact_mod_cast Int.ceil_le.mpr (by simpa using hneg)
    rw [integerPart, if_neg hq, abs_of_nonpos hceil, abs_of_nonpos hneg, neg_le_neg_iff]
    exact Int.le_ceil q

namespace Double

variable {x : Double}

theorem toInt?_trunc (hx : x.isFinite = true) : x.trunc.toInt? = some (integerPart x.value) :=
  toInt?_roundBy integerPart_intCast tdiv_eq_integerPart
    (fun n d => Int.natAbs_tdiv_le_natAbs n d) hx

-- Only a double in the safe range can have a fraction to lose.
theorem trunc_eq_self (hx : x.isFinite = true) (hsafe : ¬IsSafe (integerPart x.value)) :
    x.trunc = x := by
  have htrunc := toInt?_trunc hx
  cases hint : x.toInt? with
  | some z =>
    rw [(toInt?_eq_some_iff.mp hint).2, integerPart_intCast] at htrunc hsafe
    have hz : z ≠ 0 := by
      rintro rfl
      exact hsafe (by decide)
    rw [eq_ofScaled htrunc, isNegative_of_toInt? htrunc hz, ← isNegative_of_toInt? hint hz,
      ← eq_ofScaled hint]
  | none =>
    refine absurd (isSafe_iff.mpr ?_) hsafe
    have hlt := (abs_integerPart_le x.value).trans_lt (abs_value_lt_of_toInt?_eq_none hx hint)
    exact_mod_cast hlt

end Double

namespace Number

variable {n : Number} {z : ℤ}

-- Sums, differences and products with a canonical integer.
theorem apply_isCanonical_of_mem {op : Operation} (hop : op ∈ [.add, .sub, .mul]) {m : Number}
    {w : ℤ} (hn : n.IsCanonical z) (hm : m.IsCanonical w) :
    (op.apply n m).IsCanonical (op.onInts z w) := by
  have hpower : op ≠ .power := by
    rintro rfl
    exact absurd hop (by decide)
  refine apply_isCanonical op hpower hn hm fun d e r hd he hr => ?_
  have hd := (toInt?_of_toSafeInt? hd).1
  have he := (toInt?_of_toSafeInt? he).1
  have hround : ∃ negativeZero, op.onDoubles d e = .ofScaled negativeZero (op.onInts z w) 0 := by
    simp only [List.mem_cons, List.not_mem_nil, or_false] at hop
    rcases hop with rfl | rfl | rfl
    · exact ⟨_, Double.add_of_toInt? hd he⟩
    · exact ⟨_, Double.sub_of_toInt? hd he⟩
    · exact ⟨_, Double.mul_of_toInt? hd he⟩
  obtain ⟨negativeZero, hround⟩ := hround
  rw [hround] at hr
  exact Double.eq_of_toSafeInt?_ofScaled hr

end Number

namespace Function

open Number (Operation)

variable {v : Value} {z : ℤ}

-- The integer part of a value: of a finite number, of a boolean as a number, and of a text that is
-- a run of digits after an optional sign, blanks around it aside.
inductive HasIntegerPart : Value → ℤ → Prop
  | float {x : Double} (hx : x.isFinite = true) :
    HasIntegerPart (.number (.float x)) (integerPart x.value)
  | big (m : ℤ) : HasIntegerPart (.number (.big m)) m
  | bool (b : Bool) : HasIntegerPart (.bool b) b.toNat
  | text {t sign digits : Text} (hsign : sign ∈ [[], [43], [45]]) (hsome : digits ≠ [])
    (hdigits : ∀ u ∈ digits, Text.isDigit u = true) (ht : t.trim = sign ++ digits) :
    HasIntegerPart (.text t)
      (if sign = [45] then -(Text.digitsValue digits : ℤ) else Text.digitsValue digits)

theorem isIntegerText_append {sign digits : Text} (hsign : sign ∈ [[], [43], [45]])
    (hsome : digits ≠ []) (hdigits : ∀ u ∈ digits, Text.isDigit u = true) :
    Number.isIntegerText (sign ++ digits) = true ∧ Number.integerValue (sign ++ digits) =
      if sign = [45] then -(Text.digitsValue digits : ℤ) else Text.digitsValue digits := by
  obtain ⟨u, rest, rfl⟩ := List.exists_cons_of_ne_nil hsome
  have hall : (u :: rest).all Text.isDigit = true := List.all_eq_true.mpr hdigits
  have hu := hdigits u List.mem_cons_self
  have hplus : u ≠ 43 := by
    rintro rfl
    cases hu
  have hminus : u ≠ 45 := by
    rintro rfl
    cases hu
  simp only [List.mem_cons, List.not_mem_nil, or_false] at hsign
  rcases hsign with rfl | rfl | rfl
  · simp [Number.isIntegerText, Number.integerValue, hplus, hminus, hall]
  · simpa [Number.isIntegerText, Number.integerValue] using hall
  · simpa [Number.isIntegerText, Number.integerValue] using hall

theorem int_text {t : Text} (h : Number.isIntegerText t.trim = true) :
    int.call [.text t] = .ok (.number (.ofInt (Number.integerValue t.trim))) := by
  simp only [int, fixed, List.head?_cons, h, if_true]
  rfl

theorem int_text_ofInt (z : ℤ) : int.call [.text (Text.ofInt z)] = .ok (.number (.ofInt z)) := by
  have htrim : (Text.ofInt z).trim = Text.ofInt z :=
    Text.trim_eq_self fun u => Text.isBlank_of_mem_ofInt
  rw [int_text (by rw [htrim, Text.isIntegerText_ofInt]), htrim, Text.integerValue_ofInt]

theorem int_float {x : Double} (hx : x.isFinite = true) :
    int.call [.number (.float x)] = .ok (.number (.float x.trunc)) := by
  change (if x.isFinite then Except.ok (Value.number (.float x.trunc)) else _) = _
  rw [if_pos hx]

-- The number is the integer in canonical form, so that its text is read back as the same integer and
-- integer arithmetic on it is exact, adding one included.
structure KeepsInteger (n : Number) (z : ℤ) : Prop where
  canonical : n.IsCanonical z
  readBack : ∃ t, str.call [.number n] = .ok (.text t) ∧ int.call [.text t] = .ok (.number (.ofInt z))
  arithmetic : ∀ op ∈ [Operation.add, .sub, .mul], ∀ m w, m.IsCanonical w →
    (op.apply n m).IsCanonical (op.onInts z w)
  successor : (Operation.add.apply n (.ofInt 1)).compare n = .gt

theorem keepsInteger_of_isCanonical {n : Number} (h : n.IsCanonical z) : KeepsInteger n z where
  canonical := h
  readBack := by
    refine ⟨n.text, rfl, ?_⟩
    rw [h.text_eq, int_text_ofInt]
  arithmetic op hop m w hm := Number.apply_isCanonical_of_mem hop h hm
  successor := by
    have hnext := Number.add_isCanonical h (Number.isCanonical_ofInt 1)
    rw [hnext.compare_eq h, compare_gt_iff_gt]
    omega

-- A number that has the form of its integer part already: a double in the safe range, an exact
-- integer beyond.
def InForm : Value → ℤ → Prop
  | .number (.float _), z => Double.IsSafe z
  | .number (.big _), z => ¬Double.IsSafe z
  | _, _ => True

theorem int_of_inForm (h : HasIntegerPart v z) (hform : InForm v z) :
    ∃ n, int.call [v] = .ok (.number n) ∧ n.IsCanonical z := by
  cases h with
  | @float x hx =>
    refine ⟨_, int_float hx, Number.isCanonical_float_iff.mpr ?_⟩
    rw [Double.toSafeInt?_eq_some_iff]
    exact ⟨Double.toInt?_trunc hx, hform⟩
  | big => exact ⟨.big z, rfl, rfl, hform⟩
  | bool b =>
    refine ⟨.ofInt b.toNat, ?_, Number.isCanonical_ofInt _⟩
    cases b <;> rfl
  | text hsign hsome hdigits ht =>
    obtain ⟨hinteger, hvalue⟩ := isIntegerText_append hsign hsome hdigits
    rw [← ht] at hinteger hvalue
    refine ⟨_, int_text hinteger, ?_⟩
    rw [hvalue]
    exact Number.isCanonical_ofInt _

-- A number in another form is left in that form.
theorem int_of_not_inForm (h : HasIntegerPart v z) (hform : ¬InForm v z) :
    ∃ n, v = .number n ∧ int.call [v] = .ok v ∧ ¬n.IsCanonical z ∧
      n.extended = (((z : ℚ) : WithTop ℚ) : Extended) := by
  cases h with
  | @float x hx =>
    have htrunc := Double.trunc_eq_self hx hform
    refine ⟨.float x, rfl, by rw [int_float hx, htrunc], fun hcanonical => hform hcanonical.2.2, ?_⟩
    obtain ⟨-, hvalue⟩ := Double.toInt?_eq_some_iff.mp (Double.toInt?_trunc hx)
    rw [Number.extended, Double.extended_of_isFinite hx, ← hvalue, htrunc]
  | big => exact ⟨.big z, rfl, rfl, fun hcanonical => hform hcanonical.2, rfl⟩
  | bool b => exact absurd trivial hform
  | text => exact absurd trivial hform

-- The result has the value of the integer part. It is a canonical integer unless a number is
-- converted that is not in the form of its integer part, and such a number is left as it is.
theorem int_keepsInteger_iff (h : HasIntegerPart v z) :
    ∃ n, int.call [v] = .ok (.number n) ∧ n.extended = (((z : ℚ) : WithTop ℚ) : Extended) ∧
      (KeepsInteger n z ↔ InForm v z) ∧ (¬InForm v z → v = .number n) := by
  by_cases hform : InForm v z
  · obtain ⟨n, hcall, hcanonical⟩ := int_of_inForm h hform
    exact ⟨n, hcall, hcanonical.extended_eq.2,
      iff_of_true (keepsInteger_of_isCanonical hcanonical) hform, fun hnot => absurd hform hnot⟩
  · obtain ⟨n, hv, hcall, hcanonical, hvalue⟩ := int_of_not_inForm h hform
    exact ⟨n, by rw [hcall, hv], hvalue, iff_of_false (fun hn => hcanonical hn.canonical) hform,
      fun _ => hv⟩

theorem hasIntegerPart_of_toInt? {x : Double} (hx : x.toInt? = some z) :
    HasIntegerPart (.number (.float x)) z := by
  obtain ⟨hfinite, hvalue⟩ := Double.toInt?_eq_some_iff.mp hx
  have hpart := HasIntegerPart.float hfinite
  rwa [hvalue, integerPart_intCast] at hpart

theorem toInt?_large :
    (Double.ofInt 100000000000000000000).toInt? = some 100000000000000000000 :=
  Double.toInt?_ofScaled_of_natAbs_eq false (m := 5 ^ 20) (e := 20) (by norm_num) (by norm_num)
    (by norm_num)

-- A text of digits is converted to a canonical integer, a double beyond the safe range is not.
theorem int_keepsInteger_iff_forms :
    (HasIntegerPart (.text [32, 45, 48, 55]) (-7) ∧
      ∃ n, int.call [.text [32, 45, 48, 55]] = .ok (.number n) ∧ KeepsInteger n (-7)) ∧
    (HasIntegerPart (.number (.float (Double.ofInt 100000000000000000000)))
        100000000000000000000 ∧
      ∃ n, int.call [.number (.float (Double.ofInt 100000000000000000000))] = .ok (.number n) ∧
        ¬KeepsInteger n 100000000000000000000) := by
  have htext : HasIntegerPart (.text [32, 45, 48, 55]) (-7) :=
    @HasIntegerPart.text _ [45] [48, 55] (by decide) (by decide) (List.all_eq_true.mp rfl)
      (by decide)
  have hlarge := hasIntegerPart_of_toInt? toInt?_large
  obtain ⟨n, hcall, -, hkeeps, -⟩ := int_keepsInteger_iff htext
  obtain ⟨m, hcall', -, hkeeps', -⟩ := int_keepsInteger_iff hlarge
  refine ⟨⟨htext, n, hcall, hkeeps.mpr trivial⟩, hlarge, m, hcall', fun hm => ?_⟩
  exact absurd (hkeeps'.mp hm) (show ¬Double.IsSafe _ by decide)

-- The double 1e20 is given back as it is, where the canonical form of its integer is exact.
theorem int_not_keepsInteger :
    ¬∀ v z, HasIntegerPart v z → ∃ n, int.call [v] = .ok (.number n) ∧ KeepsInteger n z := by
  intro h
  obtain ⟨n, hcall, hkeeps⟩ := h _ _ (hasIntegerPart_of_toInt? toInt?_large)
  rw [int_float (Double.toInt?_eq_some_iff.mp toInt?_large).1] at hcall
  obtain rfl : _ = n := Value.number.inj (Except.ok.inj hcall)
  exact absurd hkeeps.canonical.2.2 (by decide)

end Function

end RecordQuery
