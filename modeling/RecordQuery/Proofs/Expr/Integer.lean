import RecordQuery.Expr.Calls
import RecordQuery.Expr.Literal
import RecordQuery.Function.Standard
import RecordQuery.Proofs.Attempt
import RecordQuery.Proofs.Double.Fraction
import RecordQuery.Proofs.Expr.Source
import RecordQuery.Proofs.Json.RoundTrip
import RecordQuery.Proofs.Text.Lines
import RecordQuery.Value.Display

/-!
The digits of integers. Documents, fields of rows, queries and the function `int` read them as one and
the same number, and everything that writes a number gives them back, however many there are.
-/

namespace RecordQuery

namespace Text

theorem isBlank_of_mem_ofInt {z : ℤ} {u : UInt16} (hu : u ∈ ofInt z) : isBlank u = false := by
  rcases isDigit_or_eq_of_mem_ofInt hu with hu | rfl
  · rw [isDigit_iff] at hu
    simp only [isBlank, Bool.or_eq_false_iff, Bool.and_eq_false_iff, decide_eq_false_iff_not,
      beq_eq_false_iff_ne, ne_eq, UInt16.le_iff_toNat_le, ← UInt16.toNat_inj, UInt16.reduceToNat]
    omega
  · rfl

end Text

namespace Number

theorem isNegative_ofInt (z : ℤ) : (ofInt z).isNegative = decide (z < 0) := by
  by_cases hzero : z = 0
  · rw [hzero]
    rfl
  · have h := isCanonical_ofInt z
    cases hn : ofInt z with
    | big m =>
      rw [hn] at h
      rw [isNegative, h.1]
    | float x =>
      rw [hn] at h
      obtain ⟨hfinite, hvalue, -⟩ := h
      have hne : x.value ≠ 0 := by
        rw [hvalue]
        exact_mod_cast hzero
      rw [isNegative, Double.isNegative_eq_decide hfinite hne, hvalue]
      simp

theorem source_ofInt (z : ℤ) : (ofInt z).source = Text.ofInt z := by
  rw [source, isNegative_ofInt, (isCanonical_ofInt z).toExact?_eq, Option.getD_some, Text.ofInt]
  by_cases hz : z < 0 <;> simp [hz, Text.concat] <;> rfl

end Number

namespace Expr

theorem parse_ofInt (z : ℤ) : parse (Text.ofInt z) = .ok (.literal (.number (.ofInt z))) := by
  obtain ⟨ts, hts, hscan⟩ := (isWritten_number (Number.isCanonical_ofInt z) [] Text.ends_nil).scan_eq
  rw [source, constantSource, Number.source_ofInt] at hscan
  have hblank : (Text.ofInt z).all Text.isBlank = false := by
    rw [List.all_eq_false]
    obtain ⟨u, hu⟩ : ∃ u, u ∈ Text.ofInt z := by
      refine List.exists_mem_of_ne_nil _ fun hnil => ?_
      have hinteger := Text.isIntegerText_ofInt z
      rw [hnil] at hinteger
      cases hinteger
    exact ⟨u, hu, by simp [Text.isBlank_of_mem_ofInt hu]⟩
  rw [parse, hblank, hscan]
  exact ofTokens_complete _ (.single hts)

theorem compile_ofInt (library : Library) (z : ℤ) : Query.compile library (Text.ofInt z) =
    .ok ⟨library, Text.ofInt z, .literal (.number (.ofInt z))⟩ := by
  refine bind_eq_ok_iff.mpr ⟨_, parse_ofInt z, bind_eq_ok_iff.mpr ⟨(), ?_, rfl⟩⟩
  rw [checkCalls]
  rfl

end Expr

namespace Number

-- The text is the value as a document, as a field of a row, as a query whatever it is run on, and as
-- a text that the function `int` is given.
structure ReadAs (t : Text) (v : Value) : Prop where
  document : Json.read? t = some v
  field : Value.ofSpelling t = .ok v
  query : ∀ library, ∃ query, Query.compile library t = .ok query ∧
    ∀ scope, query.evaluate scope = .ok v
  conversion : ∀ scope,
    (Expr.call "int" [.literal (.text t)]).evaluate Library.standard scope = .ok v

-- The number is the text in documents, in plain text, as a result of a run, as what the function
-- `str` gives, and as a key.
structure WrittenAs (n : Number) (t : Text) : Prop where
  document : ∀ indent, Json.write indent (.number n) = t
  display : (Value.number n).display = t
  line : ∀ compact, (Value.number n).line compact = t
  conversion : ∀ scope,
    (Expr.call "str" [.literal (.number n)]).evaluate Library.standard scope = .ok (.text t)
  key : n.key = t

theorem writtenAs_ofInt (z : ℤ) : WrittenAs (ofInt z) (Text.ofInt z) where
  document indent := by
    rw [Json.write, Json.writeBefore, Json.number_eq_text (isFinite_ofInt z), text_ofInt,
      List.append_nil]
  display := text_ofInt z
  line _ := text_ofInt z
  conversion scope := by
    have hstr : Library.standard.get? "str" = some Function.str := rfl
    have hdisplay : (Value.number (ofInt z)).display = Text.ofInt z := text_ofInt z
    simp only [Expr.evaluate, Expr.evaluateAll, hstr]
    exact congrArg (fun t => Except.ok (Value.text t)) hdisplay
  key := key_ofInt z

theorem readAs_ofInt (z : ℤ) : ReadAs (Text.ofInt z) (.number (ofInt z)) where
  document := by
    have hread : Json.read? (Json.write 0 (.number (ofInt z))) = some (Json.held (.number (ofInt z))) :=
      Json.read?_write (.number _)
    rwa [(writtenAs_ofInt z).document, Json.held, Value.withLists, Json.heldNumber,
      if_pos (isFinite_ofInt z), spelled_of_text_eq (text_ofInt z)] at hread
  field := by
    rw [Value.ofSpelling, Value.ofLiteral?, Expr.parse_ofInt]
    dsimp only
    rw [Expr.literal?, Expr.isLiteral, if_pos rfl, Expr.evaluate]
    rfl
  query library := by
    refine ⟨_, Expr.compile_ofInt library z, fun scope => ?_⟩
    rw [Query.evaluate, Expr.evaluate]
    rfl
  conversion scope := by
    have hint : Library.standard.get? "int" = some Function.int := rfl
    have htrim : (Text.ofInt z).trim = Text.ofInt z :=
      Text.trim_eq_self fun u => Text.isBlank_of_mem_ofInt
    have hcall : Function.int.call [.text (Text.ofInt z)] = .ok (.number (ofInt z)) := by
      simp only [Function.int, Function.fixed, List.head?_cons, htrim, Text.isIntegerText_ofInt,
        if_true, ofIntegerText, Text.integerValue_ofInt]
      rfl
    simp only [Expr.evaluate, Expr.evaluateAll, hint]
    exact hcall

-- No digit of an integer is lost, whatever reads it and whatever writes it. Within the safe range it
-- is a double, beyond it is exact.
theorem ofInt_readAs_writtenAs (z : ℤ) :
    ReadAs (Text.ofInt z) (.number (ofInt z)) ∧ WrittenAs (ofInt z) (Text.ofInt z) ∧
      if |z| ≤ 2 ^ 53 - 1 then ∃ x : Double, ofInt z = .float x ∧ x.toInt? = some z
      else ofInt z = .big z := by
  refine ⟨readAs_ofInt z, writtenAs_ofInt z, ?_⟩
  have hsafe : Double.IsSafe z ↔ |z| ≤ 2 ^ 53 - 1 := by rw [Double.isSafe_iff]; omega
  have h := isCanonical_ofInt z
  split
  · next hz =>
    obtain ⟨x, hx⟩ := h.isSafe_iff.mp (hsafe.mpr hz)
    rw [hx, isCanonical_float_iff] at h
    exact ⟨x, hx, (Double.toSafeInt?_eq_some_iff.mp h).1⟩
  · next hz => exact if_neg fun hrange => hz (hsafe.mp hrange)

end Number

end RecordQuery
