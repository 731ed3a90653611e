import Mathlib.Tactic
import RecordQuery.Json.Token

/-!
Quoted texts are read back as the texts they came from, up to the closing quote and no further.
-/

namespace RecordQuery

namespace Text

theorem toNat_hexDigit {n : ℕ} (h : n < 16) :
    (hexDigit n).toNat = if n < 10 then 48 + n else 87 + n := by
  unfold hexDigit
  split <;> simp <;> omega

theorem le_of_isSurrogate {u : UInt16} (h : isSurrogate u = true) : 0xD800 ≤ u.toNat := by
  simp only [isSurrogate, Bool.and_eq_true, decide_eq_true_eq, UInt16.le_iff_toNat_le] at h
  exact h.1

theorem isSurrogate_of_isHigh {u : UInt16} (h : isHigh u = true) : isSurrogate u = true := by
  simp only [isHigh, isSurrogate, Bool.and_eq_true, decide_eq_true_eq, UInt16.le_iff_toNat_le] at h ⊢
  exact ⟨h.1, h.2.trans (by decide)⟩

theorem isSurrogate_of_isLow {u : UInt16} (h : isLow u = true) : isSurrogate u = true := by
  simp only [isLow, isSurrogate, Bool.and_eq_true, decide_eq_true_eq, UInt16.le_iff_toNat_le] at h ⊢
  exact ⟨Nat.le_trans (by decide) h.1, h.2⟩

end Text

namespace Json

open Text (escaped escapedUnit escapedByNumber hexDigit isSurrogate)

theorem hexValue?_hexDigit {n : ℕ} (h : n < 16) : hexValue? (hexDigit n) = some n := by
  have hdigit := Text.toNat_hexDigit h
  simp only [hexValue?, Double.radixDigit?, hdigit]
  split_ifs <;> first | omega | (congr 1; omega)

-- Four digits in base 16 hold a unit.
theorem unitOfHex?_digits (u : UInt16) :
    unitOfHex? (hexDigit (u.toNat / 4096)) (hexDigit (u.toNat / 256 % 16))
      (hexDigit (u.toNat / 16 % 16)) (hexDigit (u.toNat % 16)) = some u := by
  have hu := u.toNat_lt
  rw [unitOfHex?, hexValue?_hexDigit (by omega), hexValue?_hexDigit (by omega),
    hexValue?_hexDigit (by omega), hexValue?_hexDigit (by omega)]
  have hsum : ((u.toNat / 4096 * 16 + u.toNat / 256 % 16) * 16 + u.toNat / 16 % 16) * 16 +
      u.toNat % 16 = u.toNat := by omega
  simp only [Option.bind_eq_bind, Option.bind_some, Option.pure_def, hsum]
  rw [Nat.toUInt16, UInt16.ofNat_toNat]

theorem readString?_escapedByNumber (u : UInt16) (t : Text) :
    readString? (escapedByNumber u ++ t) = (readString? t).map fun p => (u :: p.1, p.2) := by
  simp only [escapedByNumber, List.cons_append, List.nil_append, readString?, unitOfHex?_digits]
  cases readString? t <;> rfl

theorem readString?_simple {u letter : UInt16} (t : Text) (h : simpleEscape? letter = some u)
    (hletter : letter ≠ 117) :
    readString? (92 :: letter :: t) = (readString? t).map fun p => (u :: p.1, p.2) := by
  rw [readString?.eq_4 letter t fun _ _ _ _ _ heq => absurd heq hletter, h]
  cases readString? t <;> rfl

theorem readString?_plain {u : UInt16} (t : Text) (hquote : u ≠ 34) (hslash : u ≠ 92)
    (hcontrol : ¬u < 32) : readString? (u :: t) = (readString? t).map fun p => (u :: p.1, p.2) := by
  rw [readString?.eq_5 u t hquote (fun _ _ _ _ _ heq => absurd heq hslash)
    fun _ _ heq => absurd heq hslash]
  simp only [hcontrol, beq_eq_false_iff_ne.mpr hslash, decide_false, Bool.or_false,
    Bool.false_eq_true, if_false]
  cases readString? t <;> rfl

theorem readString?_surrogate {u : UInt16} (t : Text) (h : isSurrogate u = true) :
    readString? (u :: t) = (readString? t).map fun p => (u :: p.1, p.2) := by
  have hle := Text.le_of_isSurrogate h
  apply readString?_plain
  · rintro rfl
    exact absurd hle (by decide)
  · rintro rfl
    exact absurd hle (by decide)
  · rw [UInt16.lt_iff_toNat_lt, not_lt]
    exact le_trans (by decide) hle

theorem readString?_escapedUnit (u : UInt16) (t : Text) :
    readString? (escapedUnit u ++ t) = (readString? t).map fun p => (u :: p.1, p.2) := by
  unfold escapedUnit
  split_ifs with hquote hslash h8 h12 h10 h13 h9 hcontrol
  iterate 7
    · exact readString?_simple t (by simp_all [simpleEscape?]) (by decide)
  · exact readString?_escapedByNumber u t
  · exact readString?_plain t (by simpa using hquote) (by simpa using hslash) hcontrol

-- What is written for a unit that is no half of a pair followed by the other is read as that unit.
theorem readString?_unit (u : UInt16) (t : Text) :
    readString? ((if isSurrogate u then escapedByNumber u else escapedUnit u) ++ t) =
      (readString? t).map fun p => (u :: p.1, p.2) := by
  split
  · exact readString?_escapedByNumber u t
  · exact readString?_escapedUnit u t

theorem readString?_escaped (t rest : Text) :
    readString? (escaped t ++ 34 :: rest) = some (t, rest) := by
  have hend : readString? (34 :: rest) = some ([], rest) := by rw [readString?]
  fun_induction escaped t with
  | case1 => exact hend
  | case2 u h =>
    rw [readString?_escapedByNumber, hend]
    rfl
  | case3 u h =>
    rw [readString?_escapedUnit, hend]
    rfl
  | case4 u v t h ih =>
    rw [Bool.and_eq_true] at h
    rw [List.cons_append, List.cons_append,
      readString?_surrogate _ (Text.isSurrogate_of_isHigh h.1),
      readString?_surrogate _ (Text.isSurrogate_of_isLow h.2), ih]
    rfl
  | case5 u v t h ih =>
    rw [List.append_assoc, readString?_unit, ih]
    rfl

end Json

-- A quoted text tells where it ends.
theorem Text.quoted_append_inj {s t r r' : Text} (h : s.quoted ++ r = t.quoted ++ r') :
    s = t ∧ r = r' := by
  simp only [quoted, List.cons_append, List.append_assoc, List.nil_append, List.cons.injEq,
    true_and] at h
  have hread := Json.readString?_escaped s r
  rw [h, Json.readString?_escaped] at hread
  simp only [Option.some.injEq, Prod.mk.injEq] at hread
  exact ⟨hread.1.symm, hread.2.symm⟩

theorem Text.quoted_injective : Function.Injective quoted := by
  intro s t h
  have happend : s.quoted ++ [] = t.quoted ++ [] := by rw [h]
  exact (quoted_append_inj happend).1

end RecordQuery
