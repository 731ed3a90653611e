import Mathlib.Tactic
import RecordQuery.Number.Basic

/-!
Decimal digits. What is written for a number spells that number, so different integers have different
texts.
-/

namespace RecordQuery.Text

theorem isDigit_iff {u : UInt16} : isDigit u = true ↔ 48 ≤ u.toNat ∧ u.toNat ≤ 57 := by
  simp [isDigit, UInt16.le_iff_toNat_le]

@[simp] theorem toNat_digit (n : ℕ) : (digit n).toNat = 48 + n % 10 := by
  have h : (48 + n % 10) % 2 ^ 16 = 48 + n % 10 := by omega
  simpa [digit] using h

@[simp] theorem isDigit_digit (n : ℕ) : isDigit (digit n) = true := by
  rw [isDigit_iff, toNat_digit]
  omega

@[simp] theorem digitValue_digit (n : ℕ) : digitValue (digit n) = n % 10 := by
  rw [digitValue, toNat_digit]
  omega

theorem decimalBefore_eq_append (n : ℕ) (rest : Text) :
    decimalBefore n rest = ofNat n ++ rest := by
  induction n using Nat.strong_induction_on generalizing rest with
  | _ n ih =>
    rw [ofNat, decimalBefore.eq_def, decimalBefore.eq_def n []]
    split
    · rfl
    · next h =>
      rw [ih (n / 10) (by omega), ih (n / 10) (by omega)]
      simp

theorem ofNat_of_lt {n : ℕ} (h : n < 10) : ofNat n = [digit n] := by
  rw [ofNat, decimalBefore, if_pos h]

theorem ofNat_of_le {n : ℕ} (h : 10 ≤ n) : ofNat n = ofNat (n / 10) ++ [digit n] := by
  rw [ofNat, decimalBefore, if_neg (by omega), decimalBefore_eq_append]

theorem ofNat_ne_nil (n : ℕ) : ofNat n ≠ [] := by
  rcases lt_or_ge n 10 with h | h
  · simp [ofNat_of_lt h]
  · simp [ofNat_of_le h]

theorem isDigit_of_mem_ofNat {n : ℕ} {u : UInt16} (hu : u ∈ ofNat n) : isDigit u = true := by
  induction n using Nat.strong_induction_on with
  | _ n ih =>
    rcases lt_or_ge n 10 with h | h
    · rw [ofNat_of_lt h, List.mem_singleton] at hu
      rw [hu, isDigit_digit]
    · rw [ofNat_of_le h, List.mem_append, List.mem_singleton] at hu
      rcases hu with hu | rfl
      · exact ih (n / 10) (by omega) hu
      · exact isDigit_digit n

theorem foldl_digits (n : ℕ) (t : Text) :
    t.foldl (fun n u => 10 * n + digitValue u) n = n * 10 ^ t.length + digitsValue t := by
  induction t generalizing n with
  | nil => simp [digitsValue]
  | cons u t ih =>
    have hcons : digitsValue (u :: t) = digitValue u * 10 ^ t.length + digitsValue t := by
      rw [← ih]
      simp [digitsValue]
    rw [List.foldl_cons, ih, hcons, List.length_cons, pow_succ]
    ring

theorem digitsValue_append (s t : Text) :
    digitsValue (s ++ t) = digitsValue s * 10 ^ t.length + digitsValue t := by
  rw [digitsValue, List.foldl_append]
  exact foldl_digits _ _

@[simp] theorem digitsValue_singleton (u : UInt16) : digitsValue [u] = digitValue u := by
  simp [digitsValue]

theorem digitsValue_replicate_zero (k : ℕ) : digitsValue (List.replicate k 48) = 0 := by
  induction k with
  | zero => rfl
  | succ k ih => rw [List.replicate_succ', digitsValue_append, ih]; rfl

@[simp] theorem digitsValue_ofNat (n : ℕ) : digitsValue (ofNat n) = n := by
  induction n using Nat.strong_induction_on with
  | _ n ih =>
    rcases lt_or_ge n 10 with h | h
    · rw [ofNat_of_lt h, digitsValue_singleton, digitValue_digit, Nat.mod_eq_of_lt h]
    · rw [ofNat_of_le h, digitsValue_append, ih (n / 10) (by omega), digitsValue_singleton,
        digitValue_digit]
      simp only [List.length_singleton, pow_one]
      omega

-- The first character of a decimal tells it from signs, quotes and letters.
theorem exists_ofNat_eq_cons (n : ℕ) : ∃ u t, ofNat n = u :: t ∧ isDigit u = true := by
  cases h : ofNat n with
  | nil => exact absurd h (ofNat_ne_nil n)
  | cons u t => exact ⟨u, t, rfl, isDigit_of_mem_ofNat (by rw [h]; exact List.mem_cons_self)⟩

-- No digit before the others is a zero.
theorem head?_ofNat_ne {n : ℕ} (h : 0 < n) : (ofNat n).head? ≠ some 48 := by
  induction n using Nat.strong_induction_on with
  | _ n ih =>
    by_cases hlt : n < 10
    · rw [ofNat_of_lt hlt, List.head?_cons, ne_eq, Option.some_inj, ← UInt16.toNat_inj, toNat_digit]
      simp only [UInt16.reduceToNat]
      omega
    · rw [ofNat_of_le (by omega), List.head?_append_of_ne_nil _ (ofNat_ne_nil _)]
      exact ih (n / 10) (by omega) (by omega)

-- Zeros behind the digits of a positive integer multiply it by a power of ten.
theorem ofNat_mul_ten_pow {n : ℕ} (h : 0 < n) (k : ℕ) :
    ofNat (n * 10 ^ k) = ofNat n ++ List.replicate k 48 := by
  induction k with
  | zero => simp
  | succ k ih =>
    have hpos : 0 < n * 10 ^ k := by positivity
    have hlast : n * 10 ^ (k + 1) % 10 = 0 := by rw [pow_succ, ← mul_assoc, Nat.mul_mod_left]
    have hfront : n * 10 ^ (k + 1) / 10 = n * 10 ^ k := by
      rw [pow_succ, ← mul_assoc, Nat.mul_div_cancel _ (by norm_num)]
    have hdigit : digit (n * 10 ^ (k + 1)) = 48 := by rw [digit, hlast]; rfl
    rw [ofNat_of_le (by omega), hfront, hdigit, ih, List.append_assoc, ← List.replicate_succ']

theorem isDigit_or_eq_of_mem_ofInt {n : ℤ} {u : UInt16} (hu : u ∈ ofInt n) :
    isDigit u = true ∨ u = 45 := by
  unfold ofInt at hu
  split at hu
  · rcases List.mem_cons.mp hu with rfl | hu
    · exact .inr rfl
    · exact .inl (isDigit_of_mem_ofNat hu)
  · exact .inl (isDigit_of_mem_ofNat hu)

theorem isIntegerText_ofInt (n : ℤ) : Number.isIntegerText (ofInt n) = true := by
  obtain ⟨u, t, ht, hu⟩ := exists_ofNat_eq_cons n.natAbs
  have hall : (u :: t).all isDigit = true :=
    List.all_eq_true.mpr fun v hv => isDigit_of_mem_ofNat (ht ▸ hv)
  have hplus : (u == 43) = false := by rw [beq_eq_false_iff_ne]; rintro rfl; cases hu
  have hminus : (u == 45) = false := by rw [beq_eq_false_iff_ne]; rintro rfl; cases hu
  unfold ofInt
  rw [ht]
  split
  · simpa [Number.isIntegerText] using hall
  · simpa [Number.isIntegerText, hplus, hminus] using hall

-- A unit that is neither a digit nor a sign makes a text the text of no integer.
theorem isIntegerText_eq_false {t : Text} {u : UInt16} (hu : u ∈ t) (hdigit : isDigit u = false)
    (hplus : u ≠ 43) (hminus : u ≠ 45) : Number.isIntegerText t = false := by
  have hsome : ∀ s : Text, u ∈ s → s.all isDigit = false := fun s hs =>
    List.all_eq_false.mpr ⟨u, hs, by simp [hdigit]⟩
  cases t with
  | nil => cases hu
  | cons v t =>
    simp only [Number.isIntegerText, List.head?_cons, List.drop_one, List.tail_cons]
    split
    · next hsign =>
      have hne : u ≠ v := by
        rintro rfl
        simp [hplus, hminus] at hsign
      rw [hsome t ((List.mem_cons.mp hu).resolve_left hne), Bool.and_false]
    · rw [hsome _ hu, Bool.and_false]

theorem integerValue_ofInt (n : ℤ) : Number.integerValue (ofInt n) = n := by
  unfold ofInt
  split
  · next h =>
    simp only [Number.integerValue, digitsValue_ofNat]
    omega
  · next h =>
    obtain ⟨u, t, ht, hu⟩ := exists_ofNat_eq_cons n.natAbs
    have hvalue := digitsValue_ofNat n.natAbs
    rw [ht] at hvalue ⊢
    rw [isDigit_iff] at hu
    have h45 : u ≠ 45 := by rintro rfl; exact absurd hu (by decide)
    have h43 : u ≠ 43 := by rintro rfl; exact absurd hu (by decide)
    simp only [Number.integerValue]
    split
    · next heq => exact absurd (List.cons.inj heq).1 h45
    · next heq => exact absurd (List.cons.inj heq).1 h43
    · rw [hvalue]
      omega

theorem integerValue_ofNat (n : ℕ) : Number.integerValue (ofNat n) = n := by
  have h := integerValue_ofInt n
  rwa [ofInt, if_neg (by omega), Int.natAbs_natCast] at h

theorem ofInt_injective : Function.Injective ofInt :=
  Function.LeftInverse.injective integerValue_ofInt

end RecordQuery.Text
