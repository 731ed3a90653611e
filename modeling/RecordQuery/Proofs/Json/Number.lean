import RecordQuery.Json.Token
import RecordQuery.Proofs.Double.Text
import RecordQuery.Proofs.Number.Arithmetic

/-!
Numbers in documents. The text of a finite number is spelled as JSON spells numbers, so it is read up
to its end and no further. What is read is the number itself, except where the text of a double is
that of an integer: then it is this integer, which prints as the same text.
-/

namespace RecordQuery

open Text (isDigit)

namespace Json

variable {t rest : Text}

-- The digits in front of a point: a zero alone, or digits that begin with another one.
inductive IsWhole : Text → Prop
  | zero : IsWhole [48]
  | digits {u : UInt16} {more : Text} (h : ∀ v ∈ u :: more, isDigit v = true) (hu : u ≠ 48) :
    IsWhole (u :: more)

inductive IsFraction : Text → Prop
  | none : IsFraction []
  | digits {digits : Text} (h : ∀ u ∈ digits, isDigit u = true) (hne : digits ≠ []) :
    IsFraction (46 :: digits)

inductive IsExponent : Text → Prop
  | none : IsExponent []
  | signed {sign : UInt16} {digits : Text} (hsign : sign = 43 ∨ sign = 45)
    (h : ∀ u ∈ digits, isDigit u = true) (hne : digits ≠ []) : IsExponent (101 :: sign :: digits)

inductive IsMagnitude : Text → Prop
  | mk {whole fraction exponent : Text} (hw : IsWhole whole) (hf : IsFraction fraction)
    (he : IsExponent exponent) : IsMagnitude (whole ++ (fraction ++ exponent))

-- The spellings that printing makes. Documents may hold others.
inductive IsSpelling : Text → Prop
  | plain {t : Text} (h : IsMagnitude t) : IsSpelling t
  | minus {t : Text} (h : IsMagnitude t) : IsSpelling (45 :: t)

-- What a number may stand in front of: nothing that could go on with it.
def EndsNumber (rest : Text) : Prop :=
  ∀ u ∈ rest.head?, isDigit u = false ∧ u ≠ 46 ∧ u ≠ 101 ∧ u ≠ 69

theorem readDigits?_run {digits : Text} (h : ∀ u ∈ digits, isDigit u = true) (hne : digits ≠ [])
    (hrest : ∀ u ∈ rest.head?, isDigit u = false) :
    readDigits? (digits ++ rest) = some (digits, rest) := by
  obtain ⟨htake, hdrop⟩ := Text.span_append digits rest h hrest
  simp [readDigits?, htake, hdrop, hne]

theorem readWhole?_append (h : IsWhole t) (hrest : ∀ u ∈ rest.head?, isDigit u = false) :
    readWhole? (t ++ rest) = some (t, rest) := by
  cases h with
  | zero => rfl
  | digits h hu =>
    rw [List.cons_append, readWhole?.eq_2 _ fun _ heq => absurd (List.cons.inj heq).1 hu,
      ← List.cons_append]
    exact readDigits?_run h (by simp) hrest

theorem readFraction?_append (h : IsFraction t)
    (hrest : ∀ u ∈ rest.head?, isDigit u = false ∧ u ≠ 46) :
    readFraction? (t ++ rest) = some (t, rest) := by
  cases h with
  | none =>
    refine readFraction?.eq_2 rest fun tail heq => ?_
    exact (hrest 46 (by rw [heq]; rfl)).2 rfl
  | digits h hne =>
    rw [List.cons_append, readFraction?, readDigits?_run h hne fun u hu => (hrest u hu).1]
    rfl

theorem readExponent?_append (h : IsExponent t)
    (hrest : ∀ u ∈ rest.head?, isDigit u = false ∧ u ≠ 101 ∧ u ≠ 69) :
    readExponent? (t ++ rest) = some (t, rest) := by
  cases h with
  | none =>
    cases rest with
    | nil => rfl
    | cons u rest =>
      obtain ⟨-, he, hE⟩ := hrest u rfl
      simp [readExponent?, he, hE]
  | signed hsign h hne =>
    have hread := readDigits?_run h hne fun u hu => (hrest u hu).1
    rcases hsign with rfl | rfl <;> simp [readExponent?, hread]

-- What comes first of the parts that follow decides where the one before them ends.
theorem head?_exponent_append {u : UInt16} (h : IsExponent t) (hrest : EndsNumber rest)
    (hu : u ∈ (t ++ rest).head?) : isDigit u = false ∧ u ≠ 46 := by
  cases h with
  | none => exact ⟨(hrest u hu).1, (hrest u hu).2.1⟩
  | signed =>
    cases hu
    decide

theorem head?_fraction_append {u : UInt16} (h : IsFraction t)
    (hrest : ∀ u ∈ rest.head?, isDigit u = false ∧ u ≠ 46) (hu : u ∈ (t ++ rest).head?) :
    isDigit u = false := by
  cases h with
  | none => exact (hrest u hu).1
  | digits =>
    cases hu
    rfl

theorem readMagnitude?_append (h : IsMagnitude t) (hrest : EndsNumber rest) :
    readMagnitude? (t ++ rest) = some (t, rest) := by
  cases h with
  | @mk whole fraction exponent hw hf he =>
    have hexponent : ∀ u ∈ (exponent ++ rest).head?, isDigit u = false ∧ u ≠ 46 :=
      fun u hu => head?_exponent_append he hrest hu
    have hfraction : ∀ u ∈ (fraction ++ (exponent ++ rest)).head?, isDigit u = false :=
      fun u hu => head?_fraction_append hf hexponent hu
    have hread := readExponent?_append he fun u hu => ⟨(hrest u hu).1, (hrest u hu).2.2⟩
    rw [List.append_assoc, List.append_assoc, readMagnitude?, readWhole?_append hw hfraction]
    simp [readFraction?_append hf hexponent, hread]

theorem IsMagnitude.exists_eq_cons (h : IsMagnitude t) :
    ∃ u more, t = u :: more ∧ isDigit u = true := by
  obtain ⟨hw, hf, he⟩ := h
  cases hw with
  | zero => exact ⟨48, _, rfl, rfl⟩
  | digits h hu => exact ⟨_, _, rfl, h _ List.mem_cons_self⟩

theorem readSpelling?_append (h : IsSpelling t) (hrest : EndsNumber rest) :
    readSpelling? (t ++ rest) = some (t, rest) := by
  cases h with
  | plain h =>
    obtain ⟨u, more, rfl, hu⟩ := h.exists_eq_cons
    have hminus : u ≠ 45 := by rintro rfl; cases hu
    rw [List.cons_append, readSpelling?.eq_2 _ fun _ heq => absurd (List.cons.inj heq).1 hminus,
      ← List.cons_append]
    exact readMagnitude?_append h hrest
  | minus h =>
    rw [List.cons_append, readSpelling?, readMagnitude?_append h hrest]
    rfl

-- A spelling begins as no other token does.
theorem readToken?_spelling {n : Number} (h : IsSpelling t) (hrest : EndsNumber rest)
    (hn : numberOf? t = some n) : readToken? (t ++ rest) = some (.number n, rest) := by
  have hread := readSpelling?_append h hrest
  obtain ⟨u, more, rfl, hu⟩ : ∃ u more, t = u :: more ∧ (u = 45 ∨ isDigit u = true) := by
    cases h with
    | plain h =>
      obtain ⟨u, more, hmore, hu⟩ := h.exists_eq_cons
      exact ⟨u, more, hmore, .inr hu⟩
    | minus h => exact ⟨45, _, rfl, .inl rfl⟩
  have hfirst : punctuation? u = none ∧ u ≠ 34 := by
    rw [Text.isDigit_iff] at hu
    refine ⟨?_, ?_⟩
    · simp only [punctuation?, beq_iff_eq, ← UInt16.toNat_inj]
      rcases hu with rfl | hu
      · rfl
      · simp only [UInt16.reduceToNat]
        split_ifs <;> first | omega | rfl
    · rintro rfl
      revert hu
      decide
  have hopens : (u == 45 || isDigit u) = true := by simpa using hu
  rw [List.cons_append] at hread ⊢
  simp [readToken?, hfirst.1, hfirst.2, hopens, hread, hn]

theorem isWhole_ofNat (n : ℕ) : IsWhole (Text.ofNat n) := by
  by_cases hn : n = 0
  · rw [hn, Text.ofNat_of_lt (by norm_num)]
    exact .zero
  · obtain ⟨u, more, hmore, -⟩ := Text.exists_ofNat_eq_cons n
    have hhead := Text.head?_ofNat_ne (Nat.pos_of_ne_zero hn)
    have hdigits : ∀ v ∈ Text.ofNat n, isDigit v = true := fun v => Text.isDigit_of_mem_ofNat
    rw [hmore] at hhead hdigits ⊢
    refine .digits hdigits fun hu => hhead ?_
    rw [hu, List.head?_cons]

theorem isSpelling_ofInt (z : ℤ) : IsSpelling (Text.ofInt z) := by
  have hmagnitude : IsMagnitude (Text.ofNat z.natAbs) :=
    List.append_nil (Text.ofNat z.natAbs) ▸ .mk (isWhole_ofNat _) .none .none
  unfold Text.ofInt
  split
  · exact .minus hmagnitude
  · exact .plain hmagnitude

theorem numberOf?_ofInt (z : ℤ) : numberOf? (Text.ofInt z) = some (.ofInt z) := by
  rw [numberOf?, if_pos (Text.isIntegerText_ofInt z), Number.ofIntegerText, Text.integerValue_ofInt]

end Json

namespace Double

open Json (IsMagnitude IsSpelling IsWhole IsFraction IsExponent)

variable {u : UInt16} {more : Text}

-- The layouts that have a point or an exponent, with the point among the digits, zeros in front of
-- them, or an exponent behind them.
theorem isMagnitude_point (hd : ∀ v ∈ u :: more, isDigit v = true) (hu : u ≠ 48) {k : ℕ}
    (hk : k < more.length) : IsMagnitude (u :: more.take k ++ 46 :: more.drop k) := by
  have hwhole : IsWhole (u :: more.take k) := by
    refine .digits (fun v hv => hd v ?_) hu
    exact List.mem_cons.mpr ((List.mem_cons.mp hv).imp_right List.mem_of_mem_take)
  have hfraction : IsFraction (46 :: more.drop k) := by
    refine .digits (fun v hv => hd v (List.mem_cons_of_mem u (List.mem_of_mem_drop hv))) ?_
    rw [ne_eq, List.drop_eq_nil_iff]
    omega
  rw [← List.append_nil (46 :: more.drop k)]
  exact .mk hwhole hfraction .none

theorem isMagnitude_leadingZeros (hd : ∀ v ∈ u :: more, isDigit v = true) (k : ℕ) :
    IsMagnitude (48 :: 46 :: (List.replicate k 48 ++ u :: more)) := by
  have hfraction : IsFraction (46 :: (List.replicate k 48 ++ u :: more)) := by
    refine .digits (fun v hv => ?_) (by simp)
    exact (List.mem_append.mp hv).elim isDigit_of_mem_replicate (hd v)
  rw [← List.append_nil (List.replicate k 48 ++ u :: more)]
  exact .mk .zero hfraction .none

theorem isMagnitude_scientific (hd : ∀ v ∈ u :: more, isDigit v = true) (hu : u ≠ 48) (e : ℤ) :
    IsMagnitude
      ((match u :: more with
        | first :: second :: rest => first :: 46 :: second :: rest
        | short => short) ++ 101 :: (if e < 0 then 45 else 43) :: Text.ofNat e.natAbs) := by
  have hexponent : IsExponent (101 :: (if e < 0 then 45 else 43) :: Text.ofNat e.natAbs) :=
    .signed (by split <;> simp) (fun v => Text.isDigit_of_mem_ofNat) (Text.ofNat_ne_nil _)
  have hfirst : IsWhole [u] := .digits (fun v hv => hd v (by simp_all)) hu
  cases more with
  | nil => exact .mk hfirst .none hexponent
  | cons v more =>
    have hfraction : IsFraction (46 :: v :: more) :=
      .digits (fun w hw => hd w (List.mem_cons_of_mem u hw)) (by simp)
    exact .mk hfirst hfraction hexponent

-- A layout without a point and an exponent is that of an integer.
theorem layout_cases {n : ℕ} (hn : 0 < n) (point : ℤ) :
    (∃ k, 0 < k ∧ layout (Text.ofNat n) point = Text.ofNat k) ∨
      IsMagnitude (layout (Text.ofNat n) point) ∧
        ∃ u ∈ layout (Text.ofNat n) point, u = 46 ∨ u = 101 := by
  obtain ⟨u, more, hmore, -⟩ := Text.exists_ofNat_eq_cons n
  have hhead : u ≠ 48 := by
    rintro rfl
    exact Text.head?_ofNat_ne hn (by rw [hmore, List.head?_cons])
  have hdigits : ∀ v ∈ u :: more, isDigit v = true := fun v hv =>
    Text.isDigit_of_mem_ofNat (hmore ▸ hv)
  simp only [layout]
  split
  · exact .inl ⟨_, by positivity, (Text.ofNat_mul_ten_pow hn _).symm⟩
  · rw [hmore]
    right
    split
    · next hshort hpoint =>
      obtain ⟨k, hk⟩ : ∃ k, point.toNat = k + 1 := ⟨point.toNat - 1, by omega⟩
      have hlength : k < more.length := by
        rw [hmore, List.length_cons] at hshort
        omega
      rw [hk, List.take_succ_cons, List.drop_succ_cons]
      exact ⟨isMagnitude_point hdigits hhead hlength, 46, by simp, .inl rfl⟩
    · split
      · exact ⟨isMagnitude_leadingZeros hdigits _, 46, by simp, .inl rfl⟩
      · exact ⟨isMagnitude_scientific hdigits hhead _, 101, by simp, .inr rfl⟩

-- A double that is no safe integer is not zero, so its decimal has a digit that is not zero.
theorem withoutZeros_shortest_pos {negative : Bool} {m : ℕ} {e : ℤ} {h : Canonical m e}
    (hsafe : (finite negative m e h).toSafeInt? = none) :
    0 < (withoutZeros (shortest m e).1 (shortest m e).2).1 := by
  rw [Nat.pos_iff_ne_zero]
  intro hzero
  have hround := ofRat_shortest h
  rw [← withoutZeros_eq, hzero, Nat.cast_zero, zero_mul, ofRat_zero] at hround
  cases hround
  cases negative <;> cases hsafe

theorem text_cases {x : Double} (hx : x.isFinite = true) (hsafe : x.toSafeInt? = none) :
    (∃ z : ℤ, x.text = Text.ofInt z) ∨
      IsSpelling x.text ∧ Number.isIntegerText x.text = false := by
  cases x with
  | nan => cases hx
  | infinite negative => cases hx
  | finite negative m e h =>
    have hpos := withoutZeros_shortest_pos hsafe
    rw [text_finite hsafe, decimalText]
    rcases layout_cases hpos
        ((Text.ofNat (withoutZeros (shortest m e).1 (shortest m e).2).1).length +
          (withoutZeros (shortest m e).1 (shortest m e).2).2)
      with ⟨k, hk, hlayout⟩ | ⟨hmagnitude, u, hu, hmark⟩
    · left
      rw [hlayout]
      cases negative with
      | false => exact ⟨k, by simp [Text.ofInt]⟩
      | true => exact ⟨-k, by simp [Text.ofInt, hk]⟩
    · right
      have hnot : ∀ t : Text, u ∈ t → Number.isIntegerText t = false := fun t ht => by
        rcases hmark with rfl | rfl <;>
          exact Text.isIntegerText_eq_false ht (by decide) (by decide) (by decide)
      cases negative with
      | false => exact ⟨.plain hmagnitude, hnot _ hu⟩
      | true => exact ⟨.minus hmagnitude, hnot _ (List.mem_cons_of_mem _ hu)⟩

end Double

namespace Number

open Json (IsSpelling EndsNumber numberOf? readToken?)

-- What a document holds for a finite number: the integer that its text spells, if it spells one.
def spelled (n : Number) : Number := if isIntegerText n.text then ofIntegerText n.text else n

variable {n : Number}

theorem IsCanonical.text_eq {z : ℤ} (h : n.IsCanonical z) : n.text = Text.ofInt z := by
  cases n with
  | float x => simp only [text, Double.text, isCanonical_float_iff.mp h]
  | big m => rw [text, h.1]

theorem IsCanonical.key_eq {z : ℤ} (h : n.IsCanonical z) : n.key = Text.ofInt z := by
  cases n with
  | float x =>
    rw [isCanonical_float_iff, Double.toSafeInt?_eq_some_iff] at h
    simp only [key, h.1]
  | big m => rw [key, h.1]

theorem text_ofInt (z : ℤ) : (ofInt z).text = Text.ofInt z := (isCanonical_ofInt z).text_eq

theorem key_ofInt (z : ℤ) : (ofInt z).key = Text.ofInt z := (isCanonical_ofInt z).key_eq

theorem spelled_of_text_eq {z : ℤ} (h : n.text = Text.ofInt z) : n.spelled = ofInt z := by
  rw [spelled, h, if_pos (Text.isIntegerText_ofInt z), ofIntegerText, Text.integerValue_ofInt]

-- The text is that of an integer, or the number is a double and its text has a point or an exponent.
theorem text_cases (hn : n.isFinite = true) :
    (∃ z : ℤ, n.text = Text.ofInt z) ∨
      ∃ x : Double, n = .float x ∧ x.isFinite = true ∧ x.toSafeInt? = none ∧ IsSpelling x.text ∧
        isIntegerText x.text = false := by
  cases n with
  | big m => exact .inl ⟨m, rfl⟩
  | float x =>
    cases hsafe : x.toSafeInt? with
    | some z => exact .inl ⟨z, by simp only [text, Double.text, hsafe]⟩
    | none =>
      refine (Double.text_cases hn hsafe).imp id ?_
      rintro ⟨hspelling, hinteger⟩
      exact ⟨x, rfl, hn, hsafe, hspelling, hinteger⟩

theorem isSpelling_text (hn : n.isFinite = true) : IsSpelling n.text := by
  rcases text_cases hn with ⟨z, hz⟩ | ⟨x, rfl, -, -, hspelling, -⟩
  · rw [hz]
    exact Json.isSpelling_ofInt z
  · exact hspelling

theorem numberOf?_text (hn : n.isFinite = true) : numberOf? n.text = some n.spelled := by
  rcases text_cases hn with ⟨z, hz⟩ | ⟨x, rfl, hx, hsafe, -, hinteger⟩
  · rw [spelled_of_text_eq hz, hz, Json.numberOf?_ofInt]
  · rw [spelled, text, hinteger, numberOf?, hinteger,
      Double.read?_text (Double.isNaN_of_isFinite hx) hsafe]
    rfl

theorem text_spelled (hn : n.isFinite = true) : n.spelled.text = n.text := by
  rcases text_cases hn with ⟨z, hz⟩ | ⟨x, rfl, -, -, -, hinteger⟩
  · rw [spelled_of_text_eq hz, hz, text_ofInt]
  · rw [spelled, text, hinteger]
    rfl

theorem IsCanonical.isFinite {z : ℤ} (h : n.IsCanonical z) : n.isFinite = true := by
  cases n with
  | float x => exact h.1
  | big m => rfl

theorem isFinite_ofInt (z : ℤ) : (ofInt z).isFinite = true := (isCanonical_ofInt z).isFinite

theorem isFinite_spelled (hn : n.isFinite = true) : n.spelled.isFinite = true := by
  unfold spelled
  split
  · exact isFinite_ofInt _
  · exact hn

theorem readToken?_text {rest : Text} (hn : n.isFinite = true) (hrest : EndsNumber rest) :
    readToken? (n.text ++ rest) = some (.number n.spelled, rest) :=
  Json.readToken?_spelling (isSpelling_text hn) hrest (numberOf?_text hn)

-- A double that is an integer beyond the safe range but has the text of another integer, `z`.
def PrintsOther (n : Number) (z : ℤ) : Prop :=
  ∃ (x : Double) (k : ℤ), n = .float x ∧ x.toInt? = some k ∧ ¬Double.IsSafe k ∧
    x.text = Text.ofInt z ∧ z ≠ k

-- Such a double is the nearest one to the integer that stands for it in the document.
theorem PrintsOther.spelled_eq {z : ℤ} (h : n.PrintsOther z) :
    n.spelled = ofInt z ∧ Double.ofInt z = n.toDouble := by
  obtain ⟨x, k, rfl, hk, hsafe, htext, -⟩ := h
  have hnot : x.toSafeInt? = none := by
    rw [Double.toSafeInt?, hk]
    exact if_neg hsafe
  have hfinite := (Double.toInt?_eq_some_iff.mp hk).1
  have hread := Double.read?_text (Double.isNaN_of_isFinite hfinite) hnot
  rw [htext, Double.read?_ofInt, Option.some_inj] at hread
  exact ⟨spelled_of_text_eq htext, hread⟩

-- All other finite numbers are read as numbers equal to them.
theorem key_spelled_eq_iff (hn : n.isFinite = true) :
    n.spelled.key = n.key ↔ ∀ z, ¬n.PrintsOther z := by
  rcases text_cases hn with ⟨z, hz⟩ | ⟨x, rfl, -, -, -, hinteger⟩
  · rw [spelled_of_text_eq hz, key_ofInt]
    constructor
    · rintro hkey z' ⟨x, k, rfl, hk, -, htext, hne⟩
      have hxkey : (float x).key = Text.ofInt k := by simp only [key, hk]
      rw [hxkey] at hkey
      obtain rfl := Text.ofInt_injective (hz.symm.trans htext)
      exact hne (Text.ofInt_injective hkey)
    · intro hnot
      cases n with
      | big m => exact hz.symm
      | float x =>
        cases hk : x.toInt? with
        | none => exact absurd hz (Double.text_ne_ofInt hk z)
        | some k =>
          have hxkey : (float x).key = Text.ofInt k := by simp only [key, hk]
          by_contra hkey
          refine hnot z ⟨x, k, rfl, hk, fun hsafe => ?_, hz, fun hzk => hkey (by rw [hxkey, hzk])⟩
          -- a safe integer prints with its own digits
          have hint := Double.toSafeInt?_eq_some_iff.mpr ⟨hk, hsafe⟩
          have htext : (float x).text = Text.ofInt k := by simp only [text, Double.text, hint]
          exact hkey (by rw [hxkey, ← hz, htext])
  · rw [spelled, text, hinteger]
    refine iff_of_true rfl ?_
    rintro z ⟨y, k, heq, -, -, htext, -⟩
    cases heq
    rw [htext, Text.isIntegerText_ofInt] at hinteger
    cases hinteger

end Number

end RecordQuery
