import RecordQuery.Proofs.Double.Decimal
import RecordQuery.Proofs.Double.Integer
import RecordQuery.Proofs.Text.Delimited

/-!
Reading back what is written for a double. Every layout of a decimal is read as the decimal's value,
so the text of a double that is no safe integer is read as that double.
-/

namespace RecordQuery.Double

open Text (isDigit isDigit_iff digitsValue)

theorem readDecimal?_whole (negative : Bool) (whole tail : Text)
    (hw : ∀ u ∈ whole, isDigit u = true) (hne : whole ≠ [])
    (ht : ∀ u ∈ tail.head?, isDigit u = false ∧ u ≠ 46) :
    readDecimal? negative (whole ++ tail) =
      (readExponent? tail).map fun e => ofRat negative (digitsValue whole * 10 ^ e) := by
  obtain ⟨htake, hdrop⟩ := Text.span_append whole tail hw fun u hu => (ht u hu).1
  have hpoint : (tail.head? == some 46) = false := by
    rw [beq_eq_false_iff_ne]
    intro h
    exact (ht 46 h).2 rfl
  simp only [readDecimal?, htake, hdrop, hpoint, ofDecimal_eq_ofRat]
  simp [hne]

theorem readDecimal?_point (negative : Bool) (whole fraction tail : Text)
    (hw : ∀ u ∈ whole, isDigit u = true) (hf : ∀ u ∈ fraction, isDigit u = true)
    (hne : whole ≠ []) (ht : ∀ u ∈ tail.head?, isDigit u = false) :
    readDecimal? negative (whole ++ 46 :: (fraction ++ tail)) =
      (readExponent? tail).map fun e =>
        ofRat negative (digitsValue (whole ++ fraction) * 10 ^ (e - fraction.length : ℤ)) := by
  have hpoint : ∀ u ∈ (46 :: (fraction ++ tail)).head?, isDigit u = false := by
    rintro u ⟨⟩
    rfl
  obtain ⟨htake, hdrop⟩ := Text.span_append whole _ hw hpoint
  obtain ⟨htake', hdrop'⟩ := Text.span_append fraction tail hf ht
  simp only [readDecimal?, htake, hdrop, List.head?_cons, List.drop_succ_cons, List.drop_zero,
    htake', hdrop', ofDecimal_eq_ofRat, BEq.rfl, if_true]
  simp [hne]

theorem readExponent?_signed (e : ℤ) :
    readExponent? (101 :: (if e < 0 then 45 else 43) :: Text.ofNat e.natAbs) = some e := by
  have hdigits : (Text.ofNat e.natAbs).all isDigit = true := by
    rw [List.all_eq_true]
    exact fun u hu => Text.isDigit_of_mem_ofNat hu
  by_cases he : e < 0
  · simp only [readExponent?, he, if_true]
    simp [hdigits, Text.ofNat_ne_nil, abs_of_neg he]
  · simp only [readExponent?, he, if_false]
    simp [hdigits, Text.ofNat_ne_nil, abs_of_nonneg (not_lt.mp he)]

theorem isDigit_of_mem_replicate {k : ℕ} {u : UInt16} (hu : u ∈ List.replicate k 48) :
    isDigit u = true := by
  rw [List.eq_of_mem_replicate hu]
  rfl

variable {digits : Text}

theorem readDecimal?_trailingZeros (negative : Bool) (k : ℕ) (hd : ∀ u ∈ digits, isDigit u = true)
    (hne : digits ≠ []) :
    readDecimal? negative (digits ++ List.replicate k 48) =
      some (ofRat negative (digitsValue digits * 10 ^ (k : ℤ))) := by
  have hall : ∀ u ∈ digits ++ List.replicate k 48, isDigit u = true := fun u hu =>
    (List.mem_append.mp hu).elim (hd u) isDigit_of_mem_replicate
  have hread := readDecimal?_whole negative (digits ++ List.replicate k 48) [] hall (by simp [hne])
    (by simp)
  rw [List.append_nil] at hread
  rw [hread, Text.digitsValue_append, Text.digitsValue_replicate_zero, List.length_replicate]
  simp [readExponent?]

theorem readDecimal?_leadingZeros (negative : Bool) (k : ℕ) (hd : ∀ u ∈ digits, isDigit u = true) :
    readDecimal? negative (48 :: 46 :: (List.replicate k 48 ++ digits)) =
      some (ofRat negative (digitsValue digits * 10 ^ (-(k + digits.length : ℤ)))) := by
  have hfraction : ∀ u ∈ List.replicate k 48 ++ digits, isDigit u = true := fun u hu =>
    (List.mem_append.mp hu).elim isDigit_of_mem_replicate (hd u)
  have hread := readDecimal?_point negative [48] (List.replicate k 48 ++ digits) []
    (fun u hu => isDigit_of_mem_replicate (k := 1) hu) hfraction (by simp) (by simp)
  have hzeros : digitsValue ([48] ++ List.replicate k 48) = 0 :=
    Text.digitsValue_replicate_zero (k + 1)
  rw [List.append_nil, ← List.append_assoc, Text.digitsValue_append, hzeros, zero_mul, zero_add,
    List.length_append, List.length_replicate] at hread
  refine hread.trans ?_
  rw [readExponent?, Option.map_some]
  congr 4
  omega

-- A point after the first digit if there are more, and an exponent.
theorem readDecimal?_scientific (negative : Bool) (u : UInt16) (more : Text) (e : ℤ)
    (hd : ∀ v ∈ u :: more, isDigit v = true) :
    readDecimal? negative
      ((match u :: more with
        | first :: second :: rest => first :: 46 :: second :: rest
        | short => short) ++ 101 :: (if e < 0 then 45 else 43) :: Text.ofNat e.natAbs) =
      some (ofRat negative (digitsValue (u :: more) * 10 ^ (e - more.length))) := by
  have hu : ∀ v ∈ [u], isDigit v = true := fun v hv => hd v (by simp_all)
  cases more with
  | nil =>
    have hread := readDecimal?_whole negative [u]
      (101 :: (if e < 0 then 45 else 43) :: Text.ofNat e.natAbs) hu (by simp)
      (by rintro v ⟨⟩; decide)
    rw [readExponent?_signed, Option.map_some] at hread
    simpa using hread
  | cons v rest =>
    have hread := readDecimal?_point negative [u] (v :: rest)
      (101 :: (if e < 0 then 45 else 43) :: Text.ofNat e.natAbs) hu
      (fun w hw => hd w (List.mem_cons_of_mem _ hw)) (by simp) (by rintro w ⟨⟩; decide)
    rw [readExponent?_signed, Option.map_some] at hread
    exact hread

-- Every layout is read as the same decimal, whichever of the four it is.
theorem readDecimal?_layout (negative : Bool) (point : ℤ) (hd : ∀ u ∈ digits, isDigit u = true)
    (hne : digits ≠ []) :
    readDecimal? negative (layout digits point) =
      some (ofRat negative (digitsValue digits * 10 ^ (point - digits.length))) := by
  simp only [layout]
  split
  · next h =>
    rw [readDecimal?_trailingZeros negative _ hd hne, Int.toNat_of_nonneg (by omega)]
  · split
    · next h h' =>
      have hread := readDecimal?_point negative (digits.take point.toNat)
        (digits.drop point.toNat) [] (fun u hu => hd u (List.mem_of_mem_take hu))
        (fun u hu => hd u (List.mem_of_mem_drop hu)) (by simp [hne]; omega) (by simp)
      rw [List.append_nil, List.take_append_drop, List.length_drop] at hread
      rw [hread, readExponent?, Option.map_some]
      congr 4
      omega
    · split
      · next h =>
        rw [readDecimal?_leadingZeros negative _ hd, Int.toNat_of_nonneg (by omega)]
        congr 4
        omega
      · obtain ⟨u, more, rfl⟩ := List.exists_cons_of_ne_nil hne
        refine (readDecimal?_scientific negative u more (point - 1) hd).trans ?_
        rw [List.length_cons]
        congr 4
        omega

-- The units of a decimal: digits, the point, the letter of the exponent and signs.
def IsDecimalUnit (u : UInt16) : Prop := isDigit u = true ∨ u = 46 ∨ u = 101 ∨ u = 43 ∨ u = 45

theorem isDecimalUnit_of_mem_layout {point : ℤ} {u : UInt16}
    (hd : ∀ u ∈ digits, isDigit u = true) (hu : u ∈ layout digits point) : IsDecimalUnit u := by
  have hexponent : ∀ n, u ∈ Text.ofNat n → isDigit u = true := fun n => Text.isDigit_of_mem_ofNat
  have hzeros : ∀ k, u ∈ List.replicate k 48 → isDigit u = true := fun k => isDigit_of_mem_replicate
  simp only [layout] at hu
  split at hu
  · rcases List.mem_append.mp hu with hu | hu
    · exact .inl (hd u hu)
    · exact .inl (hzeros _ hu)
  · split at hu
    · rcases List.mem_append.mp hu with hu | hu
      · exact .inl (hd u (List.mem_of_mem_take hu))
      · rcases List.mem_cons.mp hu with rfl | hu
        · exact .inr (.inl rfl)
        · exact .inl (hd u (List.mem_of_mem_drop hu))
    · split at hu
      · simp only [List.mem_cons, List.mem_append] at hu
        rcases hu with rfl | rfl | hu | hu
        · exact .inl rfl
        · exact .inr (.inl rfl)
        · exact .inl (hzeros _ hu)
        · exact .inl (hd u hu)
      · rcases List.mem_append.mp hu with hu | hu
        · split at hu
          · simp only [List.mem_cons] at hu hd
            rcases hu with hu | hu | hu | hu
            · exact .inl (hd u (.inl hu))
            · exact .inr (.inl hu)
            · exact .inl (hd u (.inr (.inl hu)))
            · exact .inl (hd u (.inr (.inr hu)))
          · exact .inl (hd u hu)
        · simp only [List.mem_cons] at hu
          rcases hu with rfl | hu | hu
          · exact .inr (.inr (.inl rfl))
          · split at hu <;> simp [IsDecimalUnit, hu]
          · exact .inl (hexponent _ hu)

-- A layout begins with a digit, so its sign can be put in front.
theorem exists_layout_eq_cons (point : ℤ) (hd : ∀ u ∈ digits, isDigit u = true)
    (hne : digits ≠ []) : ∃ u t, layout digits point = u :: t ∧ isDigit u = true := by
  obtain ⟨u, rest, rfl⟩ := List.exists_cons_of_ne_nil hne
  have hu : isDigit u = true := hd u List.mem_cons_self
  simp only [layout]
  split
  · exact ⟨u, _, rfl, hu⟩
  · split
    · next h =>
      obtain ⟨k, hk⟩ : ∃ k, point.toNat = k + 1 := ⟨point.toNat - 1, by omega⟩
      rw [hk, List.take_succ_cons]
      exact ⟨u, _, rfl, hu⟩
    · split
      · exact ⟨48, _, rfl, rfl⟩
      · cases rest with
        | nil => exact ⟨u, _, rfl, hu⟩
        | cons v rest => exact ⟨u, _, rfl, hu⟩

-- A text that begins with a digit is no word, and it is in base ten without a mark in second place.
theorem readMagnitude?_of_isDigit (negative : Bool) {u : UInt16} (t : Text) (hu : isDigit u = true) :
    readMagnitude? negative (u :: t) = readDecimal? negative (u :: t) := by
  have hword : (u :: t) ≠ Text.ofString "Infinity" := by
    intro h
    obtain rfl : u = 73 := (List.cons.inj h).1
    exact absurd hu (by decide)
  rw [readMagnitude?, if_neg hword]

theorem read?_signed (negative : Bool) {u : UInt16} {t : Text} (hu : isDigit u = true)
    (ht : ∀ v ∈ t, IsDecimalUnit v) :
    read? (if negative then 45 :: u :: t else u :: t) = readDecimal? negative (u :: t) := by
  cases negative with
  | true => exact readMagnitude?_of_isDigit true t hu
  | false =>
    rw [if_neg (by simp), ← readMagnitude?_of_isDigit false t hu]
    have hmark : ∀ v ∈ t, v ≠ 120 ∧ v ≠ 88 ∧ v ≠ 111 ∧ v ≠ 79 ∧ v ≠ 98 ∧ v ≠ 66 := by
      intro v hv
      have hcases := ht v hv
      rw [IsDecimalUnit, isDigit_iff] at hcases
      refine ⟨?_, ?_, ?_, ?_, ?_, ?_⟩ <;> rintro rfl <;> exact absurd hcases (by decide)
    unfold read?
    split
    · next heq =>
      obtain rfl := (List.cons.inj heq).1
      exact absurd hu (by decide)
    · next heq =>
      obtain rfl := (List.cons.inj heq).1
      exact absurd hu (by decide)
    · next mark rest heq =>
      obtain ⟨rfl, rfl⟩ := List.cons.inj heq
      obtain ⟨hx, hX, ho, hO, hb, hB⟩ := hmark mark List.mem_cons_self
      simp [hx, hX, ho, hO, hb, hB]
    · rfl

theorem read?_ofInt (n : ℤ) : read? (Text.ofInt n) = some (ofInt n) := by
  obtain ⟨u, t, ht, hu⟩ := Text.exists_ofNat_eq_cons n.natAbs
  have hdigits : ∀ v ∈ u :: t, isDigit v = true := fun v hv =>
    Text.isDigit_of_mem_ofNat (ht.symm ▸ hv)
  have hread := readDecimal?_whole (decide (n < 0)) (u :: t) [] hdigits (by simp) (by simp)
  rw [List.append_nil, ← ht, Text.digitsValue_ofNat, ht] at hread
  rw [ofInt_eq_ofRat, Text.ofInt, ht, ← Bool.cond_decide, Bool.cond_eq_ite,
    read?_signed (decide (n < 0)) hu fun v hv => .inl (hdigits v (List.mem_cons_of_mem u hv)), hread]
  simp [readExponent?]

-- The digits of the decimal chosen for a finite double.
theorem read?_decimalText (negative : Bool) {m : ℕ} {e : ℤ} (h : Canonical m e) :
    read? (decimalText negative m e) = some (.finite negative m e h) := by
  set trimmed := withoutZeros (shortest m e).1 (shortest m e).2 with htrimmed
  have hdigits : ∀ u ∈ Text.ofNat trimmed.1, isDigit u = true := fun u => Text.isDigit_of_mem_ofNat
  have hne : Text.ofNat trimmed.1 ≠ [] := Text.ofNat_ne_nil _
  have hread := readDecimal?_layout negative ((Text.ofNat trimmed.1).length + trimmed.2) hdigits hne
  rw [Text.digitsValue_ofNat, add_sub_cancel_left, htrimmed, withoutZeros_eq,
    ofRat_sign negative (ofRat_shortest h)] at hread
  obtain ⟨u, t, ht, hu⟩ :=
    exists_layout_eq_cons ((Text.ofNat trimmed.1).length + trimmed.2) hdigits hne
  have hmem : ∀ v ∈ t, IsDecimalUnit v := fun v hv =>
    isDecimalUnit_of_mem_layout hdigits (ht ▸ List.mem_cons_of_mem u hv)
  simp only [decimalText, ← htrimmed] at hread ⊢
  rw [ht] at hread ⊢
  rw [read?_signed negative hu hmem, hread]

theorem text_finite {negative : Bool} {m : ℕ} {e : ℤ} {h : Canonical m e}
    (hsafe : (finite negative m e h).toSafeInt? = none) :
    (finite negative m e h).text = decimalText negative m e := by
  simp only [text, hsafe]

-- Different doubles have different texts, as a text is read as one double.
theorem read?_text {x : Double} (hx : x.isNaN = false) (hsafe : x.toSafeInt? = none) :
    read? x.text = some x := by
  cases x with
  | nan => cases hx
  | infinite negative => cases negative <;> rfl
  | finite negative m e h => rw [text_finite hsafe, read?_decimalText negative h]

-- The units that a decimal or one of the three words is written with.
theorem isDecimalUnit_or_mem_of_mem_text {x : Double} {u : UInt16} (hsafe : x.toSafeInt? = none)
    (hu : u ∈ x.text) : IsDecimalUnit u ∨ u ∈ Text.ofString "InfinityNaN" := by
  cases x with
  | nan =>
    have hword : (Text.ofString "NaN").all (Text.ofString "InfinityNaN").elem = true := by decide
    exact .inr (List.elem_iff.mp (List.all_eq_true.mp hword u hu))
  | infinite negative =>
    have hword : (Text.ofString "Infinity").all (Text.ofString "InfinityNaN").elem = true := by
      decide
    have hmem : u ∈ Text.ofString "Infinity" → u ∈ Text.ofString "InfinityNaN" := fun h =>
      List.elem_iff.mp (List.all_eq_true.mp hword u h)
    cases negative with
    | true =>
      rcases List.mem_cons.mp (show u ∈ 45 :: Text.ofString "Infinity" from hu) with hu | hu
      · exact .inl (by simp [IsDecimalUnit, hu])
      · exact .inr (hmem hu)
    | false => exact .inr (hmem hu)
  | finite negative m e h =>
    have hbody : ∀ n point, u ∈ layout (Text.ofNat n) point → IsDecimalUnit u := fun n point =>
      isDecimalUnit_of_mem_layout fun v => Text.isDigit_of_mem_ofNat
    rw [text_finite hsafe] at hu
    simp only [decimalText] at hu
    split at hu
    · rcases List.mem_cons.mp hu with hu | hu
      · exact .inl (by simp [IsDecimalUnit, hu])
      · exact .inl (hbody _ _ hu)
    · exact .inl (hbody _ _ hu)

-- No integer is written like a double that is none.
theorem text_ne_ofInt {x : Double} (hx : x.toInt? = none) (n : ℤ) : x.text ≠ Text.ofInt n := by
  intro heq
  have hsafe : x.toSafeInt? = none := by rw [toSafeInt?, hx]
  cases x with
  | nan =>
    have hmem : (78 : UInt16) ∈ Text.ofInt n := by
      rw [← heq]
      decide
    exact absurd (Text.isDigit_or_eq_of_mem_ofInt hmem) (by decide)
  | infinite negative =>
    have hmem : (73 : UInt16) ∈ Text.ofInt n := by
      rw [← heq]
      cases negative <;> decide
    exact absurd (Text.isDigit_or_eq_of_mem_ofInt hmem) (by decide)
  | finite negative m e h =>
    have hread := read?_text (x := .finite negative m e h) rfl hsafe
    rw [heq, read?_ofInt, Option.some_inj] at hread
    rcases le_or_gt |n| (2 ^ 53) with hn | hn
    · have hint := toInt?_ofScaled false hn
      rw [← ofInt, hread, hx] at hint
      cases hint
    · have hsmall := abs_value_lt_of_toInt?_eq_none rfl hx
      have hlarge := le_abs_value_ofScaled false hn.le (by rw [← ofInt, hread]; rfl)
      rw [← ofInt, hread] at hlarge
      exact absurd hsmall (not_lt.mpr hlarge)

end RecordQuery.Double
