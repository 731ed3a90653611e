import RecordQuery.Proofs.Text.Identifier
import RecordQuery.Proofs.Text.Quoted

/-!
Texts that are cut off. What is read off the front of a text, be it a character, a run of characters
or an identifier, is read off just so where only a part of what follows is left, even where the cut
goes through a pair.
-/

namespace RecordQuery.Text

variable {p : Nat → Bool} {u : UInt16} {t c rest before after name : Text}

-- A code point between two ranges lies in none.
theorem Ranges.contains_eq_false {ranges : Ranges} {first last n : Nat}
    (h : ranges.all (fun r => r.2 < first || last < r.1) = true) (hfirst : first ≤ n)
    (hlast : n ≤ last) : ranges.contains n = false := by
  induction ranges with
  | nil => rfl
  | cons r ranges ih =>
    obtain ⟨hr, hrest⟩ := by simpa only [List.all_cons, Bool.and_eq_true] using h
    simp only [Bool.or_eq_true, decide_eq_true_eq] at hr
    rw [Ranges.contains, ih hrest]
    split
    · rfl
    · rw [Bool.or_false, decide_eq_false_iff_not]
      omega

-- No half of a pair stands in an identifier alone.
theorem isIdentifierPart_of_isSurrogate (h : isSurrogate u = true) :
    isIdentifierPart u.toNat = false := by
  rw [isSurrogate, Bool.and_eq_true, decide_eq_true_eq, decide_eq_true_eq] at h
  have hfirst : 0xD800 ≤ u.toNat := UInt16.le_iff_toNat_le.mp h.1
  have hlast : u.toNat ≤ 0xDFFF := UInt16.le_iff_toNat_le.mp h.2
  rw [isIdentifierPart, isIdentifierStart, Bool.or_eq_false_iff]
  exact ⟨Ranges.contains_eq_false (by decide +kernel) hfirst hlast,
    Ranges.contains_eq_false (by decide +kernel) hfirst hlast⟩

theorem opensIdentifier_of_isSurrogate (h : isSurrogate u = true) :
    opensIdentifier u.toNat = false := by
  rw [Bool.eq_false_iff]
  intro hopens
  have hpart := isIdentifierPart_of_opens hopens
  rw [isIdentifierPart_of_isSurrogate h] at hpart
  cases hpart

theorem nextCharacter?_of_not_isHigh (h : isHigh u = false) (t : Text) :
    nextCharacter? (u :: t) = some ([u], t) := by
  cases t <;> simp [nextCharacter?, h]

theorem nextCharacter?_front (h : nextCharacter? t = some (c, rest)) (hbefore : before <+: rest) :
    nextCharacter? (c ++ before) = some (c, before) := by
  revert h
  fun_cases nextCharacter? t with
  | case1 => rintro ⟨⟩
  | case2 u =>
    rintro ⟨⟩
    rw [List.prefix_nil.mp hbefore]
    rfl
  | case3 u v t hpair =>
    rintro ⟨⟩
    simp [nextCharacter?, hpair]
  | case4 u v t hpair =>
    rintro ⟨⟩
    cases before with
    | nil => rfl
    | cons w before =>
      rw [(List.cons_prefix_cons.mp hbefore).1]
      simp [nextCharacter?, hpair]

-- The first character is there and in `p`.
def OpensWith (p : Nat → Bool) (t : Text) : Prop :=
  ∃ c rest, nextCharacter? t = some (c, rest) ∧ p (codePoint c) = true

theorem not_opensWith_nil : ¬OpensWith p [] := nofun

theorem opensWith_of_nextCharacter? (h : nextCharacter? t = some (c, rest)) :
    OpensWith p t ↔ p (codePoint c) = true := by
  simp [OpensWith, h]

theorem opensWith_iff :
    OpensWith p t ↔ ((nextCharacter? t).map fun q => p (codePoint q.1)).getD false = true := by
  cases h : nextCharacter? t with
  | none => simp [OpensWith, h]
  | some q => exact opensWith_of_nextCharacter? h

theorem identifierPrefix?_eq_none_iff :
    identifierPrefix? t = none ↔ ¬OpensWith opensIdentifier t := by
  unfold identifierPrefix?
  split
  · next h => simp [OpensWith, h]
  · next c rest h =>
    rw [opensWith_of_nextCharacter? h]
    split <;> simp_all

theorem spanCharacters_eq_nil_iff : spanCharacters p t = ([], t) ↔ ¬OpensWith p t := by
  match t with
  | [] => simp [spanCharacters, not_opensWith_nil]
  | [u] =>
    rw [opensWith_of_nextCharacter? (c := [u]) rfl, codePoint_singleton, spanCharacters]
    split <;> simp_all
  | u :: v :: rest =>
    rw [spanCharacters]
    split
    · next hpair =>
      have hnext : nextCharacter? (u :: v :: rest) = some ([u, v], rest) := by
        rw [nextCharacter?, if_pos hpair]
      rw [opensWith_of_nextCharacter? hnext]
      split <;> simp_all
    · next hpair =>
      have hnext : nextCharacter? (u :: v :: rest) = some ([u], v :: rest) := by
        rw [nextCharacter?, if_neg hpair]
      rw [opensWith_of_nextCharacter? hnext, codePoint_singleton]
      split <;> simp_all

section

variable (hp : ∀ {u}, isSurrogate u = true → p u.toNat = false)

include hp

theorem isHigh_eq_false_of_pos (hu : p u.toNat = true) : isHigh u = false := by
  rw [Bool.eq_false_iff]
  intro hhigh
  rw [hp (isSurrogate_of_isHigh hhigh)] at hu
  cases hu

-- The first character of a part is that of the text, or a half of it.
theorem OpensWith.of_front (h : OpensWith p before) (hbefore : before <+: t) : OpensWith p t := by
  obtain ⟨c, rest, hc, hpc⟩ := h
  obtain ⟨tail, rfl⟩ := hbefore
  revert hc
  fun_cases nextCharacter? before with
  | case1 => rintro ⟨⟩
  | case2 u =>
    rintro ⟨⟩
    rw [codePoint_singleton] at hpc
    have hhigh := isHigh_eq_false_of_pos hp hpc
    exact ⟨[u], tail, nextCharacter?_of_not_isHigh hhigh tail, hpc⟩
  | case3 u v rest hpair =>
    rintro ⟨⟩
    exact ⟨[u, v], rest ++ tail, by simp [nextCharacter?, hpair], hpc⟩
  | case4 u v rest hpair =>
    rintro ⟨⟩
    exact ⟨[u], v :: rest ++ tail, by simp [nextCharacter?, hpair], hpc⟩

theorem spanCharacters_cons_of_pos (hu : p u.toNat = true) (t : Text) :
    spanCharacters p (u :: t) = (u :: (spanCharacters p t).1, (spanCharacters p t).2) := by
  have hhigh := isHigh_eq_false_of_pos hp hu
  cases t <;> simp [spanCharacters, hhigh, hu]

theorem spanCharacters_eq_nil_of_front (h : spanCharacters p t = ([], t)) (hbefore : before <+: t) :
    spanCharacters p before = ([], before) := by
  rw [spanCharacters_eq_nil_iff] at h ⊢
  exact fun hopens => h (hopens.of_front hp hbefore)

theorem spanCharacters_front (hbefore : before <+: (spanCharacters p t).2) :
    spanCharacters p ((spanCharacters p t).1 ++ before) = ((spanCharacters p t).1, before) := by
  induction t using spanCharacters.induct p generalizing before with
  | case1 =>
    rw [List.prefix_nil.mp hbefore]
    rfl
  | case2 u hu =>
    rw [spanCharacters, if_pos hu] at hbefore
    rw [List.prefix_nil.mp hbefore]
    simp [spanCharacters, hu]
  | case4 u v rest hpair hc ih =>
    rw [spanCharacters, if_pos hpair, if_pos hc] at hbefore ⊢
    simp [spanCharacters, hpair, hc, ih hbefore]
  | case6 u v rest hpair hu ih =>
    rw [spanCharacters_cons_of_pos hp hu] at hbefore ⊢
    rw [List.cons_append, spanCharacters_cons_of_pos hp hu, ih hbefore]
  | case3 u hu =>
    have hnone : spanCharacters p [u] = ([], [u]) := by rw [spanCharacters, if_neg hu]
    rw [hnone] at hbefore ⊢
    exact spanCharacters_eq_nil_of_front hp hnone hbefore
  | case5 u v rest hpair hc =>
    have hnone : spanCharacters p (u :: v :: rest) = ([], u :: v :: rest) := by
      rw [spanCharacters, if_pos hpair, if_neg hc]
    rw [hnone] at hbefore ⊢
    exact spanCharacters_eq_nil_of_front hp hnone hbefore
  | case7 u v rest hpair hu =>
    have hnone : spanCharacters p (u :: v :: rest) = ([], u :: v :: rest) := by
      rw [spanCharacters, if_neg hpair, if_neg hu]
    rw [hnone] at hbefore ⊢
    exact spanCharacters_eq_nil_of_front hp hnone hbefore

-- A run that ends before the cut starts there.
theorem OpensWith.of_append (h : OpensWith p (t ++ rest))
    (hle : (spanCharacters p (t ++ rest)).1.length ≤ t.length) : OpensWith p t := by
  have happend := spanCharacters_append p (t ++ rest)
  obtain ⟨more, hmore⟩ : (spanCharacters p (t ++ rest)).1 <+: t :=
    List.prefix_of_prefix_length_le ⟨_, happend⟩ ⟨rest, rfl⟩ hle
  have hafter : (spanCharacters p (t ++ rest)).2 = more ++ rest := by
    rw [← List.append_cancel_left_eq (spanCharacters p (t ++ rest)).1, happend, ← List.append_assoc,
      hmore]
  have hbefore : more <+: (spanCharacters p (t ++ rest)).2 := ⟨rest, hafter.symm⟩
  have hfront := spanCharacters_front hp hbefore
  rw [hmore] at hfront
  by_contra hnot
  rw [← spanCharacters_eq_nil_iff, hfront, Prod.mk.injEq] at hnot
  refine absurd h (spanCharacters_eq_nil_iff.mp (Prod.ext hnot.1 ?_))
  rw [hafter, hnot.2]

end

theorem identifierPrefix?_front (h : identifierPrefix? t = some (name, after))
    (hbefore : before <+: after) : identifierPrefix? (name ++ before) = some (name, before) := by
  unfold identifierPrefix? at h
  split at h
  · cases h
  · next c rest hc =>
    split at h
    · next hopens =>
      obtain ⟨rfl, rfl⟩ := Prod.mk.inj (Option.some.inj h)
      have hrun : (spanCharacters isIdentifierPart rest).1 ++ before <+: rest := by
        obtain ⟨tail, htail⟩ := hbefore
        exact ⟨tail, by rw [List.append_assoc, htail, spanCharacters_append]⟩
      rw [identifierPrefix?, List.append_assoc, nextCharacter?_front hc hrun]
      simp only [hopens, if_true,
        spanCharacters_front isIdentifierPart_of_isSurrogate hbefore]
    · cases h

theorem identifierPrefix?_eq_none_of_front (h : identifierPrefix? t = none)
    (hbefore : before <+: t) : identifierPrefix? before = none := by
  rw [identifierPrefix?_eq_none_iff] at h ⊢
  exact fun hopens => h (hopens.of_front opensIdentifier_of_isSurrogate hbefore)

end RecordQuery.Text
