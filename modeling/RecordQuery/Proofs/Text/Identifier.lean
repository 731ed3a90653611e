import RecordQuery.Text.Identifier

/-!
A text that is an identifier is its own identifier form, and it is read to its end in front of what
ends it.
-/

namespace RecordQuery.Text

variable {p : Nat → Bool} {u : UInt16} {t c rest name : Text}

theorem characters_of_nextCharacter? (h : nextCharacter? t = some (c, rest)) :
    characters t = c :: characters rest := by
  revert h
  fun_cases nextCharacter? t <;> rintro ⟨⟩ <;> simp_all [characters]

theorem codePoint_singleton (u : UInt16) : codePoint [u] = u.toNat := rfl

-- What is spanned to the end has the property throughout.
theorem forall_characters_of_span (h : (spanCharacters p t).2 = []) :
    ∀ c ∈ characters t, p (codePoint c) = true := by
  fun_induction spanCharacters p t with
  | case1 => simp [characters]
  | case2 u hp => simpa [characters, codePoint_singleton] using hp
  | case3 => simp at h
  | case4 u v rest hpair hp run ih => simpa [characters, hpair, hp] using ih h
  | case5 => simp at h
  | case6 u v rest hpair hp run ih => simpa [characters, hpair, codePoint_singleton, hp] using ih h
  | case7 => simp at h

theorem underscored_eq_flatten {cs : List Text}
    (h : ∀ c ∈ cs, isIdentifierPart (codePoint c) = true) : underscored false cs = cs.flatten := by
  induction cs with
  | nil => rfl
  | cons c cs ih =>
    obtain ⟨hc, hcs⟩ := List.forall_mem_cons.mp h
    rw [underscored, if_pos hc, ih hcs, List.flatten_cons]

theorem isIdentifierPart_of_opens {n : Nat} (h : opensIdentifier n = true) :
    isIdentifierPart n = true := by
  rw [opensIdentifier, Bool.or_eq_true, beq_iff_eq] at h
  rcases h with h | rfl
  · simp [isIdentifierPart, h]
  · decide

theorem identifierOf_eq_self (h : identifierPrefix? name = some (name, [])) :
    identifierOf name = name := by
  unfold identifierPrefix? at h
  split at h
  · cases h
  · next c rest hc =>
    split at h
    · next hopens =>
      obtain ⟨-, hspan⟩ := Prod.mk.inj (Option.some.inj h)
      have hcharacters := characters_of_nextCharacter? hc
      have hall : ∀ c ∈ characters name, isIdentifierPart (codePoint c) = true := by
        rw [hcharacters]
        exact List.forall_mem_cons.mpr
          ⟨isIdentifierPart_of_opens hopens, forall_characters_of_span hspan⟩
      have hname : underscored false (characters name) = name := by
        rw [underscored_eq_flatten hall, flatten_characters]
      rw [identifierOf, hname, hcharacters]
      simp [hopens]
    · cases h

-- Units that neither an identifier nor a number goes on with.
def enders : Text := [32, 40, 41, 44, 93, 125]

-- Nothing follows, or such a unit.
def Ends (rest : Text) : Prop := ∀ u ∈ rest.head?, u ∈ enders

theorem ends_nil : Ends [] := nofun

theorem ends_cons : Ends (u :: rest) ↔ u ∈ enders := by simp [Ends]

theorem isIdentifierPart_of_ends (h : u ∈ enders) :
    isIdentifierPart u.toNat = false ∧ isHigh u = false ∧ isLow u = false := by
  have hall : enders.all (fun v => !isIdentifierPart v.toNat && !isHigh v && !isLow v) = true := by
    decide +kernel
  simpa [and_assoc] using List.all_eq_true.mp hall u h

theorem nextCharacter?_of_ends (h : Ends (u :: rest)) :
    nextCharacter? (u :: rest) = some ([u], rest) := by
  obtain ⟨-, hhigh, -⟩ := isIdentifierPart_of_ends (ends_cons.mp h)
  cases rest with
  | nil => rfl
  | cons v rest => simp [nextCharacter?, hhigh]

theorem spanCharacters_of_ends (h : Ends rest) :
    spanCharacters isIdentifierPart rest = ([], rest) := by
  match rest with
  | [] => rfl
  | [u] => simp [spanCharacters, isIdentifierPart_of_ends (ends_cons.mp h)]
  | u :: v :: rest => simp [spanCharacters, isIdentifierPart_of_ends (ends_cons.mp h)]

theorem nextCharacter?_before {after : Text} (hrest : Ends rest)
    (h : nextCharacter? t = some (c, after)) :
    nextCharacter? (t ++ rest) = some (c, after ++ rest) := by
  match t with
  | [u] =>
    obtain ⟨rfl, rfl⟩ : [u] = c ∧ [] = after := by simpa [nextCharacter?] using h
    cases rest with
    | nil => rfl
    | cons v rest => simp [nextCharacter?, isIdentifierPart_of_ends (ends_cons.mp hrest)]
  | u :: v :: t =>
    simp only [List.cons_append, nextCharacter?] at h ⊢
    split at h
    · next hpair =>
      obtain ⟨rfl, rfl⟩ := Prod.mk.inj (Option.some.inj h)
      rw [if_pos hpair]
    · next hpair =>
      obtain ⟨rfl, rfl⟩ := Prod.mk.inj (Option.some.inj h)
      rw [if_neg hpair]
      rfl

theorem spanCharacters_before (hrest : Ends rest)
    (h : (spanCharacters isIdentifierPart t).2 = []) :
    spanCharacters isIdentifierPart (t ++ rest) = (t, rest) := by
  fun_induction spanCharacters isIdentifierPart t with
  | case1 => exact spanCharacters_of_ends hrest
  | case2 u hp =>
    cases rest with
    | nil => simp [spanCharacters, hp]
    | cons v rest =>
      simp [spanCharacters, hp, isIdentifierPart_of_ends (ends_cons.mp hrest),
        spanCharacters_of_ends hrest]
  | case3 => simp at h
  | case4 u v t hpair hp run ih => simp [spanCharacters, hpair, hp, ih h]
  | case5 => simp at h
  | case6 u v t hpair hp run ih =>
    have hrun := ih h
    rw [List.cons_append] at hrun
    simp [spanCharacters, hpair, hp, hrun]
  | case7 => simp at h

theorem identifierPrefix?_of_ends (h : Ends rest) : identifierPrefix? rest = none := by
  cases rest with
  | nil => rfl
  | cons u rest =>
    obtain ⟨hpart, -, -⟩ := isIdentifierPart_of_ends (ends_cons.mp h)
    have hopens : opensIdentifier u.toNat = false := by
      rw [Bool.eq_false_iff]
      exact fun hopens => Bool.eq_false_iff.mp hpart (isIdentifierPart_of_opens hopens)
    simp [identifierPrefix?, nextCharacter?_of_ends h, codePoint_singleton, hopens]

-- An identifier is read to its end in front of what ends it.
theorem identifierPrefix?_before (hrest : Ends rest)
    (h : identifierPrefix? name = some (name, [])) :
    identifierPrefix? (name ++ rest) = some (name, rest) := by
  unfold identifierPrefix? at h ⊢
  split at h
  · cases h
  · next c after hc =>
    rw [nextCharacter?_before hrest hc]
    split at h
    · next hopens =>
      obtain ⟨hn, hspan⟩ := Prod.mk.inj (Option.some.inj h)
      have hafter : (spanCharacters isIdentifierPart after).1 = after := by
        have happend := spanCharacters_append isIdentifierPart after
        rwa [hspan, List.append_nil] at happend
      rw [hafter] at hn
      simp only [hopens, if_true, spanCharacters_before hrest hspan, hn]
    · cases h

end RecordQuery.Text
