import RecordQuery.Proofs.Text.Character
import RecordQuery.Proofs.Text.Front

/-!
The identifier form of a text is an identifier, whatever units the text has: none of its characters
is another than in an identifier, and the first may start one.
-/

namespace RecordQuery.Text

variable {inRun : Bool} {u : UInt16} {t c rest : Text} {cs : List Text}

-- All characters may stand in an identifier.
def IsIdentifierText (t : Text) : Prop :=
  ∀ c ∈ characters t, isIdentifierPart (codePoint c) = true

theorem characters_cons_of_not_isHigh (h : isHigh u = false) (t : Text) :
    characters (u :: t) = [u] :: characters t :=
  characters_of_nextCharacter? (nextCharacter?_of_not_isHigh h t)

theorem exists_nextCharacter? (h : characters t = c :: cs) :
    ∃ rest, nextCharacter? t = some (c, rest) := by
  cases hnext : nextCharacter? t with
  | some a =>
    rw [characters_of_nextCharacter? hnext] at h
    exact ⟨a.2, by rw [← (List.cons.inj h).1]⟩
  | none =>
    match t with
    | [] => cases h
    | [u] => cases hnext
    | u :: v :: rest =>
      rw [nextCharacter?] at hnext
      split at hnext <;> cases hnext

-- A character of an identifier is no half of a pair, so that nothing behind it joins it.
theorem characters_append_of_isIdentifierPart (hc : characters c = [c])
    (hpart : isIdentifierPart (codePoint c) = true) (t : Text) :
    characters (c ++ t) = c :: characters t := by
  match c with
  | [] => cases hc
  | [u] =>
    rw [codePoint_singleton] at hpart
    have hhigh := isHigh_eq_false_of_pos isIdentifierPart_of_isSurrogate hpart
    exact characters_cons_of_not_isHigh hhigh t
  | u :: v :: rest =>
    rw [characters] at hc
    split at hc
    · next hpair =>
      obtain rfl : rest = [] := by simpa using (List.cons.inj hc).1
      simp [characters, hpair]
    · cases (List.cons.inj hc).1

theorem isIdentifierText_underscored (hcs : ∀ c ∈ cs, characters c = [c]) :
    IsIdentifierText (underscored inRun cs) := by
  induction cs generalizing inRun with
  | nil => nofun
  | cons c cs ih =>
    obtain ⟨hc, hcs⟩ := List.forall_mem_cons.mp hcs
    rw [underscored]
    split
    · next hpart =>
      rw [IsIdentifierText, characters_append_of_isIdentifierPart hc hpart]
      exact List.forall_mem_cons.mpr ⟨hpart, ih hcs⟩
    · split
      · exact ih hcs
      · rw [IsIdentifierText, characters_cons_of_not_isHigh (by decide)]
        exact List.forall_mem_cons.mpr ⟨by decide, ih hcs⟩

theorem IsIdentifierText.spanCharacters_eq (h : IsIdentifierText t) :
    spanCharacters isIdentifierPart t = (t, []) := by
  unfold IsIdentifierText at h
  fun_induction characters t with
  | case1 => rfl
  | case2 u =>
    have hu := List.forall_mem_singleton.mp h
    rw [codePoint_singleton] at hu
    rw [spanCharacters, if_pos hu]
  | case3 u v rest hpair ih =>
    obtain ⟨hc, hrest⟩ := List.forall_mem_cons.mp h
    simp only [spanCharacters, hpair, if_true, hc, ih hrest]
  | case4 u v rest hpair ih =>
    obtain ⟨hu, hrest⟩ := List.forall_mem_cons.mp h
    rw [codePoint_singleton] at hu
    rw [spanCharacters_cons_of_pos isIdentifierPart_of_isSurrogate hu, ih hrest]

theorem IsIdentifierText.identifierPrefix?_eq (h : IsIdentifierText t)
    (hnext : nextCharacter? t = some (c, rest)) (hopens : opensIdentifier (codePoint c) = true) :
    identifierPrefix? t = some (t, []) := by
  have hrest : IsIdentifierText rest := by
    rw [IsIdentifierText, characters_of_nextCharacter? hnext] at h
    exact (List.forall_mem_cons.mp h).2
  simp only [identifierPrefix?, hnext, hopens, if_true, hrest.spanCharacters_eq,
    (nextCharacter?_append hnext).1]

-- Whatever the key is.
theorem identifierPrefix?_identifierOf (key : Text) :
    identifierPrefix? (identifierOf key) = some (identifierOf key, []) := by
  have hname : IsIdentifierText (underscored false (characters key)) :=
    isIdentifierText_underscored fun c hc => characters_of_mem hc
  unfold identifierOf
  dsimp only
  split
  · decide
  · next c cs hcharacters =>
    split
    · next hopens =>
      obtain ⟨rest, hnext⟩ := exists_nextCharacter? hcharacters
      exact hname.identifierPrefix?_eq hnext hopens
    · refine IsIdentifierText.identifierPrefix?_eq ?_
        (nextCharacter?_of_not_isHigh (u := 95) (by decide) _) (by decide)
      rw [IsIdentifierText, characters_cons_of_not_isHigh (by decide)]
      exact List.forall_mem_cons.mpr ⟨by decide, hname⟩

end RecordQuery.Text
