import Mathlib.Data.List.DropRight
import Mathlib.Tactic
import RecordQuery.Proofs.Text.Quoted

/-!
The characters of a text and its ends. A text cut between two characters has the characters of its
parts, and units that are characters of their own are dropped from its ends just as these characters
are from the ends of the list of its characters.
-/

namespace RecordQuery

section

variable {α : Type} {p q : α → Bool} {l kept before after : List α}

-- The list without the longest run of items in `p` at its start and then the longest at its end.
def dropEnds (p : α → Bool) (l : List α) : List α := (l.dropWhile p).rdropWhile p

-- The item is first or last.
def AtEnd (a : α) (l : List α) : Prop := l.head? = some a ∨ l.getLast? = some a

def EndsOutside (p : α → Bool) (l : List α) : Prop := ∀ a, p a = true → ¬AtEnd a l

-- What is dropped at both ends, and what is left.
theorem exists_dropEnds (p : α → Bool) (l : List α) :
    ∃ before after, l = before ++ dropEnds p l ++ after ∧ ∀ a ∈ before ++ after, p a = true := by
  refine ⟨l.takeWhile p, (l.dropWhile p).rtakeWhile p, ?_, fun a ha => ?_⟩
  · rw [dropEnds, List.append_assoc, List.rdropWhile_append_rtakeWhile,
      List.takeWhile_append_dropWhile]
  · rw [List.mem_append] at ha
    cases ha with
    | inl hbefore => exact List.mem_takeWhile_imp hbefore
    | inr hafter => exact List.mem_rtakeWhile_imp hafter

theorem dropEnds_eq (hends : EndsOutside p kept) (hdropped : ∀ a ∈ before ++ after, p a = true) :
    dropEnds p (before ++ kept ++ after) = kept := by
  rw [List.forall_mem_append] at hdropped
  obtain ⟨hbefore, hafter⟩ := hdropped
  have hfront : (before ++ kept ++ after).dropWhile p = (kept ++ after).dropWhile p := by
    rw [List.append_assoc, List.dropWhile_append_of_pos hbefore]
  rw [dropEnds, hfront]
  cases kept with
  | nil =>
    rw [List.nil_append, List.dropWhile_eq_nil_iff.mpr hafter, List.rdropWhile_nil]
  | cons first rest =>
    have hfirst : ¬p first = true := fun h => hends first h (.inl rfl)
    rw [List.cons_append, List.dropWhile_cons_of_neg hfirst, ← List.cons_append, List.rdropWhile,
      List.reverse_append, List.dropWhile_append_of_pos fun a ha => hafter a (List.mem_reverse.mp ha)]
    rw [← List.rdropWhile, List.rdropWhile_eq_self_iff]
    intro hne hlast
    exact hends _ hlast (.inr (List.getLast?_eq_some_getLast hne))

theorem endsOutside_dropEnds (p : α → Bool) (l : List α) : EndsOutside p (dropEnds p l) := by
  intro a ha hend
  cases hend with
  | inl hhead =>
    obtain ⟨rest, hrest⟩ := List.head?_eq_some_iff.mp hhead
    obtain ⟨tail, htail⟩ := List.rdropWhile_prefix p (l.dropWhile p)
    have hnot := List.head?_dropWhile_not p l
    rw [dropEnds] at hrest
    rw [← htail, hrest, List.cons_append, List.head?_cons] at hnot
    change p a = false at hnot
    rw [ha] at hnot
    cases hnot
  | inr hlast =>
    have hne : dropEnds p l ≠ [] := by
      intro hnil
      rw [hnil] at hlast
      cases hlast
    rw [List.getLast?_eq_some_getLast hne, Option.some.injEq] at hlast
    rw [← hlast] at ha
    exact List.rdropWhile_last_not p (l.dropWhile p) hne ha

theorem dropEnds_eq_self (h : EndsOutside p l) : dropEnds p l = l := by
  have hkept : dropEnds p ([] ++ l ++ []) = l := dropEnds_eq h nofun
  rwa [List.nil_append, List.append_nil] at hkept

theorem endsOutside_singleton {a : α} (h : ¬p a = true) : EndsOutside p [a] := by
  intro b hb hend
  have heq : a = b := Option.some.inj (or_self_iff.mp hend)
  exact h (heq ▸ hb)

-- More items to drop make no difference where none of them is left at an end.
theorem dropEnds_eq_dropEnds_iff (hpq : ∀ a, p a = true → q a = true) :
    dropEnds p l = dropEnds q l ↔ EndsOutside q (dropEnds p l) := by
  constructor
  · intro h
    rw [h]
    exact endsOutside_dropEnds q l
  · intro h
    obtain ⟨before, after, hl, hdropped⟩ := exists_dropEnds p l
    have hkept := dropEnds_eq h fun a ha => hpq a (hdropped a ha)
    rw [← hl] at hkept
    exact hkept.symm

end

namespace Text

variable {t : Text}

-- A unit behind a text is a character alone, or the second half of the last one.
theorem characters_concat (t : Text) (v : UInt16) :
    characters (t ++ [v]) = characters t ++ [[v]] ∨
      ∃ before u, isHigh u = true ∧ isLow v = true ∧ characters t = before ++ [[u]] ∧
        characters (t ++ [v]) = before ++ [[u, v]] := by
  fun_induction characters t with
  | case1 => exact .inl rfl
  | case2 u =>
    by_cases h : (isHigh u && isLow v) = true
    · obtain ⟨hu, hv⟩ := Bool.and_eq_true_iff.mp h
      exact .inr ⟨[], u, hu, hv, rfl, by simp [characters, h]⟩
    · exact .inl (by simp [characters, h])
  | case3 u w rest h ih =>
    simp only [List.cons_append, characters, h, if_true]
    rcases ih with ih | ⟨before, x, hx, hv, hbefore, ih⟩
    · exact .inl (by rw [ih])
    · exact .inr ⟨[u, w] :: before, x, hx, hv, by rw [hbefore]; rfl, by rw [ih]; rfl⟩
  | case4 u w rest h ih =>
    simp only [List.cons_append, characters, h] at ih ⊢
    rcases ih with ih | ⟨before, x, hx, hv, hbefore, ih⟩
    · exact .inl (by simp [ih])
    · exact .inr ⟨[u] :: before, x, hx, hv, by rw [hbefore]; rfl, by simp [ih]⟩

-- A unit that makes no pair with the one behind it stays alone in front of the characters up to a cut:
-- these still open with that unit, if there are any.
theorem characters_cons_flatten {u v : UInt16} {rest : Text} {before after : List Text}
    (hpair : ¬(isHigh u && isLow v) = true) (hrest : characters (v :: rest) = before ++ after)
    (hbefore : characters before.flatten = before) :
    characters (u :: before.flatten) = [u] :: before := by
  cases hflat : before.flatten with
  | nil =>
    rw [hflat] at hbefore
    rw [← hbefore]
    rfl
  | cons w tail =>
    have hw : v = w := by
      have htext := congrArg List.flatten hrest
      rw [flatten_characters, List.flatten_append, hflat, List.cons_append] at htext
      exact (List.cons_eq_cons.mp htext).1
    subst hw
    rw [characters, if_neg hpair, ← hflat, hbefore]

-- Wherever a text is cut between two characters, its characters are those of the two parts.
theorem characters_flatten_of_append {before after : List Text}
    (h : characters t = before ++ after) :
    characters before.flatten = before ∧ characters after.flatten = after := by
  induction before generalizing t with
  | nil =>
    rw [List.nil_append] at h
    rw [← h, flatten_characters]
    exact ⟨rfl, rfl⟩
  | cons c before ih =>
    rw [List.cons_append] at h
    fun_cases characters t with
    | case1 => cases h
    | case2 u =>
      obtain ⟨rfl, hnil⟩ := List.cons_eq_cons.mp h
      obtain ⟨rfl, rfl⟩ := List.append_eq_nil_iff.mp hnil.symm
      exact ⟨rfl, rfl⟩
    | case3 u v rest hpair =>
      rw [characters, if_pos hpair] at h
      obtain ⟨rfl, hrest⟩ := List.cons_eq_cons.mp h
      obtain ⟨hbefore, hafter⟩ := ih hrest
      refine ⟨?_, hafter⟩
      simp [characters, hpair, hbefore]
    | case4 u v rest hpair =>
      rw [characters, if_neg hpair] at h
      obtain ⟨rfl, hrest⟩ := List.cons_eq_cons.mp h
      obtain ⟨hbefore, hafter⟩ := ih hrest
      refine ⟨?_, hafter⟩
      rw [List.flatten_cons, List.singleton_append]
      exact characters_cons_flatten hpair hrest hbefore

theorem characters_flatten_dropEnds (p : Text → Bool) (t : Text) :
    characters (dropEnds p (characters t)).flatten = dropEnds p (characters t) := by
  obtain ⟨before, after, h, -⟩ := exists_dropEnds p (characters t)
  have hfront := (characters_flatten_of_append h).1
  exact (characters_flatten_of_append hfront).2

theorem dropAround_eq_dropEnds (p : UInt16 → Bool) (t : Text) : dropAround p t = dropEnds p t := rfl

-- A character of one unit that is in `p`.
def isSingle (p : UInt16 → Bool) : Text → Bool
  | [u] => p u
  | _ => false

section

variable {p : UInt16 → Bool} (hp : ∀ u, p u = true → isSurrogate u = false)

include hp

theorem characters_dropWhile (t : Text) :
    characters (t.dropWhile p) = (characters t).dropWhile (isSingle p) := by
  fun_induction characters t with
  | case1 => rfl
  | case2 u => by_cases h : p u = true <;> simp [h, isSingle, characters]
  | case3 u v rest h ih =>
    have hu : ¬p u = true := fun hpu => by
      rw [Bool.and_eq_true] at h
      exact absurd (isSurrogate_of_isHigh h.1) (by simp [hp u hpu])
    simp [hu, isSingle, characters, h]
  | case4 u v rest h ih =>
    by_cases hpu : p u = true
    · simp [hpu, isSingle, ih]
    · simp [hpu, isSingle, characters, h]

theorem characters_rdropWhile (t : Text) :
    characters (t.rdropWhile p) = (characters t).rdropWhile (isSingle p) := by
  induction t using List.reverseRecOn with
  | nil => rfl
  | append_singleton t v ih =>
    by_cases hv : p v = true
    · rw [List.rdropWhile_concat_pos _ _ _ hv, ih]
      rcases characters_concat t v with h | ⟨before, u, -, hlow, -, -⟩
      · rw [h, List.rdropWhile_concat_pos (isSingle p) _ [v] hv]
      · exact absurd (isSurrogate_of_isLow hlow) (by simp [hp v hv])
    · rw [List.rdropWhile_concat_neg _ _ _ hv]
      rcases characters_concat t v with h | ⟨before, u, -, -, -, h⟩
      · rw [h, List.rdropWhile_concat_neg (isSingle p) _ [v] hv]
      · rw [h, List.rdropWhile_concat_neg (isSingle p) _ [u, v] nofun]

theorem characters_dropAround (t : Text) :
    characters (dropAround p t) = dropEnds (isSingle p) (characters t) := by
  rw [dropAround_eq_dropEnds, dropEnds, dropEnds, characters_rdropWhile hp, characters_dropWhile hp]

end

-- A text without the longest run of characters of `chars` at its start and then the longest at its
-- end.
def stripped (chars t : Text) : Text :=
  (dropEnds (fun c => chars.characters.contains c) t.characters).flatten

theorem characters_of_mem {chars c : Text} (hc : c ∈ chars.characters) : characters c = [c] := by
  obtain ⟨before, after, h⟩ := List.append_of_mem hc
  have hrest := (characters_flatten_of_append h).2
  have hone : characters [c].flatten = [c] := (characters_flatten_of_append hrest).1
  rwa [List.flatten_singleton] at hone

theorem ne_nil_of_mem_characters {chars c : Text} (hc : c ∈ chars.characters) : c ≠ [] := by
  rintro rfl
  have hnil := characters_of_mem hc
  cases hnil

theorem characters_injective : Function.Injective characters := by
  intro s t h
  rw [← flatten_characters s, ← flatten_characters t, h]

-- The units that are characters of `chars` alone.
def isUnitOf (chars : Text) (u : UInt16) : Bool := chars.characters.contains [u]

section

variable {chars : Text}

theorem isSingle_iff {c : Text} :
    isSingle (isUnitOf chars) c = true ↔ c ∈ chars.characters ∧ c.length = 1 := by
  cases c with
  | nil => simp [isSingle]
  | cons u tail =>
    cases tail with
    | nil => simp [isSingle, isUnitOf]
    | cons v tail => simp [isSingle]

variable (h : chars.isWellFormed = true)

include h

theorem isSurrogate_of_isUnitOf {u : UInt16} (hu : isUnitOf chars u = true) :
    isSurrogate u = false := by
  have hc := List.all_eq_true.mp h [u] (List.contains_iff_mem.mp hu)
  simpa using hc

theorem characters_dropAround_isUnitOf (t : Text) :
    characters (dropAround (isUnitOf chars) t) =
      dropEnds (isSingle (isUnitOf chars)) (characters t) :=
  characters_dropAround (fun _ => isSurrogate_of_isUnitOf h) t

theorem isWellFormed_of_mem {c : Text} (hc : c ∈ chars.characters) : c.isWellFormed = true := by
  rw [isWellFormed, characters_of_mem hc, List.all_cons, List.all_nil, Bool.and_true]
  exact List.all_eq_true.mp h c hc

-- What is left is right just if no character to strip is at an end of it.
theorem dropAround_eq_stripped_iff (t : Text) :
    dropAround (isUnitOf chars) t = stripped chars t ↔
      ∀ c ∈ chars.characters, ¬AtEnd c (dropAround (isUnitOf chars) t).characters := by
  have hmore : ∀ c, isSingle (isUnitOf chars) c = true → chars.characters.contains c = true :=
    fun c hc => List.contains_iff_mem.mpr (isSingle_iff.mp hc).1
  rw [← characters_injective.eq_iff, stripped, characters_flatten_dropEnds,
    characters_dropAround_isUnitOf h, dropEnds_eq_dropEnds_iff hmore]
  simp only [EndsOutside, List.contains_iff_mem]

theorem not_atEnd_dropAround (t : Text) {c : Text} (hc : c ∈ chars.characters)
    (hlength : c.length = 1) : ¬AtEnd c (dropAround (isUnitOf chars) t).characters := by
  rw [characters_dropAround_isUnitOf h]
  exact endsOutside_dropEnds _ _ c (isSingle_iff.mpr ⟨hc, hlength⟩)

-- A character of two units is left where it is.
theorem dropAround_of_mem {c : Text} (hc : c ∈ chars.characters) (hlength : c.length ≠ 1) :
    dropAround (isUnitOf chars) c = c ∧ stripped chars c = [] := by
  have hone := characters_of_mem hc
  have hnot : isSingle (isUnitOf chars) c ≠ true := fun hsingle => hlength (isSingle_iff.mp hsingle).2
  constructor
  · apply characters_injective
    rw [characters_dropAround_isUnitOf h, hone]
    exact dropEnds_eq_self (endsOutside_singleton hnot)
  · simp [stripped, hone, dropEnds, hc]

end

end Text

end RecordQuery
