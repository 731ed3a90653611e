import RecordQuery.Proofs.Text.Delimited
import RecordQuery.Text.Search

/-!
Occurrences of one text in another. The pieces of a split are what lies between the occurrences that
are found from the left without overlap, they join to the text again, and replacing puts a filled in
replacement in the place of each of these occurrences. A replacement without marks is put in as it is.
-/

namespace RecordQuery.Text

variable {part replacement t piece rest : Text} {pieces : List Text}

-- The pieces of a text around a part: the last one does not hold it, and it occurs in front of the
-- others' ends nowhere before it ends them.
inductive Cut (part : Text) : Text → List Text → Prop
  | last {t : Text} (h : ¬part <:+: t) : Cut part t [t]
  | next {piece rest : Text} {pieces : List Text} (h : ¬part <:+: piece ++ part.dropLast)
      (hrest : Cut part rest pieces) : Cut part (piece ++ part ++ rest) (piece :: pieces)

theorem Cut.ne_nil (h : Cut part t pieces) : pieces ≠ [] := by
  cases h <;> exact List.cons_ne_nil _ _

theorem join_cons_cons (separator piece next : Text) (pieces : List Text) :
    join separator (piece :: next :: pieces) =
      piece ++ separator ++ join separator (next :: pieces) := by
  rw [join_cons, join_cons, List.flatMap_cons, List.append_assoc, List.append_assoc]

theorem Cut.join_eq (h : Cut part t pieces) : join part pieces = t := by
  induction h with
  | last h => simp [join_cons]
  | @next piece rest pieces h hrest ih =>
    obtain ⟨next, more, rfl⟩ := List.exists_cons_of_ne_nil hrest.ne_nil
    rw [join_cons_cons, ih]

theorem dropLast_prefix_append (piece part rest : Text) :
    piece ++ part.dropLast <+: piece ++ part ++ rest := by
  rw [List.append_assoc, List.prefix_append_right_inj]
  exact (List.dropLast_prefix part).trans (List.prefix_append part rest)

-- A text does not open with a part that first occurs later in it.
theorem not_prefix_of_first {u : UInt16} (h : ¬part <:+: u :: piece ++ part.dropLast) (rest : Text) :
    ¬part <+: u :: (piece ++ part ++ rest) := by
  intro hprefix
  have hlength : part.length ≤ (u :: piece ++ part.dropLast).length := by
    rw [List.length_append, List.length_cons, List.length_dropLast]
    omega
  have hbefore := dropLast_prefix_append (u :: piece) part rest
  exact h (List.prefix_of_prefix_length_le hprefix hbefore hlength).isInfix

theorem not_infix_tail {u : UInt16} (h : ¬part <:+: u :: t) : ¬part <:+: t := fun ht =>
  h (ht.trans (List.suffix_cons u t).isInfix)

theorem exists_first (hpart : part ≠ []) (h : part <:+: t) :
    ∃ piece rest, t = piece ++ part ++ rest ∧ ¬part <:+: piece ++ part.dropLast := by
  induction t with
  | nil => exact absurd (List.infix_nil.mp h) hpart
  | cons u t ih =>
    by_cases hprefix : part <+: u :: t
    · obtain ⟨rest, hrest⟩ := hprefix
      refine ⟨[], rest, hrest.symm, fun hbefore => ?_⟩
      have hlength := hbefore.length_le
      have hpos := List.length_pos_iff.mpr hpart
      rw [List.nil_append, List.length_dropLast] at hlength
      omega
    · obtain ⟨piece, rest, rfl, hfirst⟩ := ih ((List.infix_cons_iff.mp h).resolve_left hprefix)
      refine ⟨u :: piece, rest, rfl, fun hbefore => ?_⟩
      rw [List.cons_append, List.infix_cons_iff] at hbefore
      rcases hbefore with hopens | hinside
      · exact hprefix (hopens.trans (dropLast_prefix_append (u :: piece) part rest))
      · exact hfirst hinside

theorem exists_cut (hpart : part ≠ []) (t : Text) : ∃ pieces, Cut part t pieces := by
  induction hlength : t.length using Nat.strong_induction_on generalizing t with
  | _ n ih =>
    by_cases h : part <:+: t
    · obtain ⟨piece, rest, rfl, hfirst⟩ := exists_first hpart h
      have hpos := List.length_pos_iff.mpr hpart
      have hlt : rest.length < n := by
        rw [← hlength, List.length_append, List.length_append]
        omega
      obtain ⟨pieces, hpieces⟩ := ih rest.length hlt rest rfl
      exact ⟨piece :: pieces, .next hfirst hpieces⟩
    · exact ⟨[t], .last h⟩

-- The rest of an occurrence is passed over.
theorem splitFrom_skip (separator piece skipped rest : Text) :
    splitFrom separator skipped.length piece (skipped ++ rest) =
      splitFrom separator 0 piece rest := by
  induction skipped with
  | nil => rfl
  | cons u skipped ih => rw [List.length_cons, List.cons_append, splitFrom, ih]

theorem splitFrom_found (hpart : part ≠ []) (piece rest : Text) :
    splitFrom part 0 piece (part ++ rest) = piece.reverse :: splitFrom part 0 [] rest := by
  obtain ⟨u, tail, rfl⟩ := List.exists_cons_of_ne_nil hpart
  have hprefix : (u :: tail).isPrefixOf (u :: (tail ++ rest)) = true :=
    List.isPrefixOf_iff_prefix.mpr (List.prefix_append (u :: tail) rest)
  rw [List.cons_append, splitFrom, if_pos hprefix, List.length_cons, Nat.add_sub_cancel,
    splitFrom_skip]

theorem splitFrom_pass {u : UInt16} (h : ¬part <+: u :: t) (piece : Text) :
    splitFrom part 0 piece (u :: t) = splitFrom part 0 (u :: piece) t := by
  rw [splitFrom, if_neg (by rwa [List.isPrefixOf_iff_prefix])]

theorem splitFrom_first (hpart : part ≠ []) (h : ¬part <:+: piece ++ part.dropLast)
    (before rest : Text) :
    splitFrom part 0 before (piece ++ part ++ rest) =
      (before.reverse ++ piece) :: splitFrom part 0 [] rest := by
  induction piece generalizing before with
  | nil => rw [List.nil_append, splitFrom_found hpart, List.append_nil]
  | cons u piece ih =>
    rw [List.cons_append, List.cons_append, splitFrom_pass (not_prefix_of_first h rest),
      ih (not_infix_tail h), List.reverse_cons, List.append_assoc, List.singleton_append]

theorem splitFrom_last (h : ¬part <:+: t) (before : Text) :
    splitFrom part 0 before t = [before.reverse ++ t] := by
  induction t generalizing before with
  | nil => rw [splitFrom, List.append_nil]
  | cons u t ih =>
    rw [splitFrom_pass fun hprefix => h hprefix.isInfix, ih (not_infix_tail h),
      List.reverse_cons, List.append_assoc, List.singleton_append]

theorem Cut.split_eq (hpart : part ≠ []) (h : Cut part t pieces) : split part t = pieces := by
  induction h with
  | last h => exact splitFrom_last h []
  | next h hrest ih => rw [split, splitFrom_first hpart h [], ← split, ih, List.reverse_nil,
      List.nil_append]

theorem cut_split (hpart : part ≠ []) (t : Text) : Cut part t (split part t) := by
  obtain ⟨pieces, h⟩ := exists_cut hpart t
  rwa [h.split_eq hpart]

-- The pieces with the filled in replacement between neighbours; `before` is the text in front of
-- the first of them.
def filled (part replacement before : Text) : List Text → Text
  | [] => []
  | [piece] => piece
  | piece :: next :: pieces =>
    piece ++ expand (before ++ piece).reverse part (join part (next :: pieces)) replacement
      ++ filled part replacement (before ++ piece ++ part) (next :: pieces)

theorem replaceFrom_skip (part replacement seen skipped rest : Text) :
    replaceFrom part replacement skipped.length seen (skipped ++ rest) =
      replaceFrom part replacement 0 (skipped.reverse ++ seen) rest := by
  induction skipped generalizing seen with
  | nil => rfl
  | cons u skipped ih =>
    rw [List.length_cons, List.cons_append, replaceFrom, ih, List.reverse_cons, List.append_assoc,
      List.singleton_append]

theorem replaceFrom_found (hpart : part ≠ []) (replacement seen rest : Text) :
    replaceFrom part replacement 0 seen (part ++ rest) =
      expand seen part rest replacement
        ++ replaceFrom part replacement 0 (part.reverse ++ seen) rest := by
  obtain ⟨u, tail, rfl⟩ := List.exists_cons_of_ne_nil hpart
  have hprefix : (u :: tail).isPrefixOf (u :: (tail ++ rest)) = true :=
    List.isPrefixOf_iff_prefix.mpr (List.prefix_append (u :: tail) rest)
  have hafter : (u :: (tail ++ rest)).drop (u :: tail).length = rest  := List.drop_left
  rw [List.cons_append, replaceFrom, if_neg (by simp), if_pos hprefix, hafter, List.length_cons,
    Nat.add_sub_cancel, replaceFrom_skip, List.reverse_cons, List.append_assoc,
    List.singleton_append]

theorem replaceFrom_pass (hpart : part ≠ []) {u : UInt16} (h : ¬part <+: u :: t)
    (replacement seen : Text) :
    replaceFrom part replacement 0 seen (u :: t) =
      u :: replaceFrom part replacement 0 (u :: seen) t := by
  rw [replaceFrom, if_neg (by rwa [List.isEmpty_iff]), if_neg (by rwa [List.isPrefixOf_iff_prefix])]

theorem replaceFrom_first (hpart : part ≠ []) (h : ¬part <:+: piece ++ part.dropLast)
    (replacement seen rest : Text) :
    replaceFrom part replacement 0 seen (piece ++ part ++ rest) =
      piece ++ expand (piece.reverse ++ seen) part rest replacement
        ++ replaceFrom part replacement 0 (part.reverse ++ (piece.reverse ++ seen)) rest := by
  induction piece generalizing seen with
  | nil => rw [List.nil_append, replaceFrom_found hpart, List.reverse_nil, List.nil_append,
      List.nil_append]
  | cons u piece ih =>
    rw [List.cons_append, List.cons_append, replaceFrom_pass hpart (not_prefix_of_first h rest),
      ih (not_infix_tail h), List.reverse_cons, List.append_assoc, List.append_assoc,
      List.append_assoc, List.singleton_append]
    rfl

theorem replaceFrom_last (hpart : part ≠ []) (h : ¬part <:+: t) (replacement seen : Text) :
    replaceFrom part replacement 0 seen t = t := by
  induction t generalizing seen with
  | nil => rw [replaceFrom, if_neg (by rwa [List.isEmpty_iff])]
  | cons u t ih =>
    rw [replaceFrom_pass hpart fun hprefix => h hprefix.isInfix, ih (not_infix_tail h)]

-- Replacing goes through the same occurrences as splitting.
theorem Cut.replaceFrom_eq (hpart : part ≠ []) (h : Cut part t pieces)
    (replacement before : Text) :
    replaceFrom part replacement 0 before.reverse t = filled part replacement before pieces := by
  induction h generalizing before with
  | last h => exact replaceFrom_last hpart h replacement _
  | @next piece rest pieces h hrest ih =>
    obtain ⟨next, more, rfl⟩ := List.exists_cons_of_ne_nil hrest.ne_nil
    rw [replaceFrom_first hpart h, filled, hrest.join_eq, ← ih]
    simp only [List.reverse_append, List.append_assoc]

-- A dollar sign in front of one of these units is a mark: another one, an ampersand, a grave accent,
-- an apostrophe.
def marks : List UInt16 := [36, 38, 96, 39]

def HasMark (replacement : Text) : Prop := ∃ mark ∈ marks, [36, mark] <:+: replacement

theorem hasMark_of_tail {u : UInt16} (h : HasMark t) : HasMark (u :: t) := by
  obtain ⟨mark, hmark, hinfix⟩ := h
  exact ⟨mark, hmark, hinfix.trans (List.suffix_cons u t).isInfix⟩

theorem hasMark_of_head {mark : UInt16} (hmark : mark ∈ marks) : HasMark (36 :: mark :: t) :=
  ⟨mark, hmark, (List.prefix_append [36, mark] t).isInfix⟩

-- Where no mark stands in front, every mark is in what follows.
theorem HasMark.tail {u : UInt16} (h : HasMark (u :: t))
    (hhead : ∀ mark ∈ marks, ¬[36, mark] <+: u :: t) : HasMark t := by
  obtain ⟨mark, hmark, hinfix⟩ := h
  exact ⟨mark, hmark, (List.infix_cons_iff.mp hinfix).resolve_left (hhead mark hmark)⟩

theorem expand_eq_self (seen found after : Text) (h : ¬HasMark replacement) :
    expand seen found after replacement = replacement := by
  fun_induction expand seen found after replacement with
  | case1 rest ih => exact absurd (hasMark_of_head (by decide)) h
  | case2 rest ih => exact absurd (hasMark_of_head (by decide)) h
  | case3 rest ih => exact absurd (hasMark_of_head (by decide)) h
  | case4 rest ih => exact absurd (hasMark_of_head (by decide)) h
  | case5 u rest _ _ _ _ ih => rw [ih fun hrest => h (hasMark_of_tail hrest)]
  | case6 => rfl

theorem filled_eq_join (h : ¬HasMark replacement) (part before : Text) (pieces : List Text) :
    filled part replacement before pieces = join replacement pieces := by
  induction pieces generalizing before with
  | nil => rfl
  | cons piece pieces ih =>
    cases pieces with
    | nil => simp [filled, join_cons]
    | cons next pieces => rw [filled, join_cons_cons, expand_eq_self _ _ _ h, ih]

theorem length_expand_le (u : UInt16) (replacement : Text) :
    (expand [] [u] [] replacement).length ≤ replacement.length := by
  fun_induction expand [] [u] [] replacement <;> simp <;> omega

-- A mark takes two units, and for one unit that is found at most one comes in their place.
theorem length_expand_lt (u : UInt16) (h : HasMark replacement) :
    (expand [] [u] [] replacement).length < replacement.length := by
  have hle := length_expand_le u
  fun_induction expand [] [u] [] replacement with
  | case1 rest ih =>
    have hrest := hle rest
    simp only [List.length_cons]
    omega
  | case2 rest ih =>
    have hrest := hle rest
    simp only [List.length_append, List.length_cons, List.length_nil]
    omega
  | case3 rest ih =>
    have hrest := hle rest
    simp only [List.reverse_nil, List.nil_append, List.length_cons]
    omega
  | case4 rest ih =>
    have hrest := hle rest
    simp only [List.nil_append, List.length_cons]
    omega
  | case5 v rest hdollar hfound hbefore hafter ih =>
    have hrest : HasMark rest := h.tail fun mark hmark hprefix => by
      obtain ⟨tail, htail⟩ := hprefix
      obtain ⟨rfl, rfl⟩ := List.cons_eq_cons.mp htail
      simp only [marks, List.mem_cons, List.not_mem_nil, or_false] at hmark
      rcases hmark with rfl | rfl | rfl | rfl
      · exact hdollar tail rfl rfl
      · exact hfound tail rfl rfl
      · exact hbefore tail rfl rfl
      · exact hafter tail rfl rfl
    have hlt := ih hrest
    simp only [List.length_cons]
    omega
  | case6 =>
    obtain ⟨mark, -, hinfix⟩ := h
    cases List.infix_nil.mp hinfix

end RecordQuery.Text
