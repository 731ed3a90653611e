import Mathlib.Data.List.TakeWhile
import Mathlib.Tactic
import RecordQuery.Proofs.Text.Delimited
import RecordQuery.Text.Lines

/-!
Blanks around texts and the ends of lines. Trimming leaves what is not blank, lines written one after
another, each with a line feed behind it, are cut into the same lines again, and the lines of a text
are its pieces between line feeds, without the carriage returns in front of these.
-/

namespace RecordQuery.Text

variable {t rest : Text} {u : UInt16}

theorem trim_eq_self (h : ∀ u ∈ t, isBlank u = false) : t.trim = t := by
  have hdrop : ∀ s : Text, (∀ u ∈ s, isBlank u = false) → s.dropWhile isBlank = s := fun s hs =>
    List.dropWhile_eq_self_iff.mpr fun hlength => by simp [hs _ (List.getElem_mem hlength)]
  have hreverse : ∀ u ∈ t.reverse, isBlank u = false := fun u hu => h u (List.mem_reverse.mp hu)
  rw [trim, dropAround, hdrop t h, dropEndWhile, hdrop _ hreverse, List.reverse_reverse]

theorem mem_dropWhile (hu : u ∈ t) (h : isBlank u = false) : u ∈ t.dropWhile isBlank := by
  rw [← List.takeWhile_append_dropWhile (p := isBlank) (l := t), List.mem_append] at hu
  refine hu.resolve_left fun hmem => ?_
  rw [List.mem_takeWhile_imp hmem] at h
  cases h

theorem mem_trim (hu : u ∈ t) (h : isBlank u = false) : u ∈ t.trim := by
  rw [trim, dropAround, dropEndWhile, List.mem_reverse]
  exact mem_dropWhile (List.mem_reverse.mpr (mem_dropWhile hu h)) h

-- Neither a line feed nor a carriage return is in the text.
def OneLine (t : Text) : Prop := ∀ u ∈ t, u ≠ 10 ∧ u ≠ 13

instance (t : Text) : Decidable t.OneLine := List.decidableBAll (fun u => u ≠ 10 ∧ u ≠ 13) t

theorem oneLine_cons : OneLine (u :: t) ↔ (u ≠ 10 ∧ u ≠ 13) ∧ OneLine t := List.forall_mem_cons

theorem oneLine_append : OneLine (t ++ rest) ↔ OneLine t ∧ OneLine rest := List.forall_mem_append

theorem oneLine_nil : OneLine [] := by decide

theorem oneLine_flatMap {α : Type} {parts : List α} {f : α → Text}
    (h : ∀ part ∈ parts, OneLine (f part)) : OneLine (parts.flatMap f) := by
  intro u hu
  obtain ⟨part, hpart, hu⟩ := List.mem_flatMap.mp hu
  exact h part hpart u hu

theorem oneLine_concat {parts : List Text} (h : ∀ part ∈ parts, OneLine part) :
    OneLine (concat parts) := by
  intro u hu
  obtain ⟨part, hpart, hu⟩ := List.mem_flatten.mp hu
  exact h part hpart u hu

theorem oneLine_enclosed {opening closing : Text} (hopening : OneLine opening) (ht : OneLine t)
    (hclosing : OneLine closing) : OneLine (concat [opening, t, closing]) :=
  oneLine_concat (List.forall_mem_cons.mpr ⟨hopening,
    List.forall_mem_cons.mpr ⟨ht, List.forall_mem_singleton.mpr hclosing⟩⟩)

theorem oneLine_join {separator : Text} {parts : List Text} (hseparator : OneLine separator)
    (h : ∀ part ∈ parts, OneLine part) : OneLine (join separator parts) := by
  cases parts with
  | nil => exact oneLine_nil
  | cons part parts =>
    rw [List.forall_mem_cons] at h
    rw [join_cons, oneLine_append]
    exact ⟨h.1, oneLine_flatMap fun next hnext => oneLine_append.mpr ⟨hseparator, h.2 next hnext⟩⟩

-- Units that end no line go to the line under way.
theorem cutLines_unit {u : UInt16} (hfeed : u ≠ 10) (hreturn : u ≠ 13) (returnEnds : Bool)
    (line t : Text) : cutLines returnEnds line (u :: t) = cutLines returnEnds (u :: line) t := by
  rw [cutLines.eq_4 _ _ _ _ hfeed fun _ heq => absurd heq hreturn]
  simp [hreturn]

theorem cutLines_append {returnEnds : Bool} {line : Text} (h : t.OneLine) :
    cutLines returnEnds line (t ++ rest) = cutLines returnEnds (t.reverse ++ line) rest := by
  induction t generalizing line with
  | nil => rfl
  | cons u t ih =>
    obtain ⟨⟨hfeed, hreturn⟩, ht⟩ := List.forall_mem_cons.mp h
    rw [List.cons_append, cutLines_unit hfeed hreturn, ih ht, List.reverse_cons, List.append_assoc,
      List.singleton_append]

theorem cutLines_feed (returnEnds : Bool) (line t : Text) : cutLines returnEnds line (10 :: t) =
    (line.reverse :: (cutLines returnEnds [] t).1, (cutLines returnEnds [] t).2) := rfl

theorem cutLines_return_feed (returnEnds : Bool) (line t : Text) :
    cutLines returnEnds line (13 :: 10 :: t) =
      (line.reverse :: (cutLines returnEnds [] t).1, (cutLines returnEnds [] t).2) := rfl

theorem cutLines_lone_return (line : Text) (h : t.head? ≠ some 10) :
    cutLines false line (13 :: t) = cutLines false (13 :: line) t := by
  rw [cutLines.eq_4 _ _ _ _ (by decide)]
  · rfl
  · rintro rest - rfl
    exact h rfl

-- A text by the ends of lines in it, and the other units one by one.
theorem ends_induction {motive : Text → Prop} (nil : motive [])
    (feed : ∀ t, motive t → motive (10 :: t)) (pair : ∀ t, motive t → motive (13 :: 10 :: t))
    (lone : ∀ t, t.head? ≠ some 10 → motive t → motive (13 :: t))
    (unit : ∀ u t, u ≠ 10 → u ≠ 13 → motive t → motive (u :: t)) (t : Text) : motive t := by
  induction hlength : t.length using Nat.strong_induction_on generalizing t with
  | _ n ih =>
    cases t with
    | nil => exact nil
    | cons u t =>
      have htail : motive t := ih _ (by simp [← hlength]) t rfl
      by_cases hfeed : u = 10
      · exact hfeed ▸ feed t htail
      by_cases hreturn : u = 13
      · subst hreturn
        by_cases hhead : t.head? = some 10
        · obtain ⟨rest, rfl⟩ := List.head?_eq_some_iff.mp hhead
          exact pair rest (ih _ (by simp [← hlength]) rest rfl)
        · exact lone t hhead htail
      · exact unit u t hfeed hreturn htail

theorem allLines_flatMap (returnEnds : Bool) {lines : List Text} (h : ∀ line ∈ lines, line.OneLine) :
    allLines returnEnds (lines.flatMap (· ++ [10])) = lines := by
  have hcut : cutLines returnEnds [] (lines.flatMap (· ++ [10])) = (lines, []) := by
    induction lines with
    | nil => rfl
    | cons line lines ih =>
      obtain ⟨hline, hlines⟩ := List.forall_mem_cons.mp h
      rw [List.flatMap_cons, List.append_assoc, cutLines_append hline, List.singleton_append,
        cutLines, ih hlines]
      simp
  rw [allLines, hcut]
  exact List.append_nil lines

-- Every carriage return is followed by a line feed.
def ReturnsPaired (t : Text) : Prop :=
  ∀ before after, t = before ++ 13 :: after → after.head? = some 10

theorem returnsPaired_unit {u : UInt16} (h : u ≠ 13) :
    ReturnsPaired (u :: t) ↔ ReturnsPaired t := by
  constructor
  · rintro hpaired before after rfl
    exact hpaired (u :: before) after rfl
  · intro hpaired before after ht
    cases before with
    | nil => exact absurd (List.cons.inj ht).1 h
    | cons v before => exact hpaired before after (List.cons.inj ht).2

theorem returnsPaired_return :
    ReturnsPaired (13 :: t) ↔ t.head? = some 10 ∧ ReturnsPaired t := by
  constructor
  · intro hpaired
    refine ⟨hpaired [] t rfl, ?_⟩
    rintro before after rfl
    exact hpaired (13 :: before) after rfl
  · rintro ⟨hhead, hpaired⟩ before after ht
    cases before with
    | nil => exact (List.cons.inj ht).2 ▸ hhead
    | cons v before => exact hpaired before after (List.cons.inj ht).2

-- If they all are, the two ways to cut a text are one. Else some line that a text at hand is cut into
-- has a carriage return in it.
theorem allLines_of_returnsPaired (h : ReturnsPaired t) : allLines true t = lines t := by
  have hcut : ∀ line, cutLines true line t = cutLines false line t := by
    induction t using ends_induction with
    | nil => exact fun line => rfl
    | feed t ih =>
      rw [returnsPaired_unit (by decide)] at h
      intro line
      rw [cutLines_feed, cutLines_feed, ih h]
    | pair t ih =>
      rw [returnsPaired_return, returnsPaired_unit (by decide)] at h
      intro line
      rw [cutLines_return_feed, cutLines_return_feed, ih h.2]
    | lone t hhead ih => exact absurd (returnsPaired_return.mp h).1 hhead
    | unit u t hfeed hreturn ih =>
      rw [returnsPaired_unit hreturn] at h
      intro line
      rw [cutLines_unit hfeed hreturn, cutLines_unit hfeed hreturn, ih h]
  rw [lines, allLines, allLines, hcut]

-- The lines from the one under way on, with a carriage return left in one of them.
def KeepsReturn (line t : Text) : Prop :=
  ∃ l ∈ (cutLines false line t).1 ++ lastLine (cutLines false line t).2, 13 ∈ l

-- The line that ends here has the carriage return itself, or it comes in a later line.
theorem exists_return_of_ended {line : Text} (h : 13 ∈ line ∨ KeepsReturn [] t) :
    ∃ l ∈ (line.reverse :: (cutLines false [] t).1) ++ lastLine (cutLines false [] t).2, 13 ∈ l := by
  rcases h with hline | ⟨l, hl, hmem⟩
  · exact ⟨line.reverse, List.mem_cons_self, List.mem_reverse.mpr hline⟩
  · exact ⟨l, List.mem_cons_of_mem _ hl, hmem⟩

theorem keepsReturn {line : Text} (h : 13 ∈ line ∨ ¬ReturnsPaired t) : KeepsReturn line t := by
  induction t using ends_induction generalizing line with
  | nil =>
    rcases h with hline | ht
    · refine ⟨line.reverse, ?_, List.mem_reverse.mpr hline⟩
      rw [cutLines, List.nil_append, lastLine, if_neg (by simpa using List.ne_nil_of_mem hline)]
      exact List.mem_singleton_self _
    · exact absurd (fun before after h => by simp at h) ht
  | feed t ih =>
    rw [returnsPaired_unit (by decide)] at h
    exact exists_return_of_ended (h.imp_right fun ht => ih (.inr ht))
  | pair t ih =>
    rw [returnsPaired_return, returnsPaired_unit (by decide)] at h
    exact exists_return_of_ended (h.imp_right fun hn => ih (.inr fun ht => hn ⟨rfl, ht⟩))
  | lone t hhead ih =>
    rw [KeepsReturn, cutLines_lone_return line hhead]
    exact ih (.inl List.mem_cons_self)
  | unit u t hfeed hreturn ih =>
    rw [returnsPaired_unit hreturn] at h
    rw [KeepsReturn, cutLines_unit hfeed hreturn]
    exact ih (h.imp_left (List.mem_cons_of_mem u))

theorem exists_return_of_not_returnsPaired (h : ¬ReturnsPaired t) : ∃ l ∈ lines t, 13 ∈ l :=
  keepsReturn (.inr h)

-- A piece between line feeds without the carriage return in front of the second.
def dropReturn (piece : Text) : Text :=
  if piece.getLast? = some 13 then piece.dropLast else piece

theorem dropReturn_cons {u : UInt16} {piece : Text} (h : u ≠ 13 ∨ piece ≠ []) :
    dropReturn (u :: piece) = u :: dropReturn piece := by
  cases piece with
  | nil => simp [dropReturn, h.resolve_right (by simp)]
  | cons v piece =>
    rw [dropReturn, dropReturn, List.getLast?_cons_cons, List.dropLast_cons_cons]
    split <;> rfl

theorem cutLines_piece {piece : Text} (h : 10 ∉ piece) (line rest : Text) :
    cutLines false line (piece ++ 10 :: rest) =
      ((line.reverse ++ dropReturn piece) :: (cutLines false [] rest).1,
        (cutLines false [] rest).2) := by
  induction piece generalizing line with
  | nil =>
    rw [List.nil_append, cutLines_feed]
    simp [dropReturn]
  | cons u piece ih =>
    have hfeed : u ≠ 10 := (List.ne_of_not_mem_cons h).symm
    have hpiece : 10 ∉ piece := List.not_mem_of_not_mem_cons h
    have hnext : cutLines false line (u :: (piece ++ 10 :: rest)) =
        cutLines false (u :: line) (piece ++ 10 :: rest) →
        dropReturn (u :: piece) = u :: dropReturn piece →
        cutLines false line (u :: piece ++ 10 :: rest) =
          ((line.reverse ++ dropReturn (u :: piece)) :: (cutLines false [] rest).1,
            (cutLines false [] rest).2) := fun hcut hdrop => by
      rw [List.cons_append, hcut, ih hpiece, hdrop, List.reverse_cons, List.append_assoc,
        List.singleton_append]
    by_cases hreturn : u = 13
    · subst hreturn
      cases piece with
      | nil => simp [cutLines_return_feed, dropReturn]
      | cons v piece =>
        have hv : 10 ≠ v := List.ne_of_not_mem_cons hpiece
        exact hnext (cutLines_lone_return line (by simpa using hv.symm))
          (dropReturn_cons (.inr (by simp)))
    · exact hnext (cutLines_unit hfeed hreturn _ _ _) (dropReturn_cons (.inl hreturn))

theorem cutLines_last {last : Text} (h : 10 ∉ last) (line : Text) :
    cutLines false line last = ([], last.reverse ++ line) := by
  induction last generalizing line with
  | nil => rfl
  | cons u last ih =>
    have hfeed : u ≠ 10 := (List.ne_of_not_mem_cons h).symm
    have hlast : 10 ∉ last := List.not_mem_of_not_mem_cons h
    have hnext : cutLines false line (u :: last) = cutLines false (u :: line) last := by
      by_cases hreturn : u = 13
      · subst hreturn
        refine cutLines_lone_return line fun hhead => hlast ?_
        exact List.mem_of_mem_head? hhead
      · exact cutLines_unit hfeed hreturn _ _ _
    rw [hnext, ih hlast, List.reverse_cons, List.append_assoc, List.singleton_append]

-- The lines of a text at hand are its pieces between line feeds, each without a carriage return at
-- its end if a line feed follows. Behind the last line feed there is only a line if there is a unit.
theorem lines_pieces {pieces : List Text} {last : Text} (hpieces : ∀ piece ∈ pieces, 10 ∉ piece)
    (hlast : 10 ∉ last) : lines (pieces.flatMap (· ++ [10]) ++ last) =
      pieces.map dropReturn ++ if last = [] then [] else [last] := by
  have hcut : cutLines false [] (pieces.flatMap (· ++ [10]) ++ last) =
      (pieces.map dropReturn, last.reverse) := by
    induction pieces with
    | nil => simpa using cutLines_last hlast []
    | cons piece pieces ih =>
      obtain ⟨hpiece, hrest⟩ := List.forall_mem_cons.mp hpieces
      rw [List.flatMap_cons, List.append_assoc, List.append_assoc, List.singleton_append,
        cutLines_piece hpiece, ih hrest]
      rfl
  rw [lines, allLines, hcut, lastLine]
  cases last with
  | nil => rfl
  | cons u last => simp

theorem exists_pieces (t : Text) : ∃ (pieces : List Text) (last : Text),
    t = pieces.flatMap (· ++ [10]) ++ last ∧ (∀ piece ∈ pieces, 10 ∉ piece) ∧ 10 ∉ last := by
  induction t with
  | nil => exact ⟨[], [], rfl, nofun, nofun⟩
  | cons u t ih =>
    obtain ⟨pieces, last, rfl, hpieces, hlast⟩ := ih
    by_cases hfeed : u = 10
    · exact ⟨[] :: pieces, last, by simp [hfeed], by simpa using hpieces, hlast⟩
    cases pieces with
    | nil => exact ⟨[], u :: last, rfl, nofun, by simpa [Ne.symm hfeed] using hlast⟩
    | cons piece pieces =>
      refine ⟨(u :: piece) :: pieces, last, by simp, ?_, hlast⟩
      obtain ⟨hpiece, hrest⟩ := List.forall_mem_cons.mp hpieces
      exact List.forall_mem_cons.mpr ⟨by simpa [Ne.symm hfeed] using hpiece, hrest⟩

end RecordQuery.Text
