import Mathlib.Tactic
import RecordQuery.Text.Basic

/-!
Texts that tell where they end. When each part can be told from what follows it, parts with commas
between them and a bracket behind them can be told from all that follows the bracket.
-/

namespace RecordQuery.Text

-- A run in front of something that does not go on with it is split off whole.
theorem span_append {α : Type} {p : α → Bool} (run rest : List α)
    (hrun : ∀ u ∈ run, p u = true) (hrest : ∀ u ∈ rest.head?, p u = false) :
    (run ++ rest).takeWhile p = run ∧ (run ++ rest).dropWhile p = rest := by
  rw [List.takeWhile_append_of_pos hrun, List.dropWhile_append_of_pos hrun]
  cases rest with
  | nil => simp
  | cons u rest =>
    have hu := hrest u rfl
    simp [hu]

-- A comma or a closing bracket, which is what may follow a part.
def isStop (u : UInt16) : Bool := u == 44 || u == 93 || u == 41 || u == 125

-- What may follow a part: nothing, or something that begins with a stop.
def Stops (rest : Text) : Prop := ∀ u ∈ rest.head?, isStop u = true

theorem stops_cons {u : UInt16} (rest : Text) (hu : isStop u = true) : Stops (u :: rest) := by
  rintro v ⟨⟩
  exact hu

-- The part is told from all texts in `p`, whatever follows either of them.
def Delimited (p : Text → Prop) (part : Text) : Prop :=
  ∀ other rest rest', p other → Stops rest → Stops rest' → part ++ rest = other ++ rest' →
    part = other ∧ rest = rest'

-- Texts without stops end where the first stop comes.
theorem append_inj_of_stops {part other rest rest' : Text} (hpart : ∀ u ∈ part, isStop u = false)
    (hother : ∀ u ∈ other, isStop u = false) (hrest : Stops rest) (hrest' : Stops rest')
    (h : part ++ rest = other ++ rest') : part = other ∧ rest = rest' := by
  obtain ⟨htake, hdrop⟩ := span_append (p := fun u => !isStop u) part rest
    (fun u hu => by simp [hpart u hu]) fun u hu => by simp [hrest u hu]
  obtain ⟨htake', hdrop'⟩ := span_append (p := fun u => !isStop u) other rest'
    (fun u hu => by simp [hother u hu]) fun u hu => by simp [hrest' u hu]
  exact ⟨by rw [← htake, h, htake'], by rw [← hdrop, h, hdrop']⟩

theorem join_cons (separator part : Text) (parts : List Text) :
    join separator (part :: parts) = part ++ parts.flatMap (separator ++ ·) := by
  induction parts generalizing part with
  | nil => simp [join]
  | cons next parts ih =>
    have hnext := ih next
    rw [join, List.intercalate] at hnext ⊢
    simp only [List.intersperse, List.flatten_cons, List.flatMap_cons, List.append_assoc] at hnext ⊢
    rw [hnext]

variable {p : Text → Prop} {parts others : List Text} {rest rest' : Text} {close : UInt16}

-- Parts that each have a comma in front, up to the bracket.
theorem flatMap_append_inj (hparts : ∀ part ∈ parts, Delimited p part)
    (hothers : ∀ other ∈ others, p other) (hclose : isStop close = true) (hcomma : close ≠ 44)
    (h : parts.flatMap ([44] ++ ·) ++ close :: rest = others.flatMap ([44] ++ ·) ++ close :: rest') :
    parts = others ∧ rest = rest' := by
  have hstops : ∀ (texts : List Text) tail, Stops (texts.flatMap ([44] ++ ·) ++ close :: tail) := by
    intro texts tail
    cases texts with
    | nil => exact stops_cons _ hclose
    | cons t texts => exact stops_cons _ rfl
  induction parts generalizing others with
  | nil =>
    cases others with
    | nil => exact ⟨rfl, (List.cons.inj h).2⟩
    | cons other others => exact absurd (List.cons.inj h).1 hcomma
  | cons part parts ih =>
    cases others with
    | nil => exact absurd (List.cons.inj h).1.symm hcomma
    | cons other others =>
      simp only [List.flatMap_cons, List.cons_append, List.nil_append, List.append_assoc,
        List.cons.injEq, true_and] at h
      obtain ⟨rfl, htail⟩ := hparts part List.mem_cons_self other _ _
        (hothers other List.mem_cons_self) (hstops parts rest) (hstops others rest') h
      obtain ⟨rfl, hrest⟩ := ih (fun t ht => hparts t (List.mem_cons_of_mem _ ht))
        (fun t ht => hothers t (List.mem_cons_of_mem _ ht)) htail
      exact ⟨rfl, hrest⟩

theorem join_append_inj (hparts : ∀ part ∈ parts, p part ∧ Delimited p part)
    (hothers : ∀ other ∈ others, p other)
    (hhead : ∀ t, p t → ∃ u t', t = u :: t' ∧ isStop u = false)
    (hclose : isStop close = true) (hcomma : close ≠ 44)
    (h : join [44] parts ++ close :: rest = join [44] others ++ close :: rest') :
    parts = others ∧ rest = rest' := by
  -- an empty container has its bracket where another has the head of its first part
  have hempty : ∀ t texts tail tail', p t → close :: tail ≠ join [44] (t :: texts) ++ tail' := by
    intro t texts tail tail' ht heq
    obtain ⟨u, t', rfl, hu⟩ := hhead t ht
    rw [join_cons] at heq
    rw [← (List.cons.inj heq).1, hclose] at hu
    cases hu
  cases parts with
  | nil =>
    cases others with
    | nil => exact ⟨rfl, (List.cons.inj h).2⟩
    | cons other others => exact absurd h (hempty _ _ _ _ (hothers other List.mem_cons_self))
  | cons part parts =>
    cases others with
    | nil => exact absurd h.symm (hempty _ _ _ _ (hparts part List.mem_cons_self).1)
    | cons other others =>
      -- a comma in front of both makes them lists of parts with commas in front
      have hcommas : (part :: parts).flatMap ([44] ++ ·) ++ close :: rest =
          (other :: others).flatMap ([44] ++ ·) ++ close :: rest' := by
        rw [join_cons, join_cons] at h
        simp only [List.flatMap_cons, List.append_assoc] at h ⊢
        rw [h]
      exact flatMap_append_inj (fun t ht => (hparts t ht).2) hothers hclose hcomma hcommas

end RecordQuery.Text
