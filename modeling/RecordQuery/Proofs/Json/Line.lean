import RecordQuery.Proofs.Json.RoundTrip
import RecordQuery.Proofs.Text.Lines

/-!
Compact documents are one line each. The ends of lines in names and texts are escaped, and nothing
else that is written has one.
-/

namespace RecordQuery

namespace Text

theorem hexDigit_ne {n : ℕ} (h : n < 16) : hexDigit n ≠ 10 ∧ hexDigit n ≠ 13 := by
  have hle : 48 ≤ (hexDigit n).toNat := by
    rw [toNat_hexDigit h]
    split <;> omega
  constructor <;> intro heq <;> rw [heq] at hle <;> exact absurd hle (by decide)

theorem oneLine_escapedByNumber (u : UInt16) : OneLine (escapedByNumber u) := by
  have hu := u.toNat_lt
  simp only [escapedByNumber, oneLine_cons]
  exact ⟨by decide, by decide, hexDigit_ne (by omega), hexDigit_ne (by omega), hexDigit_ne (by omega),
    hexDigit_ne (by omega), oneLine_nil⟩

-- Line ends are escaped like all control characters.
theorem oneLine_escapedUnit (u : UInt16) : OneLine (escapedUnit u) := by
  unfold escapedUnit
  split_ifs with hquote hslash h8 h12 hfeed hreturn h9 hcontrol
  iterate 7
    · decide
  · exact oneLine_escapedByNumber u
  · exact oneLine_cons.mpr ⟨⟨by simpa using hfeed, by simpa using hreturn⟩, oneLine_nil⟩

theorem oneLine_escaped (t : Text) : OneLine (escaped t) := by
  have hunit : ∀ u, OneLine (if isSurrogate u then escapedByNumber u else escapedUnit u) := by
    intro u
    split
    · exact oneLine_escapedByNumber u
    · exact oneLine_escapedUnit u
  have hpair : ∀ u : UInt16, isSurrogate u = true → u ≠ 10 ∧ u ≠ 13 := by
    intro u hu
    have hle := le_of_isSurrogate hu
    constructor <;> rintro rfl <;> exact absurd hle (by decide)
  fun_induction escaped t with
  | case1 => exact oneLine_nil
  | case2 u h => exact oneLine_escapedByNumber u
  | case3 u h => exact oneLine_escapedUnit u
  | case4 u v t h ih =>
    rw [Bool.and_eq_true] at h
    exact oneLine_cons.mpr ⟨hpair u (isSurrogate_of_isHigh h.1),
      oneLine_cons.mpr ⟨hpair v (isSurrogate_of_isLow h.2), ih⟩⟩
  | case5 u v t h ih => exact oneLine_append.mpr ⟨hunit u, ih⟩

theorem oneLine_quoted (t : Text) : OneLine t.quoted :=
  oneLine_cons.mpr ⟨by decide, oneLine_append.mpr ⟨oneLine_escaped t, by decide⟩⟩

end Text

namespace Json

open Text (OneLine oneLine_cons oneLine_append oneLine_nil oneLine_quoted)

variable {rest lead : Text} {items : List Value} {fields : Fields Value}

theorem oneLine_number (n : Number) : OneLine (number n) := by
  cases hn : n.isFinite with
  | false =>
    rw [number_eq_null hn]
    decide
  | true =>
    have hdigit : ∀ u, Double.IsDecimalUnit u → u ≠ 10 ∧ u ≠ 13 := by
      intro u hu
      constructor <;> rintro rfl <;> revert hu <;> simp [Double.IsDecimalUnit, Text.isDigit_iff]
    have hwords : OneLine "InfinityNaN" := by decide
    rw [number_eq_text hn]
    intro u hu
    rcases Number.text_cases hn with ⟨z, hz⟩ | ⟨x, rfl, -, hsafe, -⟩
    · rw [hz] at hu
      refine hdigit u ?_
      rcases Text.isDigit_or_eq_of_mem_ofInt hu with hu | hu <;> simp [Double.IsDecimalUnit, hu]
    · rcases Double.isDecimalUnit_or_mem_of_mem_text hsafe hu with hu | hu
      · exact hdigit u hu
      · exact hwords u hu

theorem oneLine_writeItems
    (h : ∀ v ∈ items, ∀ rest, OneLine rest → OneLine (writeBefore 0 [] rest v)) (hlead : OneLine lead)
    (hrest : OneLine rest) : OneLine (writeItems 0 (Layout.of 0 []) lead rest items) := by
  induction items generalizing lead with
  | nil => exact hrest
  | cons v items ih =>
    obtain ⟨hv, hitems⟩ := List.forall_mem_cons.mp h
    exact oneLine_append.mpr ⟨hlead, hv _ (ih hitems (by decide))⟩

theorem oneLine_writeFields
    (h : ∀ e ∈ fields, ∀ rest, OneLine rest → OneLine (writeBefore 0 [] rest e.2))
    (hlead : OneLine lead) (hrest : OneLine rest) :
    OneLine (writeFields 0 (Layout.of 0 []) lead rest fields) := by
  induction fields generalizing lead with
  | nil => exact hrest
  | cons e fields ih =>
    obtain ⟨hv, hfields⟩ := List.forall_mem_cons.mp h
    have hcolon : OneLine (Layout.of 0 []).colon := by decide
    refine oneLine_append.mpr ⟨?_, hv _ (ih hfields (by decide))⟩
    exact oneLine_append.mpr ⟨oneLine_append.mpr ⟨hlead, oneLine_quoted e.1⟩, hcolon⟩

theorem oneLine_list (h : ∀ v ∈ items, ∀ rest, OneLine rest → OneLine (writeBefore 0 [] rest v))
    (hrest : OneLine rest) : OneLine (writeBefore 0 [] rest (.list items)) := by
  have hend : OneLine (93 :: rest) := oneLine_cons.mpr ⟨by decide, hrest⟩
  rw [writeBefore]
  split
  · exact oneLine_cons.mpr ⟨by decide, hend⟩
  · exact oneLine_cons.mpr ⟨by decide, oneLine_writeItems h oneLine_nil hend⟩

theorem oneLine_writeBefore (v : Value) (hrest : OneLine rest) : OneLine (writeBefore 0 [] rest v) := by
  induction v generalizing rest with
  | null => exact oneLine_append.mpr ⟨by decide, hrest⟩
  | bool b => exact oneLine_append.mpr ⟨by cases b <;> decide, hrest⟩
  | number n => exact oneLine_append.mpr ⟨oneLine_number n, hrest⟩
  | text t => exact oneLine_append.mpr ⟨oneLine_quoted t, hrest⟩
  | list items ih => exact oneLine_list (fun v hv rest => ih v hv) hrest
  | tuple items ih =>
    rw [writeBefore_tuple]
    exact oneLine_list (fun v hv rest => ih v hv) hrest
  | object fields ih =>
    have hend : OneLine (125 :: rest) := oneLine_cons.mpr ⟨by decide, hrest⟩
    rw [writeBefore]
    split
    · exact oneLine_cons.mpr ⟨by decide, hend⟩
    · exact oneLine_cons.mpr ⟨by decide,
        oneLine_writeFields (fun e he rest => ih e he) oneLine_nil hend⟩

-- A compact document is one line.
theorem oneLine_write (v : Value) : OneLine (write 0 v) := oneLine_writeBefore v oneLine_nil

end Json

end RecordQuery
