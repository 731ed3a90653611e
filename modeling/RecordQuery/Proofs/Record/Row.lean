import RecordQuery.Proofs.Csv.Row
import RecordQuery.Proofs.Expr.Spelling
import RecordQuery.Proofs.Json.Reader
import RecordQuery.Record.Basic

/-!
Records written as rows of literals. A line of literals, each between quotes, with commas between them
is read as the tuple of the values that were written, whatever they hold and whatever lines have been
taken for so far.
-/

namespace RecordQuery

namespace Csv

open Text (OneLine oneLine_append oneLine_cons oneLine_flatMap oneLine_join)

theorem oneLine_cell {field : Text} (h : OneLine field) : OneLine (cell field) := by
  have hcontent : OneLine (field.flatMap cellUnit) := by
    refine oneLine_flatMap fun u hu => ?_
    unfold cellUnit
    split
    · decide
    · exact List.forall_mem_singleton.mpr (h u hu)
  exact oneLine_cons.mpr ⟨by decide, oneLine_append.mpr ⟨hcontent, by decide⟩⟩

theorem oneLine_quotedRow {texts : List Text} (h : ∀ t ∈ texts, OneLine t) :
    OneLine (quotedRow texts) :=
  oneLine_join (by decide) (List.forall_mem_map.mpr fun t ht => oneLine_cell (h t ht))

end Csv

namespace Record

variable {items : List Value}

-- The line that values are written as.
def literalRow (items : List Value) : Text := Csv.quotedRow (items.map Value.literal)

theorem oneLine_literalRow (items : List Value) : (literalRow items).OneLine :=
  Csv.oneLine_quotedRow (List.forall_mem_map.mpr fun v _ => v.oneLine_literal)

-- As a document, what opens with a quote is a text and no object.
theorem object?_quote (rest : Text) : object? (Csv.quote :: rest) = none := by
  unfold object?
  split
  next fields hread =>
    obtain ⟨t, ht⟩ := Json.exists_text_of_read? hread
    cases ht
  next => rfl

theorem read_of_object?_eq_none {defaults : Fields Value} {mode : Mode} {line : Text}
    (h : object? line = none) : read defaults mode line = (.csv, ofRow line) := by
  unfold read
  split
  next fields hfields =>
    rw [h] at hfields
    cases hfields
  next => rfl

theorem tupleOf_literals (hnames : ∀ v ∈ items, v.DistinctNames)
    (hnumbers : ∀ v ∈ items, ∀ n ∈ v.numbers, ∃ z, n.IsCanonical z) :
    tupleOf (items.map Value.literal) = .ok (.tuple items) := by
  have hitems : (items.map Value.literal).mapM Value.ofSpelling = .ok items := by
    rw [mapM_eq_ok_iff, List.forall₂_map_left_iff]
    exact List.forall₂_same.mpr fun v hv => Value.ofSpelling_literal (hnames v hv) (hnumbers v hv)
  rw [tupleOf, hitems]
  rfl

-- A record of literals is one line, and this line is read as the tuple of its values, with no name
-- but that of the whole record.
theorem read_literalRow (defaults : Fields Value) (mode : Mode) (hne : items ≠ [])
    (hnames : ∀ v ∈ items, v.DistinctNames)
    (hnumbers : ∀ v ∈ items, ∀ n ∈ v.numbers, ∃ z, n.IsCanonical z) :
    (literalRow items).OneLine ∧
      read defaults mode (literalRow items) =
        (.csv, .ok ⟨.tuple items, [(selfName, .tuple items)]⟩) := by
  refine ⟨oneLine_literalRow items, ?_⟩
  have hfields : Csv.fields (literalRow items) = .ok (items.map Value.literal) :=
    Csv.fields_quotedRow (List.map_eq_nil_iff.not.mpr hne)
  have hrow : ofRow (literalRow items) = .ok ⟨.tuple items, [(selfName, .tuple items)]⟩ := by
    simp only [ofRow, hfields, tupleOf_literals hnames hnumbers]
  have hobject : object? (literalRow items) = none := by
    obtain ⟨v, more, rfl⟩ := List.exists_cons_of_ne_nil hne
    obtain ⟨rest, hline⟩ := Csv.exists_quotedRow_eq v.literal (more.map Value.literal)
    rw [literalRow, List.map_cons, hline]
    exact object?_quote rest
  rw [read_of_object?_eq_none hobject, hrow]

example : literalRow [.text "it's 5\"\n", .object [("a,b", .tuple [.null])]] =
    "\"'it\\'s 5\"\"\\n'\",\"\x7b'a,b': (null,)\x7d\"" := by decide +kernel

-- Quotes, commas, backslashes and ends of lines within texts, at several depths.
def nested : List Value :=
  [.text "it's 5\",\\\n\r",
    .list [.null, .tuple [.number (.ofInt (-9007199254740993))], .tuple []],
    .object [("a'\",b", .bool true), ("", .object [("\x7b", .number (.ofInt 0))])]]

theorem read_literalRow_nested : (∀ v ∈ nested, v.DistinctNames) ∧
    (∀ v ∈ nested, ∀ n ∈ v.numbers, ∃ z, n.IsCanonical z) ∧ (literalRow nested).OneLine ∧
      read [("id", .null)] .json (literalRow nested) =
        (.csv, .ok ⟨.tuple nested, [(selfName, .tuple nested)]⟩) := by
  have hkeys : Text.ofString "a'\",b" ≠ Text.ofString "" := by decide
  have hnames : ∀ v ∈ nested, v.DistinctNames := by
    simp [nested, Fields.keys, hkeys, Value.DistinctNames.null, Value.DistinctNames.bool,
      Value.DistinctNames.number, Value.DistinctNames.text]
  have hnumbers : ∀ v ∈ nested, ∀ n ∈ v.numbers, ∃ z, n.IsCanonical z := by
    simp only [nested, Value.numbers, Value.allNumbers, Value.fieldNumbers, List.forall_mem_cons,
      List.nil_append, List.append_nil, List.not_mem_nil, false_implies, implies_true, true_and,
      and_true]
    exact ⟨⟨_, Number.isCanonical_ofInt _⟩, _, Number.isCanonical_ofInt _⟩
  exact ⟨hnames, hnumbers, read_literalRow _ .json (by decide) hnames hnumbers⟩

end Record

end RecordQuery
