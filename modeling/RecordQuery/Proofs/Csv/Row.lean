import RecordQuery.Csv.Row
import RecordQuery.Proofs.Text.Delimited

/-!
Rows of quoted fields. Whatever a field holds, between quotes and with its own quotes doubled it is
read as content up to its closing quote, so such fields with commas between them are the fields of
one row, whatever ends rows in it.
-/

namespace RecordQuery.Csv

variable {terminator : Text} {field content rest t : Text} {done : List Text}

def cellUnit (u : UInt16) : Text := if u == quote then [quote, quote] else [u]

-- A field between quotes, in which every quote is doubled.
def cell (field : Text) : Text := quote :: (field.flatMap cellUnit ++ [quote])

-- A row of such fields.
def quotedRow (fields : List Text) : Text := .join [comma] (fields.map cell)

theorem quotedField_cellUnit (u : UInt16) :
    quotedField terminator content (cellUnit u ++ rest) =
      quotedField terminator (u :: content) rest := by
  by_cases hu : u = quote
  · subst hu
    rfl
  · have hunit : cellUnit u = [u] := if_neg (by simpa using hu)
    rw [hunit, List.singleton_append, quotedField.eq_def]
    exact if_neg (by simpa using hu)

theorem quotedField_flatMap (field : Text) :
    quotedField terminator content (field.flatMap cellUnit ++ rest) =
      quotedField terminator (field.reverse ++ content) rest := by
  induction field generalizing content with
  | nil => rfl
  | cons u field ih =>
    rw [List.flatMap_cons, List.append_assoc, quotedField_cellUnit, ih, List.reverse_cons,
      List.append_assoc, List.singleton_append]

theorem firstField_cell_append (field rest : Text) :
    firstField terminator (cell field ++ rest) =
      quotedField terminator field.reverse (quote :: rest) := by
  have hcell : cell field ++ rest = quote :: (field.flatMap cellUnit ++ quote :: rest) := by
    simp [cell]
  rw [hcell, firstField, if_pos (beq_self_eq_true quote), quotedField_flatMap, List.append_nil]

theorem firstField_cell (field : Text) :
    firstField terminator (cell field) = .ok ⟨field, .finish, []⟩ := by
  have h : firstField terminator (cell field ++ []) = quotedField terminator field.reverse [quote] :=
    firstField_cell_append field []
  rw [List.append_nil] at h
  rw [h, quotedField, if_pos (beq_self_eq_true quote), List.reverse_reverse]

theorem firstField_cell_comma (field rest : Text) :
    firstField terminator (cell field ++ comma :: rest) = .ok ⟨field, .comma, rest⟩ := by
  rw [firstField_cell_append, quotedField, if_pos (beq_self_eq_true quote)]
  simp [untilEnding, comma, quote]

section

variable {terminator : Terminator}

theorem rowsFrom_finish (h : firstField terminator.text t = .ok ⟨field, .finish, rest⟩) :
    rowsFrom terminator done t = .ok [done.reverse ++ [field]] := by
  rw [rowsFrom]
  split <;> simp_all

theorem rowsFrom_comma (h : firstField terminator.text t = .ok ⟨field, .comma, rest⟩) :
    rowsFrom terminator done t = rowsFrom terminator (field :: done) rest := by
  rw [rowsFrom]
  split <;> simp_all

theorem quotedRow_cons (field next : Text) (fields : List Text) :
    quotedRow (field :: next :: fields) = cell field ++ comma :: quotedRow (next :: fields) := by
  simp [quotedRow, Text.join_cons]

-- The fields before go in front, whatever ends rows.
theorem rowsFrom_quotedRow (field : Text) (fields : List Text) :
    rowsFrom terminator done (quotedRow (field :: fields)) =
      .ok [done.reverse ++ field :: fields] := by
  induction fields generalizing field done with
  | nil =>
    have hrow : quotedRow [field] = cell field := by simp [quotedRow, Text.join_cons]
    rw [hrow]
    exact rowsFrom_finish (firstField_cell field)
  | cons next fields ih =>
    rw [quotedRow_cons, rowsFrom_comma (firstField_cell_comma field _), ih, List.reverse_cons,
      List.append_assoc, List.singleton_append]

end

-- Such a row opens with a quote, so it is not empty and has no byte order mark.
theorem exists_quotedRow_eq (field : Text) (fields : List Text) :
    ∃ rest, quotedRow (field :: fields) = quote :: rest := by
  rw [quotedRow, List.map_cons, Text.join_cons, cell, List.cons_append]
  exact ⟨_, rfl⟩

-- Splitting a row of quoted fields gives the fields.
theorem fields_quotedRow {texts : List Text} (h : texts ≠ []) :
    fields (quotedRow texts) = .ok texts := by
  obtain ⟨field, more, rfl⟩ := List.exists_cons_of_ne_nil h
  obtain ⟨rest, hrow⟩ := exists_quotedRow_eq field more
  have hrows : rows (quotedRow (field :: more)) = .ok [field :: more] := by
    have hmark : withoutMark (quotedRow (field :: more)) = quotedRow (field :: more) := by
      rw [hrow]
      rfl
    have hempty : (quotedRow (field :: more)).isEmpty = false := by rw [hrow, List.isEmpty_cons]
    rw [rows, hmark, hempty]
    exact rowsFrom_quotedRow field more
  rw [fields, hrows]
  rfl

end RecordQuery.Csv
