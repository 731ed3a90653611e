import RecordQuery.Proofs.Expr.Integer
import RecordQuery.Proofs.Record.Row

/-!
Documents as literals. The compact document of a value whose numbers are integers and whose texts have
no control characters but tabs and ends of lines is a literal as well, and either way it is read as
one and the same value: brackets, commas, colons and words are those of literals, and so are the
escapes that such texts need.
-/

namespace RecordQuery

open Text (Ends)
open Token (Spells Single WritesUnit)

namespace Text

variable {u : UInt16} {t : Text}

-- No half of a pair stands alone, and of the control characters there are tabs and ends of lines only.
def IsPlain (t : Text) : Prop := t.isWellFormed = true ∧ ∀ u ∈ t, 32 ≤ u.toNat ∨ u ∈ [9, 10, 13]

-- The units of the text are gone through, not all units there are.
instance (t : Text) : Decidable t.IsPlain := @instDecidableAnd _ _ _ (List.decidableBAll _ t)

theorem escapedUnit_of_isSurrogate (hu : isSurrogate u = true) : escapedUnit u = [u] := by
  have hle := le_of_isSurrogate hu
  have hne : ∀ v : UInt16, v.toNat < 0xD800 → u ≠ v := by
    rintro v hv rfl
    omega
  have hcontrol : ¬u < 32 := by
    simp only [UInt16.lt_iff_toNat_lt, UInt16.reduceToNat]
    omega
  simp only [escapedUnit, beq_iff_eq, hne 34 (by decide), hne 92 (by decide), hne 8 (by decide),
    hne 12 (by decide), hne 10 (by decide), hne 13 (by decide), hne 9 (by decide), hcontrol,
    if_false]

-- With no half of a pair alone, every unit is written by itself.
theorem escaped_eq_flatMap (h : t.isWellFormed = true) : t.escaped = t.flatMap escapedUnit := by
  fun_induction escaped t with
  | case1 => rfl
  | case2 u hu => simp [isWellFormed, characters, hu] at h
  | case3 u hu => simp
  | case4 u v rest hpair ih =>
    have hhalves := hpair
    rw [Bool.and_eq_true] at hhalves
    have hrest : isWellFormed rest = true := by
      simpa [isWellFormed, characters, hpair] using h
    rw [ih hrest, List.flatMap_cons, List.flatMap_cons,
      escapedUnit_of_isSurrogate (isSurrogate_of_isHigh hhalves.1),
      escapedUnit_of_isSurrogate (isSurrogate_of_isLow hhalves.2)]
    rfl
  | case5 u v rest hpair ih =>
    have hsplit : isSurrogate u = false ∧ isWellFormed (v :: rest) = true := by
      simpa [isWellFormed, characters, hpair] using h
    rw [hsplit.1, ih hsplit.2, List.flatMap_cons]
    rfl

-- The letters that documents and literals both have after a backslash stand for the same units.
theorem writesUnit_escapedUnit (hu : 32 ≤ u.toNat ∨ u ∈ [9, 10, 13]) :
    WritesUnit 34 u (escapedUnit u) := by
  have hkept : ∀ v : UInt16, v.toNat < 32 → v ∉ [9, 10, 13] → u ≠ v := by
    rintro v hlt hv rfl
    rcases hu with hu | hu
    · omega
    · exact hv hu
  unfold escapedUnit
  split_ifs with hquote hslash h8 h12 h10 h13 h9 hcontrol
  · exact .escape (eq_of_beq hquote).symm
  · exact .escape (eq_of_beq hslash).symm
  · exact absurd (eq_of_beq h8) (hkept 8 (by decide) (by decide))
  · exact absurd (eq_of_beq h12) (hkept 12 (by decide) (by decide))
  · exact .escape (eq_of_beq h10).symm
  · exact .escape (eq_of_beq h13).symm
  · exact .escape (eq_of_beq h9).symm
  · simp only [UInt16.lt_iff_toNat_lt, UInt16.reduceToNat] at hcontrol
    rw [beq_iff_eq] at h10 h13 h9
    rcases hu with hu | hu
    · omega
    · simp [h9, h10, h13] at hu
  · exact .plain (by simpa using hquote) (by simpa using hslash)

theorem spells_quoted_of_isPlain (h : t.IsPlain) (rest : Text) :
    Spells (Single .string t) t.quoted rest := by
  rw [quoted, escaped_eq_flatMap h.1]
  exact Token.spells_string (by decide) (fun u hu => writesUnit_escapedUnit (h.2 u hu)) rest

theorem concat_three (s t u : Text) : concat [s, t, u] = s ++ (t ++ u) := by
  rw [concat, List.flatten_cons, List.flatten_cons, List.flatten_singleton]

end Text

namespace Json

open Grammar

variable {pad rest : Text} {items : List Value} {fields : Fields Value} {v : Value}

section compact

-- A value is written in front of anything as it is written alone.
def IsCompact (v : Value) : Prop := ∀ pad rest, writeBefore 0 pad rest v = write 0 v ++ rest

-- A field of a compact document.
def member (e : Text × Value) : Text := .concat [e.1.quoted, ":", write 0 e.2]

theorem member_eq (e : Text × Value) : member e = e.1.quoted ++ ([58] ++ write 0 e.2) :=
  Text.concat_three e.1.quoted ":" (write 0 e.2)

theorem layout_of_zero (pad : Text) : Layout.of 0 pad = ⟨pad, [], [44], [], [58]⟩ := rfl

theorem writeItems_zero (h : ∀ v ∈ items, IsCompact v) :
    writeItems 0 ⟨pad, [], [44], [], [58]⟩ [44] rest items =
      (items.map (write 0)).flatMap ([44] ++ ·) ++ rest := by
  induction items with
  | nil => rfl
  | cons v items ih =>
    obtain ⟨hv, hitems⟩ := List.forall_mem_cons.mp h
    rw [writeItems, hv, ih hitems, List.map_cons, List.flatMap_cons]
    simp only [List.append_assoc]

theorem writeFields_zero (h : ∀ e ∈ fields, IsCompact e.2) :
    writeFields 0 ⟨pad, [], [44], [], [58]⟩ [44] rest fields =
      (fields.map member).flatMap ([44] ++ ·) ++ rest := by
  induction fields with
  | nil => rfl
  | cons e fields ih =>
    obtain ⟨hv, hfields⟩ := List.forall_mem_cons.mp h
    rw [writeFields, hv, ih hfields, List.map_cons, List.flatMap_cons, member_eq]
    simp only [List.append_assoc]

theorem writeBefore_zero_list (h : ∀ v ∈ items, IsCompact v) :
    writeBefore 0 pad rest (.list items) =
      .concat ["[", .join "," (items.map (write 0)), "]"] ++ rest := by
  cases items with
  | nil => rfl
  | cons v items =>
    obtain ⟨hv, hitems⟩ := List.forall_mem_cons.mp h
    rw [writeBefore, layout_of_zero, List.map_cons, Text.join_cons]
    simp only [List.isEmpty_cons, Bool.false_eq_true, if_false]
    rw [writeItems, hv, writeItems_zero hitems, Text.concat_three]
    simp only [List.append_assoc]
    rfl

theorem writeBefore_zero_object (h : ∀ e ∈ fields, IsCompact e.2) :
    writeBefore 0 pad rest (.object fields) =
      .concat ["\x7b", .join "," (fields.map member), "\x7d"] ++ rest := by
  cases fields with
  | nil => rfl
  | cons e fields =>
    obtain ⟨hv, hfields⟩ := List.forall_mem_cons.mp h
    rw [writeBefore, layout_of_zero, List.map_cons, Text.join_cons]
    simp only [List.isEmpty_cons, Bool.false_eq_true, if_false]
    rw [writeFields, hv, writeFields_zero hfields, Text.concat_three, member_eq]
    simp only [List.append_assoc]
    rfl

theorem isCompact (v : Value) : IsCompact v := by
  have hconstant : ∀ {v : Value} {t : Text}, (∀ pad rest, writeBefore 0 pad rest v = t ++ rest) →
      IsCompact v := by
    intro v t h pad rest
    rw [write, h, h, List.append_nil]
  induction v with
  | null => exact hconstant fun pad rest => by rw [writeBefore]
  | bool b => exact hconstant fun pad rest => by rw [writeBefore]
  | number n => exact hconstant fun pad rest => by rw [writeBefore]
  | text t => exact hconstant fun pad rest => by rw [writeBefore]
  | list items ih => exact hconstant fun pad rest => writeBefore_zero_list ih
  | tuple items ih =>
    exact hconstant fun pad rest => (writeBefore_tuple items).trans (writeBefore_zero_list ih)
  | object fields ih => exact hconstant fun pad rest => writeBefore_zero_object ih

theorem write_zero_list (items : List Value) :
    write 0 (.list items) = .concat ["[", .join "," (items.map (write 0)), "]"] := by
  rw [write, writeBefore_zero_list fun v _ => isCompact v, List.append_nil]

theorem write_zero_object (fields : Fields Value) :
    write 0 (.object fields) = .concat ["\x7b", .join "," (fields.map member), "\x7d"] := by
  rw [write, writeBefore_zero_object fun e _ => isCompact e.2, List.append_nil]

end compact

-- The values that are literals as they are written: there are no tuples, all numbers are integers, and
-- names and texts are plain.
inductive IsPlain : Value → Prop
  | null : IsPlain .null
  | bool (b : Bool) : IsPlain (.bool b)
  | number {n : Number} {z : ℤ} (h : n.IsCanonical z) : IsPlain (.number n)
  | text {t : Text} (h : t.IsPlain) : IsPlain (.text t)
  | list {items : List Value} (h : ∀ v ∈ items, IsPlain v) : IsPlain (.list items)
  | object {fields : Fields Value} (hdistinct : fields.keys.Nodup)
    (hnames : ∀ e ∈ fields, e.1.IsPlain) (h : ∀ e ∈ fields, IsPlain e.2) : IsPlain (.object fields)

theorem heldNumber_of_isCanonical {n : Number} {z : ℤ} (h : n.IsCanonical z) :
    heldNumber n = .number (.ofInt z) := by
  rw [heldNumber, if_pos h.isFinite, Number.spelled_of_text_eq h.text_eq]

section plain

theorem IsPlain.distinctNames (h : IsPlain v) : v.DistinctNames := by
  induction h with
  | null => exact .null
  | bool b => exact .bool b
  | number h => exact .number _
  | text h => exact .text _
  | list _ ih => exact .list ih
  | object hdistinct _ _ ih => exact .object hdistinct ih

theorem IsPlain.exists_isCanonical (h : IsPlain v) : ∀ n ∈ v.numbers, ∃ z, n.IsCanonical z := by
  induction h with
  | null | bool | text => exact List.forall_mem_nil _
  | number h => exact List.forall_mem_singleton.mpr ⟨_, h⟩
  | list _ ih => exact Value.forall_mem_allNumbers.mpr ih
  | object _ _ _ ih => exact Value.forall_mem_fieldNumbers.mpr ih

-- With no tuples in it, a value keeps what it is made of.
theorem IsPlain.withLists_number (h : IsPlain v) : v.withLists .number = v := by
  induction h with
  | null | bool | text | number => rfl
  | list _ ih =>
    rw [Value.withLists, Value.allWithLists_eq_map, List.map_congr_left ih, List.map_id']
  | @object fields _ _ _ ih =>
    have hfields : (fields.map fun e => (e.1, e.2.withLists .number)) = fields := by
      refine (List.map_congr_left fun e he => ?_).trans (List.map_id fields)
      rw [ih e he]
      rfl
    rw [Value.withLists, Value.fieldsWithLists_eq_map, hfields]

theorem IsPlain.held_eq_self (h : IsPlain v) (hzero : ∀ n ∈ v.numbers, n ≠ Number.negativeZero) :
    held v = v := by
  refine Eq.trans (Value.withLists_congr fun n hn => ?_) h.withLists_number
  obtain ⟨z, hz⟩ := h.exists_isCanonical n hn
  rw [heldNumber_of_isCanonical hz, hz.eq_ofInt (hzero n hn)]

-- A zero without a sign is equal to one with a minus.
theorem IsPlain.held_equals (h : IsPlain v) : (held v).equals v = true := by
  have hkey : (held v).key = (v.withLists .number).key := by
    refine (Value.key_withLists_eq_iff h.distinctNames).mpr fun n hn => ?_
    obtain ⟨z, hz⟩ := h.exists_isCanonical n hn
    rw [heldNumber_of_isCanonical hz, Value.key, Value.key, hz.key_eq, Number.key_ofInt]
  rw [h.withLists_number] at hkey
  exact Value.equals_iff.mpr hkey

theorem nameLists_held (v : Value) : (held v).nameLists = v.nameLists := by
  refine Value.nameLists_withLists (fun n => ?_) v
  unfold heldNumber
  split <;> rfl

end plain

-- The document is scanned as a phrase for what it holds, in front of what ends it.
theorem IsPlain.spells_write (h : IsPlain v) :
    ∀ rest, Ends rest → Spells (Conditional · (held v).expression) (write 0 v) rest := by
  induction h with
  | null => exact Expr.isWritten_literal .null
  | bool b => cases b <;> exact Expr.isWritten_literal (.bool _)
  | @number n z h =>
    have hwritten := Expr.isWritten_number (Number.isCanonical_ofInt z)
    rw [Expr.IsWritten, Expr.source, Expr.constantSource, Number.source_ofInt] at hwritten
    have hheld : held (.number n) = .number (.ofInt z) := heldNumber_of_isCanonical h
    rw [hheld, write, writeBefore, number_eq_text h.isFinite, h.text_eq, List.append_nil]
    exact hwritten
  | text h =>
    intro rest hrest
    rw [write, writeBefore, List.append_nil]
    refine (Text.spells_quoted_of_isPlain h rest).mono ?_
    rintro - ⟨token, rfl, hkind, rfl⟩
    exact (Primary.strings (.one hkind)).signed.conditional
  | list _ ih =>
    intro rest hrest
    rw [write_zero_list, held_list, Value.expression, Value.expressions_eq_map, List.map_map]
    exact Expr.spells_list Token.separates_comma ih rest
  | object _ hnames _ ih =>
    intro rest hrest
    rw [write_zero_object, held_object, Value.expression, Value.fieldExpressions_eq_map, heldFields,
      List.map_map]
    refine Expr.spells_object Token.separates_comma (fun e he => ?_) rest
    exact Value.spells_field (Text.spells_quoted_of_isPlain (hnames e he))
      (fun _ => Token.spells_alone .colon rfl) (ih e he)

theorem IsPlain.ofLiteral?_held (h : IsPlain v) :
    Value.ofLiteral? (write 0 v) = .ok (some (held v)) := by
  have hread : read? (write 0 v) = some (held v) := read?_write h.distinctNames
  exact Value.ofLiteral?_of_parse (read?_distinctNames hread)
    (Expr.parse_of_spells (h.spells_write [] Text.ends_nil))

end Json

namespace Record

variable {defaults : Fields Value} {mode : Mode} {line : Text} {texts : List Text} {record : Record}
  {values : List Value}

-- A record that is no object has a value for every field of its line.
theorem exists_mapM_of_read (htexts : Csv.fields line = .ok texts)
    (h : read defaults mode line = (.csv, .ok record)) :
    ∃ values, record.value = .tuple values ∧ texts.mapM Value.ofSpelling = .ok values := by
  have hrow : ofRow line = .ok record := by
    unfold read at h
    split at h
    · cases h
    · exact (Prod.mk.inj h).2
  cases hvalues : texts.mapM Value.ofSpelling with
  | error e =>
    simp only [ofRow, htexts, tupleOf, hvalues, Except.map] at hrow
    cases hrow
  | ok values =>
    simp only [ofRow, htexts, tupleOf, hvalues, Except.map] at hrow
    cases hrow
    exact ⟨values, rfl, rfl⟩

theorem read_quotedRow (hne : texts ≠ []) (h : texts.mapM Value.ofSpelling = .ok values) :
    read defaults mode (Csv.quotedRow texts) =
      (.csv, .ok ⟨.tuple values, [(selfName, .tuple values)]⟩) := by
  have hobject : object? (Csv.quotedRow texts) = none := by
    obtain ⟨t, more, rfl⟩ := List.exists_cons_of_ne_nil hne
    obtain ⟨rest, hline⟩ := Csv.exists_quotedRow_eq t more
    rw [hline]
    exact object?_quote rest
  rw [read_of_object?_eq_none hobject]
  simp only [ofRow, Csv.fields_quotedRow hne, tupleOf, h, Except.map]

end Record

namespace Json

variable {v : Value}

-- The compact document of a plain value is a literal, and as a literal and as a document it is one
-- value, equal to the one that was written and with all names in their order. It is this value itself
-- unless zeros have lost a minus. So a field of a row that holds the document has the value that the
-- document has as a line.
theorem ofLiteral?_write (h : IsPlain v) :
    ∃ w, Value.ofLiteral? (write 0 v) = .ok (some w) ∧ read? (write 0 v) = some w ∧
      w.equals v = true ∧ w.nameLists = v.nameLists ∧
      ((∀ n ∈ v.numbers, n ≠ Number.negativeZero) → w = v) ∧
      (∀ defaults mode line (texts : List Text) (i : ℕ) record, Csv.fields line = .ok texts →
        texts[i]? = some (write 0 v) → Record.read defaults mode line = (.csv, .ok record) →
        ∃ values : List Value, record.value = .tuple values ∧ values[i]? = some w) ∧
      ∀ defaults mode, Record.read defaults mode (Csv.quotedRow [write 0 v]) =
        (.csv, .ok ⟨.tuple [w], [(Record.selfName, .tuple [w])]⟩) := by
  have hspelling : Value.ofSpelling (write 0 v) = .ok (held v) := by
    rw [Value.ofSpelling, h.ofLiteral?_held]
    rfl
  refine ⟨held v, h.ofLiteral?_held, read?_write h.distinctNames, h.held_equals, nameLists_held v,
    h.held_eq_self, fun defaults mode line texts i record htexts hi hread => ?_,
    fun defaults mode => ?_⟩
  · obtain ⟨values, hvalue, hvalues⟩ := Record.exists_mapM_of_read htexts hread
    exact ⟨values, hvalue, getElem?_of_mapM hvalues hi hspelling⟩
  · refine Record.read_quotedRow (List.cons_ne_nil _ _) ?_
    rw [List.mapM_cons, hspelling]
    rfl

-- Reserved words and quotes in names, empty containers, a negative integer beyond the safe range, a tab
-- and a pair.
def reserved : Value :=
  .object [("not", .list [.null, .list [], .number (.ofInt (-9007199254740993))]),
    ("\\\"if'\n", .object []), ("", .text [9, 0xD83D, 0xDE00])]

theorem ofLiteral?_write_reserved : IsPlain reserved ∧
    Value.ofLiteral? (write 0 reserved) = .ok (some reserved) ∧
      read? (write 0 reserved) = some reserved := by
  have hitems : IsPlain (.list [.null, .list [], .number (.ofInt (-9007199254740993))]) := by
    refine .list (List.forall_mem_cons.mpr ⟨.null, List.forall_mem_cons.mpr ⟨.list nofun, ?_⟩⟩)
    exact List.forall_mem_singleton.mpr (.number (Number.isCanonical_ofInt _))
  have hplain : IsPlain reserved := by
    refine .object (by decide) (by decide) (List.forall_mem_cons.mpr ⟨hitems, ?_⟩)
    refine List.forall_mem_cons.mpr ⟨.object .nil nofun nofun, ?_⟩
    exact List.forall_mem_singleton.mpr (.text (by decide))
  have hzero : ∀ n ∈ reserved.numbers, n ≠ Number.negativeZero :=
    List.forall_mem_singleton.mpr (Number.ofInt_ne_negativeZero _)
  obtain ⟨w, hliteral, hread, -, -, hself, -⟩ := ofLiteral?_write hplain
  rw [hself hzero] at hliteral hread
  exact ⟨hplain, hliteral, hread⟩

end Json

end RecordQuery
