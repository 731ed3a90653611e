import RecordQuery.Proofs.Expr.Literal
import RecordQuery.Proofs.Expr.Source
import RecordQuery.Proofs.Text.Lines
import RecordQuery.Proofs.Value.Lists

/-!
Values written out as literals, on one line each. What is written for a value spells that value.
-/

namespace RecordQuery

open Text (OneLine oneLine_append oneLine_concat oneLine_cons oneLine_enclosed oneLine_flatMap
  oneLine_join)

namespace Token

-- A unit of a string on one line: ends of lines are written with a backslash as well.
def lineUnit (u : UInt16) : Text :=
  if u == 10 then [92, 110] else if u == 13 then [92, 114] else quotedUnit u

-- A string between single quotes on one line.
def lineQuoted (t : Text) : Text := 39 :: (t.flatMap lineUnit ++ [39])

theorem writesUnit_lineUnit (u : UInt16) : WritesUnit 39 u (lineUnit u) := by
  unfold lineUnit
  split
  next h =>
    rw [beq_iff_eq] at h
    exact .escape h.symm
  next =>
    split
    next h =>
      rw [beq_iff_eq] at h
      exact .escape h.symm
    next => exact writesUnit_quotedUnit u

theorem spells_lineQuoted (t rest : Text) : Spells (Single .string t) (lineQuoted t) rest :=
  spells_string (by decide) (fun u _ => writesUnit_lineUnit u) rest

theorem oneLine_lineUnit (u : UInt16) : OneLine (lineUnit u) := by
  unfold lineUnit quotedUnit
  split_ifs with hfeed hreturn hescape
  · decide
  · decide
  · rw [Bool.or_eq_true, beq_iff_eq, beq_iff_eq] at hescape
    rcases hescape with rfl | rfl <;> decide
  · rw [beq_iff_eq] at hfeed hreturn
    exact List.forall_mem_singleton.mpr ⟨hfeed, hreturn⟩

theorem oneLine_lineQuoted (t : Text) : OneLine (lineQuoted t) :=
  oneLine_cons.mpr ⟨by decide, oneLine_append.mpr
    ⟨oneLine_flatMap fun u _ => oneLine_lineUnit u, by decide⟩⟩

end Token

theorem Number.oneLine_source (n : Number) : OneLine n.source := by
  refine oneLine_concat (List.forall_mem_cons.mpr ⟨?_, List.forall_mem_singleton.mpr ?_⟩)
  · split <;> decide
  · intro u hu
    constructor <;> rintro rfl <;> exact absurd (Text.isDigit_of_mem_ofNat hu) (by decide)

namespace Value

open Grammar
open Text (Ends ends_nil)
open Token (Spells Single Enclosed separates_commaBlank spells_enclosed spells_alone)

mutual

def literal : Value → Text
  | .null => "null"
  | .bool b => if b then "true" else "false"
  | .number n => n.source
  | .text t => Token.lineQuoted t
  | .list items => .concat ["[", .join ", " (literals items), "]"]
  | .tuple items =>
    .concat ["(", .concat [.join ", " (literals items), if items.length = 1 then "," else ""], ")"]
  | .object fields => .concat ["\x7b", .join ", " (fieldLiterals fields), "\x7d"]

def literals : List Value → List Text
  | [] => []
  | v :: rest => literal v :: literals rest

def fieldLiterals : List (Text × Value) → List Text
  | [] => []
  | (name, v) :: rest => .concat [Token.lineQuoted name, ": ", literal v] :: fieldLiterals rest

end

mutual

-- The expression that a value's literal is read as.
def expression : Value → Expr
  | .list items => .list (expressions items)
  | .tuple items => .tuple (expressions items)
  | .object fields => .object (fieldExpressions fields)
  | v => .literal v

def expressions : List Value → List Expr
  | [] => []
  | v :: rest => expression v :: expressions rest

def fieldExpressions : List (Text × Value) → List (Expr × Expr)
  | [] => []
  | (name, v) :: rest => (.literal (.text name), expression v) :: fieldExpressions rest

end

variable {v : Value} {items : List Value} {fields : Fields Value} {library : Library} {scope : Scope}

theorem literals_eq_map (items : List Value) : literals items = items.map literal := by
  induction items with
  | nil => rfl
  | cons v rest ih => rw [literals, ih, List.map_cons]

theorem fieldLiterals_eq_map (fields : Fields Value) : fieldLiterals fields =
    fields.map fun e => .concat [Token.lineQuoted e.1, ": ", literal e.2] := by
  induction fields with
  | nil => rfl
  | cons e rest ih => rw [fieldLiterals, ih, List.map_cons]

theorem expressions_eq_map (items : List Value) : expressions items = items.map expression := by
  induction items with
  | nil => rfl
  | cons v rest ih => rw [expressions, ih, List.map_cons]

theorem fieldExpressions_eq_map (fields : Fields Value) : fieldExpressions fields =
    fields.map fun e => (.literal (.text e.1), expression e.2) := by
  induction fields with
  | nil => rfl
  | cons e rest ih => rw [fieldExpressions, ih, List.map_cons]

-- What is written for a value is scanned as a phrase for its expression in front of what ends it.
def IsSpelled (v : Value) : Prop :=
  ∀ rest, Ends rest → Spells (Conditional · v.expression) v.literal rest

theorem isSpelled_text (t : Text) : IsSpelled (.text t) := by
  intro rest hrest
  refine (Token.spells_lineQuoted t rest).mono ?_
  rintro - ⟨token, rfl, hkind, rfl⟩
  exact (Primary.strings (.one hkind)).signed.conditional

theorem isSpelled_list (h : ∀ v ∈ items, IsSpelled v) : IsSpelled (.list items) := by
  intro rest _
  rw [literal, expression, literals_eq_map, expressions_eq_map]
  exact Expr.spells_list separates_commaBlank h rest

theorem isSpelled_tuple (h : ∀ v ∈ items, IsSpelled v) : IsSpelled (.tuple items) := by
  intro rest hrest
  rw [literal, expression, literals_eq_map, expressions_eq_map]
  exact (spells_enclosed .leftParen .rightParen rfl rfl
    (fun rest hrest => Expr.spells_elements h hrest) rest).mono
    fun ts => Expr.conditional_of_elements

-- A string for a name, something that is scanned as a colon, and a phrase.
theorem spells_field {name key between value : Text} {e : Expr}
    (hkey : ∀ rest, Spells (Single .string name) key rest)
    (hbetween : ∀ rest, Spells (Single (.symbol .colon) Symbol.colon.label) between rest)
    (hvalue : ∀ rest, Ends rest → Spells (Conditional · e) value rest) (rest : Text)
    (hrest : Ends rest) :
    Spells (Entry · (.literal (.text name), e)) (.concat [key, between, value]) rest := by
  refine .concat_cons (hkey _) ?_
  rintro - ⟨token, rfl, hkind, htext⟩
  refine .concat_cons (hbetween _) ?_
  rintro - ⟨c, rfl, hc, -⟩
  refine .concat_one ((hvalue rest hrest).mono fun ts hts => ?_)
  have hname : ∀ t, [token] = [t] → t.kind ≠ .name := by
    rintro t ⟨rfl⟩
    rw [hkind]
    exact nofun
  have hconstant : Conditional [token] (.literal (.text name)) :=
    htext ▸ (Primary.strings (.one hkind)).signed.conditional
  exact .pair (.computed hconstant hname) hc hts

theorem isSpelled_object (h : ∀ e ∈ fields, IsSpelled e.2) : IsSpelled (.object fields) := by
  intro rest _
  rw [literal, expression, fieldLiterals_eq_map, fieldExpressions_eq_map]
  refine Expr.spells_object separates_commaBlank (fun e he => ?_) rest
  exact spells_field (Token.spells_lineQuoted e.1) (fun _ => (spells_alone .colon rfl).blank) (h e he)

-- Integers are all the numbers that a literal has.
theorem isSpelled (h : ∀ n ∈ v.numbers, ∃ z, n.IsCanonical z) : IsSpelled v := by
  induction v with
  | null => exact Expr.isWritten_literal .null
  | bool b => exact Expr.isWritten_literal (.bool b)
  | number n =>
    obtain ⟨z, hz⟩ := h n (List.mem_singleton_self n)
    exact Expr.isWritten_literal (.number hz)
  | text t => exact isSpelled_text t
  | list items ih =>
    exact isSpelled_list fun v hv => ih v hv (forall_mem_allNumbers.mp h v hv)
  | tuple items ih =>
    exact isSpelled_tuple fun v hv => ih v hv (forall_mem_allNumbers.mp h v hv)
  | object fields ih =>
    exact isSpelled_object fun e he => ih e he (forall_mem_fieldNumbers.mp h e he)

theorem evaluateAll_expressions (h : ∀ v ∈ items, v.expression.evaluate library scope = .ok v) :
    Expr.evaluateAll library scope (expressions items) = .ok items := by
  induction items with
  | nil => rfl
  | cons v rest ih =>
    rw [List.forall_mem_cons] at h
    rw [expressions, Expr.evaluateAll, h.1, ih h.2]
    rfl

theorem evaluateEntries_fieldExpressions
    (h : ∀ e ∈ fields, e.2.expression.evaluate library scope = .ok e.2) :
    Expr.evaluateEntries library scope (fieldExpressions fields) =
      .ok (fields.map fun e => (.text e.1, e.2)) := by
  induction fields with
  | nil => rfl
  | cons e rest ih =>
    rw [List.forall_mem_cons] at h
    rw [fieldExpressions, Expr.evaluateEntries, h.1, ih h.2]
    rfl

-- The names of an object are set one after another, so they must not repeat.
theorem objectOf_fields (h : fields.keys.Nodup) :
    Expr.objectOf (fields.map fun e => (.text e.1, e.2)) = .ok (.object fields) := by
  have hfields : (fields.map fun e => (Value.text e.1, e.2)).mapM Expr.fieldOf = .ok fields := by
    rw [mapM_eq_ok_iff, List.forall₂_map_left_iff]
    exact List.forall₂_same.mpr fun e _ => rfl
  have hobject : Expr.objectOf (fields.map fun e => (.text e.1, e.2)) =
      ((fields.map fun e => (Value.text e.1, e.2)).mapM Expr.fieldOf >>= fun fields =>
        .ok (.object (Fields.ofEntries fields))) := rfl
  rw [hobject, hfields]
  exact congrArg (fun fields => Except.ok (Value.object fields)) (Fields.ofEntries_eq_self h)

theorem evaluate_expression (h : v.DistinctNames) : v.expression.evaluate library scope = .ok v := by
  induction v with
  | list items ih =>
    have hitems := evaluateAll_expressions fun v hv => ih v hv (distinctNames_list.mp h v hv)
    rw [expression, Expr.evaluate, hitems]
    rfl
  | tuple items ih =>
    have hitems := evaluateAll_expressions fun v hv => ih v hv (distinctNames_tuple.mp h v hv)
    rw [expression, Expr.evaluate, hitems]
    rfl
  | object fields ih =>
    obtain ⟨hnames, hvalues⟩ := distinctNames_object.mp h
    have hentries := evaluateEntries_fieldExpressions fun e he => ih e he (hvalues e he)
    rw [expression, Expr.evaluate, hentries]
    exact objectOf_fields hnames
  | _ => rfl

theorem areLiterals_expressions (h : ∀ v ∈ items, v.expression.isLiteral = true) :
    Expr.areLiterals (expressions items) = true := by
  induction items with
  | nil => rfl
  | cons v rest ih =>
    rw [List.forall_mem_cons] at h
    rw [expressions, Expr.areLiterals, h.1, ih h.2, Bool.and_self]

theorem areLiteralEntries_fieldExpressions (h : ∀ e ∈ fields, e.2.expression.isLiteral = true) :
    Expr.areLiteralEntries (fieldExpressions fields) = true := by
  induction fields with
  | nil => rfl
  | cons e rest ih =>
    rw [List.forall_mem_cons] at h
    rw [fieldExpressions, Expr.areLiteralEntries, h.1, ih h.2]
    rfl

theorem isLiteral_expression (v : Value) : v.expression.isLiteral = true := by
  induction v with
  | list items ih => exact areLiterals_expressions ih
  | tuple items ih => exact areLiterals_expressions ih
  | object fields ih => exact areLiteralEntries_fieldExpressions ih
  | _ => rfl

theorem oneLine_literals (h : ∀ v ∈ items, OneLine v.literal) :
    OneLine (.join ", " (literals items)) := by
  rw [literals_eq_map]
  exact oneLine_join (by decide) (List.forall_mem_map.mpr h)

theorem oneLine_literal (v : Value) : OneLine v.literal := by
  induction v with
  | null => decide
  | bool b => cases b <;> decide
  | number n => exact n.oneLine_source
  | text t => exact Token.oneLine_lineQuoted t
  | list items ih => exact oneLine_enclosed (by decide) (oneLine_literals ih) (by decide)
  | tuple items ih =>
    have hcomma : OneLine (if items.length = 1 then "," else "") := by split <;> decide
    exact oneLine_enclosed (by decide) (oneLine_concat (List.forall_mem_cons.mpr
      ⟨oneLine_literals ih, List.forall_mem_singleton.mpr hcomma⟩)) (by decide)
  | object fields ih =>
    have hfields : OneLine (.join ", " (fieldLiterals fields)) := by
      rw [fieldLiterals_eq_map]
      refine oneLine_join (by decide) (List.forall_mem_map.mpr fun e he => ?_)
      exact oneLine_enclosed (Token.oneLine_lineQuoted e.1) (by decide) (ih e he)
    exact oneLine_enclosed (by decide) hfields (by decide)

-- A text that is parsed as the expression of a value is a literal of the value.
theorem ofLiteral?_of_parse {t : Text} (hnames : v.DistinctNames)
    (hparse : Expr.parse t = .ok v.expression) : ofLiteral? t = .ok (some v) := by
  rw [ofLiteral?, hparse]
  simp only [Expr.literal?, isLiteral_expression, evaluate_expression hnames]
  rfl

-- What is written for a value spells it.
theorem ofSpelling_literal (hnames : v.DistinctNames)
    (hnumbers : ∀ n ∈ v.numbers, ∃ z, n.IsCanonical z) : ofSpelling v.literal = .ok v := by
  rw [ofSpelling, ofLiteral?_of_parse hnames (Expr.parse_of_spells (isSpelled hnumbers [] ends_nil))]
  rfl

end Value

end RecordQuery
