import RecordQuery.Proofs.Expr.Completeness
import RecordQuery.Proofs.Number.Arithmetic
import RecordQuery.Proofs.Token.Spelling

/-!
Expressions written out as sources, with every part of an expression in its own parentheses. What is
written for an expression is parsed as that expression.
-/

namespace RecordQuery

namespace Number

-- The sign, which zero has too.
def isNegative : Number → Bool
  | .float x => x.isNegative
  | .big n => n < 0

-- The digits of an integer, after a minus if it is negative.
def source (n : Number) : Text :=
  .concat [if n.isNegative then "-" else "", Text.ofNat ((n.toExact?.getD 0).natAbs)]

-- A number is its magnitude or the negative of it.
theorem IsCanonical.eq_abs {n : Number} {z : ℤ} (h : n.IsCanonical z) :
    (if n.isNegative then n.abs.neg else n.abs) = n := by
  cases n with
  | float x =>
    cases hx : x.isNegative with
    | false => simp [isNegative, hx, abs, Double.abs_eq_self hx]
    | true => simp [isNegative, hx, abs, neg, Double.neg_abs hx]
  | big m =>
    obtain ⟨rfl, hz⟩ := h
    simp only [isNegative, abs, neg, decide_eq_true_eq]
    split
    · next hneg =>
      have hm : -(m.natAbs : ℤ) = m := by omega
      rw [hm]
      exact if_neg hz
    · next hneg =>
      have hm : (m.natAbs : ℤ) = m := by omega
      rw [hm]

end Number

namespace Expr

open Token (Spells Separates Single Enclosed separates_commaBlank spaced spells_nil spells_alone
  spells_enclosed spells_join spells_name spells_reserved spells_spaced)
open Grammar
open Text (Ends ends_nil ends_cons)

def parens (t : Text) : Text := .concat ["(", t, ")"]

-- What a constant is written as.
def constantSource : Value → Text
  | .bool b => if b then "true" else "false"
  | .number n => n.source
  | .text t => Token.quoted t
  | _ => "null"

mutual

def source : Expr → Text
  | .literal v => constantSource v
  | .name n => n
  | .tuple elements =>
    parens (.concat [.join ", " (sources elements), if elements.length = 1 then "," else ""])
  | .list elements => .concat ["[", .join ", " (sources elements), "]"]
  | .object entries => .concat ["\x7b", .join ", " (entrySources entries), "\x7d"]
  | .comprehension element targets items condition =>
    .concat ["[", parens element.source, spaced "for", .join ", " targets, spaced "in",
      parens items.source, conditionSource condition, "]"]
  | .unary .not operand => .concat ["not", " ", parens operand.source]
  | .unary op operand => .concat [op.spelling, parens operand.source]
  | .binary op left right => .concat [parens left.source, spaced op.spelling, parens right.source]
  | .compare first links => .concat [parens first.source, linkSources links]
  | .logical op left right => .concat [parens left.source, spaced op.spelling, parens right.source]
  | .conditional test consequent alternate =>
    .concat [parens consequent.source, spaced "if", parens test.source, spaced "else",
      parens alternate.source]
  | .attribute container word => .concat [parens container.source, ".", word]
  | .index container place => .concat [parens container.source, "[", parens place.source, "]"]
  | .slice container start stop =>
    .concat [parens container.source, "[", boundSource start, ":", boundSource stop, "]"]
  | .call function arguments => .concat [function, "(", .join ", " (sources arguments), ")"]

def sources : List Expr → List Text
  | [] => []
  | e :: rest => parens e.source :: sources rest

def entrySources : List (Expr × Expr) → List Text
  | [] => []
  | (key, value) :: rest =>
    .concat [parens key.source, ": ", parens value.source] :: entrySources rest

def linkSources : List (CompareOp × Expr) → Text
  | [] => []
  | (op, e) :: rest => .concat [spaced op.spelling, parens e.source, linkSources rest]

def boundSource : Option Expr → Text
  | none => []
  | some e => parens e.source

def conditionSource : Option Expr → Text
  | none => []
  | some e => .concat [spaced "if", parens e.source]

end

-- An identifier that is no reserved word.
def IsName (n : Text) : Prop :=
  Text.identifierPrefix? n = some (n, []) ∧ Keyword.ofName? n = none

instance (n : Text) : Decidable (IsName n) := inferInstanceAs (Decidable (_ ∧ _))

-- The constants that a source can spell exactly: null, booleans, integers and texts.
inductive IsConstant : Value → Prop
  | null : IsConstant .null
  | bool (b : Bool) : IsConstant (.bool b)
  | number {n : Number} {z : ℤ} (h : n.IsCanonical z) : IsConstant (.number n)
  | text (t : Text) : IsConstant (.text t)

-- The expressions that a source can spell. A minus in front of a number, even of one in parentheses,
-- would become part of it.
inductive IsSpellable : Expr → Prop
  | literal {v} (h : IsConstant v) : IsSpellable (.literal v)
  | name {n} (h : IsName n) : IsSpellable (.name n)
  | tuple {elements} (h : ∀ e ∈ elements, IsSpellable e) : IsSpellable (.tuple elements)
  | list {elements} (h : ∀ e ∈ elements, IsSpellable e) : IsSpellable (.list elements)
  | object {entries} (hkeys : ∀ entry ∈ entries, IsSpellable entry.1)
    (hvalues : ∀ entry ∈ entries, IsSpellable entry.2) : IsSpellable (.object entries)
  | comprehension {element targets items condition} (helement : IsSpellable element)
    (hne : targets ≠ []) (htargets : ∀ n ∈ targets, IsName n) (hitems : IsSpellable items)
    (hcondition : ∀ e ∈ condition, IsSpellable e) :
    IsSpellable (.comprehension element targets items condition)
  | unary {op operand} (h : IsSpellable operand)
    (hminus : op = .minus → ∀ n, operand ≠ .literal (.number n)) : IsSpellable (.unary op operand)
  | binary {op left right} (hl : IsSpellable left) (hr : IsSpellable right) :
    IsSpellable (.binary op left right)
  | compare {first links} (h : IsSpellable first) (hne : links ≠ [])
    (hlinks : ∀ link ∈ links, IsSpellable link.2) : IsSpellable (.compare first links)
  | logical {op left right} (hl : IsSpellable left) (hr : IsSpellable right) :
    IsSpellable (.logical op left right)
  | conditional {test consequent alternate} (ht : IsSpellable test) (hc : IsSpellable consequent)
    (ha : IsSpellable alternate) : IsSpellable (.conditional test consequent alternate)
  | «attribute» {container word} (h : IsSpellable container) (hw : IsName word) :
    IsSpellable (.attribute container word)
  | index {container place} (h : IsSpellable container) (hp : IsSpellable place) :
    IsSpellable (.index container place)
  | slice {container start stop} (h : IsSpellable container) (hs : ∀ e ∈ start, IsSpellable e)
    (hf : ∀ e ∈ stop, IsSpellable e) : IsSpellable (.slice container start stop)
  | call {function arguments} (hn : IsName function) (h : ∀ e ∈ arguments, IsSpellable e) :
    IsSpellable (.call function arguments)

variable {α : Type} {as : List α} {e : Expr} {es : List Expr} {v : Value} {n rest : Text}

-- What is written for an expression is scanned as a phrase for it in front of what ends it.
def IsWritten (e : Expr) : Prop := ∀ rest, Ends rest → Spells (Conditional · e) e.source rest

-- The tokens of an expression in parentheses, which are no name alone.
def Grouped (e : Expr) (ts : List Token) : Prop := Primary ts e ∧ ∀ t, ts ≠ [t]

theorem Grouped.conditional {ts : List Token} (h : Grouped e ts) : Conditional ts e :=
  h.1.signed.conditional

theorem Grouped.disjunction {ts : List Token} (h : Grouped e ts) : Chain .or ts e :=
  h.1.signed.sum.negation.disjunction

theorem IsWritten.grouped (h : IsWritten e) (rest : Text) :
    Spells (Grouped e) (parens e.source) rest := by
  refine (spells_enclosed .leftParen .rightParen rfl rfl h rest).mono ?_
  rintro - ⟨l, us, r, rfl, hl, hus, hr⟩
  exact ⟨.group hl hus hr, by simp⟩

theorem sources_eq_map (es : List Expr) : sources es = es.map fun e => parens e.source := by
  induction es with
  | nil => rfl
  | cons e es ih => rw [sources, ih, List.map_cons]

theorem entrySources_eq_map (entries : List (Expr × Expr)) : entrySources entries =
    entries.map fun entry => .concat [parens entry.1.source, ": ", parens entry.2.source] := by
  induction entries with
  | nil => rfl
  | cons entry entries ih => rw [entrySources, ih, List.map_cons]

-- Lists of phrases with commas between them, whatever the phrases are written for.
theorem spells_listed {separator : Text} (hseparator : Separates separator) {part : α → Text}
    {phrase : α → Expr}
    (h : ∀ a ∈ as, ∀ rest, Ends rest → Spells (Conditional · (phrase a)) (part a) rest)
    (hrest : Ends rest) :
    Spells (Listed · (as.map phrase)) (.join separator (as.map part)) rest := by
  cases as with
  | nil => exact spells_nil .nil
  | cons a as =>
    exact spells_join hseparator part (fun a ts => Conditional ts (phrase a))
      (fun as ts => Listed ts (as.map phrase)) (fun a ts hts => .last hts)
      (fun a as us c vs hus hc hvs => .more hus hc hvs) h hrest

theorem spells_parens (h : ∀ e ∈ es, IsWritten e) :
    ∀ e ∈ es, ∀ rest, Ends rest → Spells (Conditional · (id e)) (parens e.source) rest :=
  fun e he rest _ => ((h e he).grouped rest).mono fun _ hts => hts.conditional

theorem spells_sources (h : ∀ e ∈ es, IsWritten e) (hrest : Ends rest) :
    Spells (Listed · es) (.join ", " (sources es)) rest := by
  have hlisted := spells_listed separates_commaBlank (spells_parens h) hrest
  rwa [List.map_id, ← sources_eq_map] at hlisted

theorem spells_entry {key value : Expr} (hk : IsWritten key) (hv : IsWritten value) (rest : Text) :
    Spells (Entry · (key, value)) (.concat [parens key.source, ": ", parens value.source]) rest := by
  refine .concat_cons (hk.grouped _) fun us hus => ?_
  refine .concat_cons (spells_alone .colon rfl).blank ?_
  rintro - ⟨c, rfl, hc, -⟩
  refine .concat_one ((hv.grouped rest).mono fun vs hvs => ?_)
  exact .pair (.computed hus.conditional fun t ht => absurd ht (hus.2 t)) hc hvs.conditional

theorem spells_entries {separator : Text} (hseparator : Separates separator) {part : α → Text}
    {entry : α → Expr × Expr}
    (h : ∀ a ∈ as, ∀ rest, Ends rest → Spells (Entry · (entry a)) (part a) rest)
    (hrest : Ends rest) :
    Spells (Entries · (as.map entry)) (.join separator (as.map part)) rest := by
  cases as with
  | nil => exact spells_nil .nil
  | cons a as =>
    exact spells_join hseparator part (fun a ts => Entry ts (entry a))
      (fun as ts => Entries ts (as.map entry)) (fun a ts hts => .last hts)
      (fun a as us c vs hus hc hvs => .more hus hc hvs) h hrest

theorem spells_targets {targets : List Text} (hne : targets ≠ []) (h : ∀ n ∈ targets, IsName n)
    (hrest : Ends rest) : Spells (Names · targets) (.join ", " targets) rest := by
  cases targets with
  | nil => exact absurd rfl hne
  | cons n targets =>
    have hjoin := spells_join separates_commaBlank id (Single .name)
      (fun names ts => Names ts names) ?_ ?_
      (fun n hn rest hends => spells_name (h n hn).1 (h n hn).2 hends) hrest
    · simpa using hjoin
    · rintro n - ⟨t, rfl, ht, rfl⟩
      exact .one ht
    · rintro n names - c vs ⟨t, rfl, ht, rfl⟩ hc hvs
      exact .more ht hc hvs

-- Constants and names.
theorem isWritten_name (h : IsName n) : IsWritten (.name n) := by
  intro rest hrest
  refine (spells_name h.1 h.2 hrest).mono ?_
  rintro - ⟨t, rfl, ht, rfl⟩
  exact (Primary.name ht).signed.conditional

theorem isWritten_reserved (word : Text) (k : Keyword)
    (hword : Text.identifierPrefix? word = some (word, [])) (hk : Keyword.ofName? word = some k)
    (hnot : k ≠ .not) (hsource : constantSource v = word)
    (hv : ∀ t : Token, t.kind = .keyword k → Constant t v) : IsWritten (.literal v) := by
  intro rest hrest
  rw [source, hsource]
  refine (spells_reserved hword hk (fun h => absurd h hnot) hrest).mono ?_
  rintro - ⟨t, rfl, ht, -⟩
  exact (Primary.constant (hv t ht)).signed.conditional

theorem spells_magnitude (m : ℕ) (hrest : Ends rest) :
    Spells (Signed · (.literal (.number (.ofInt m)))) (Text.ofNat m) rest := by
  refine (Token.spells_ofNat m hrest).mono ?_
  rintro - ⟨t, rfl, ht, htext⟩
  have hvalue : Number.ofIntegerText t.text = .ofInt m := by
    rw [htext, Number.ofIntegerText, Text.integerValue_ofNat]
  exact (Primary.constant (hvalue ▸ .integer ht)).signed

theorem isWritten_number {m : Number} {z : ℤ} (h : m.IsCanonical z) :
    IsWritten (.literal (.number m)) := by
  intro rest hrest
  rw [source, constantSource, Number.source, h.toExact?_eq, Option.getD_some]
  have hm := h.eq_abs
  have hmagnitude := spells_magnitude z.natAbs hrest
  rw [h.ofInt_natAbs] at hmagnitude
  split at hm
  · next hneg =>
    rw [if_pos hneg]
    refine .concat_cons (spells_alone .minus rfl) ?_
    rintro - ⟨t, rfl, ht, -⟩
    refine .concat_one (hmagnitude.mono fun us hus => ?_)
    exact hm ▸ (Signed.number ht hus).conditional
  · next hneg =>
    rw [if_neg hneg, Text.concat, List.flatten_cons, List.flatten_singleton]
    exact hmagnitude.mono fun us hus => hm ▸ hus.conditional

theorem isWritten_literal (h : IsConstant v) : IsWritten (.literal v) := by
  cases h with
  | null =>
    exact isWritten_reserved "null" .null (by decide +kernel) (by decide +kernel) nofun rfl
      fun _ => .null
  | bool b =>
    cases b with
    | false =>
      exact isWritten_reserved "false" .falsity (by decide +kernel) (by decide +kernel) nofun rfl
        fun _ => .falsity
    | true =>
      exact isWritten_reserved "true" .truth (by decide +kernel) (by decide +kernel) nofun rfl
        fun _ => .truth
  | number h => exact isWritten_number h
  | text t =>
    intro rest hrest
    refine (Token.spells_quoted t rest).mono ?_
    rintro - ⟨t, rfl, ht, rfl⟩
    exact (Primary.strings (.one ht)).signed.conditional

-- The elements of a tuple in parentheses: nothing, or an element with a comma behind it.
def Elements (es : List Expr) (ts : List Token) : Prop :=
  (ts = [] ∧ es = []) ∨ ∃ e more us c vs, es = e :: more ∧ ts = us ++ c :: vs ∧ Conditional us e ∧
    c.kind = .symbol .comma ∧ Listed vs more

theorem spells_elements {part : α → Text} {phrase : α → Expr}
    (h : ∀ a ∈ as, ∀ rest, Ends rest → Spells (Conditional · (phrase a)) (part a) rest)
    (hrest : Ends rest) :
    Spells (Elements (as.map phrase))
      (.concat [.join ", " (as.map part), if as.length = 1 then "," else ""]) rest := by
  match as with
  | [] => exact spells_nil (.inl ⟨rfl, rfl⟩)
  | [a] =>
    have hone : Text.join ", " ([a].map part) = part a := by simp [Text.join_cons]
    have hcomma : Ends (.concat [Text.ofString ","] ++ rest) := ends_cons.mpr (by decide)
    rw [hone, if_pos List.length_singleton]
    refine .concat_cons (h a List.mem_cons_self _ hcomma) fun us hus => ?_
    refine .concat_one ((spells_alone .comma rfl).mono ?_)
    rintro - ⟨c, rfl, hc, -⟩
    exact .inr ⟨phrase a, [], us, c, [], rfl, rfl, hus, hc, .nil⟩
  | a :: next :: more =>
    rw [if_neg (by simp), Text.concat, List.flatten_cons]
    refine (List.append_nil _).symm ▸ (spells_listed separates_commaBlank h hrest).mono
      fun ts hts => ?_
    cases hts with
    | more ha hc hmore => exact .inr ⟨phrase a, _, _, _, _, rfl, rfl, ha, hc, hmore⟩

-- Between parentheses they are a tuple.
theorem conditional_of_elements {ts : List Token}
    (h : Enclosed .leftParen .rightParen (Elements es) ts) : Conditional ts (.tuple es) := by
  obtain ⟨l, us, r, rfl, hl, hus, hr⟩ := h
  rcases hus with ⟨rfl, rfl⟩ | ⟨e, more, us, c, vs, rfl, rfl, he, hc, hmore⟩
  · exact (Primary.empty hl hr).signed.conditional
  · rw [List.append_assoc]
    exact (Primary.tuple hl he hc hmore hr).signed.conditional

theorem isWritten_tuple (h : ∀ e ∈ es, IsWritten e) : IsWritten (.tuple es) := by
  intro rest hrest
  have helements : ∀ rest, Ends rest → Spells (Elements es)
      (.concat [.join ", " (sources es), if es.length = 1 then "," else ""]) rest := by
    intro rest hrest
    have hes := spells_elements (spells_parens h) hrest
    rwa [List.map_id, ← sources_eq_map] at hes
  exact (spells_enclosed .leftParen .rightParen rfl rfl helements rest).mono
    fun ts => conditional_of_elements

-- Lists and objects of phrases, whatever the phrases are written for and stands between them.
theorem spells_list {separator : Text} (hseparator : Separates separator) {part : α → Text}
    {phrase : α → Expr}
    (h : ∀ a ∈ as, ∀ rest, Ends rest → Spells (Conditional · (phrase a)) (part a) rest)
    (rest : Text) : Spells (Conditional · (.list (as.map phrase)))
      (.concat ["[", .join separator (as.map part), "]"]) rest := by
  refine (spells_enclosed .leftBracket .rightBracket rfl rfl
    (fun rest hrest => spells_listed hseparator h hrest) rest).mono ?_
  rintro - ⟨l, ts, r, rfl, hl, hts, hr⟩
  exact (Primary.list hl hts hr).signed.conditional

theorem spells_object {separator : Text} (hseparator : Separates separator) {part : α → Text}
    {entry : α → Expr × Expr}
    (h : ∀ a ∈ as, ∀ rest, Ends rest → Spells (Entry · (entry a)) (part a) rest) (rest : Text) :
    Spells (Conditional · (.object (as.map entry)))
      (.concat ["\x7b", .join separator (as.map part), "\x7d"]) rest := by
  refine (spells_enclosed .leftBrace .rightBrace rfl rfl
    (fun rest hrest => spells_entries hseparator h hrest) rest).mono ?_
  rintro - ⟨l, ts, r, rfl, hl, hts, hr⟩
  exact (Primary.object hl hts hr).signed.conditional

theorem isWritten_list (h : ∀ e ∈ es, IsWritten e) : IsWritten (.list es) := by
  intro rest _
  have hlist := spells_list separates_commaBlank (spells_parens h) rest
  rwa [List.map_id, ← sources_eq_map] at hlist

theorem isWritten_object {entries : List (Expr × Expr)}
    (hkeys : ∀ entry ∈ entries, IsWritten entry.1) (hvalues : ∀ entry ∈ entries, IsWritten entry.2) :
    IsWritten (.object entries) := by
  intro rest _
  have hparts : ∀ entry ∈ entries, ∀ rest, Ends rest → Spells (Entry · (id entry))
      (.concat [parens entry.1.source, ": ", parens entry.2.source]) rest :=
    fun entry he rest _ => spells_entry (hkeys entry he) (hvalues entry he) rest
  have hobject := spells_object separates_commaBlank hparts rest
  rwa [List.map_id, ← entrySources_eq_map] at hobject

theorem spells_condition {condition : Option Expr} (h : ∀ e ∈ condition, IsWritten e)
    (rest : Text) : Spells (Condition · condition) (conditionSource condition) rest := by
  cases condition with
  | none => exact spells_nil .absent
  | some e =>
    refine .concat_cons (spells_spaced (.keyword .when) rfl) ?_
    rintro - ⟨t, rfl, ht, -⟩
    refine .concat_one (((h e rfl).grouped rest).mono fun us hus => ?_)
    exact .present ht hus.disjunction

theorem isWritten_comprehension {element items : Expr} {targets : List Text}
    {condition : Option Expr} (helement : IsWritten element) (hne : targets ≠ [])
    (htargets : ∀ n ∈ targets, IsName n) (hitems : IsWritten items)
    (hcondition : ∀ e ∈ condition, IsWritten e) :
    IsWritten (.comprehension element targets items condition) := by
  intro rest hrest
  refine .concat_cons (spells_alone .leftBracket rfl) ?_
  rintro - ⟨l, rfl, hl, -⟩
  refine .concat_cons (helement.grouped _) fun us hus => ?_
  refine .concat_cons (spells_spaced (.keyword .each) rfl) ?_
  rintro - ⟨f, rfl, hf, -⟩
  refine .concat_cons (spells_targets hne htargets (ends_cons.mpr (by decide))) fun ns hns => ?_
  refine .concat_cons (spells_spaced (.keyword .member) rfl) ?_
  rintro - ⟨m, rfl, hm, -⟩
  refine .concat_cons (hitems.grouped _) fun vs hvs => ?_
  refine .concat_cons (spells_condition hcondition _) fun ws hws => ?_
  refine .concat_one ((spells_alone .rightBracket rfl).mono ?_)
  rintro - ⟨r, rfl, hr, -⟩
  exact (Primary.comprehension hl hus.conditional hf hns hm hvs.disjunction hws hr).signed.conditional

theorem isWritten_unary {op : UnaryOp} (h : IsWritten e)
    (hminus : op = .minus → ∀ n, e ≠ .literal (.number n)) : IsWritten (.unary op e) := by
  intro rest hrest
  cases op with
  | minus =>
    refine .concat_cons (spells_alone .minus rfl) ?_
    rintro - ⟨t, rfl, ht, -⟩
    refine .concat_one ((h.grouped rest).mono fun us hus => ?_)
    exact (Signed.minus ht hus.1.signed (hminus rfl)).conditional
  | plus =>
    refine .concat_cons (spells_alone .plus rfl) ?_
    rintro - ⟨t, rfl, ht, -⟩
    refine .concat_one ((h.grouped rest).mono fun us hus => ?_)
    exact (Signed.plus ht hus.1.signed).conditional
  | not =>
    have hblank : Ends (.concat [" ", parens e.source] ++ rest) := ends_cons.mpr (by decide)
    refine .concat_cons (spells_reserved (k := .not) (by decide +kernel) (by decide +kernel)
      (fun _ => rfl) hblank) ?_
    rintro - ⟨t, rfl, ht, -⟩
    refine .concat_cons Token.spells_blank fun us hus => ?_
    subst hus
    refine .concat_one ((h.grouped rest).mono fun us hus => ?_)
    exact (Negation.not ht hus.1.signed.sum.negation).conditional

def BinaryOp.symbol : BinaryOp → Symbol
  | .exact .add => .plus
  | .exact .sub => .minus
  | .exact .mul => .star
  | .exact .quotient => .slashes
  | .exact .remainder => .percent
  | .exact .power => .stars
  | .divide => .slash

theorem isWritten_binary {op : BinaryOp} {left right : Expr} (hl : IsWritten left)
    (hr : IsWritten right) : IsWritten (.binary op left right) := by
  intro rest hrest
  have hspelling : op.spelling = Token.Kind.label (.symbol (BinaryOp.symbol op)) := by
    cases op with
    | exact op => cases op <;> rfl
    | divide => rfl
  rw [source, hspelling]
  refine .concat_cons (hl.grouped _) fun us hus => ?_
  refine .concat_cons (spells_spaced _ rfl) ?_
  rintro - ⟨o, rfl, ho, -⟩
  refine .concat_one ((hr.grouped rest).mono fun vs hvs => ?_)
  have hsum : ∀ op, Operator .sum o.kind op → Conditional (us ++ o :: vs) (op left right) :=
    fun op hop => (Chain.join hus.1.signed.sum hop
      (.product (.operand (.signed hvs.1.signed)))).negation.conditional
  have hproduct : ∀ op, Operator .product o.kind op →
      Conditional (us ++ o :: vs) (op left right) :=
    fun op hop => (Chain.operand (.product (.join (.operand (.signed hus.1.signed)) hop
      (.signed hvs.1.signed)))).negation.conditional
  cases op with
  | divide => exact hproduct _ (ho ▸ .divide)
  | exact op =>
    cases op with
    | add => exact hsum _ (ho ▸ .add)
    | sub => exact hsum _ (ho ▸ .sub)
    | mul => exact hproduct _ (ho ▸ .mul)
    | quotient => exact hproduct _ (ho ▸ .quotient)
    | remainder => exact hproduct _ (ho ▸ .remainder)
    | power => exact Signed.conditional (.power (.power (.primary hus.1) ho hvs.1.signed))

theorem isWritten_logical {op : LogicalOp} {left right : Expr} (hl : IsWritten left)
    (hr : IsWritten right) : IsWritten (.logical op left right) := by
  intro rest hrest
  refine .concat_cons (hl.grouped _) fun us hus => ?_
  cases op with
  | and =>
    refine .concat_cons (spells_spaced (.keyword .and) rfl) ?_
    rintro - ⟨o, rfl, ho, -⟩
    refine .concat_one ((hr.grouped rest).mono fun vs hvs => ?_)
    exact .plain (.operand (.conjunction (.join (.operand (.negation hus.1.signed.sum.negation))
      (ho ▸ .and) (.negation hvs.1.signed.sum.negation))))
  | or =>
    refine .concat_cons (spells_spaced (.keyword .or) rfl) ?_
    rintro - ⟨o, rfl, ho, -⟩
    refine .concat_one ((hr.grouped rest).mono fun vs hvs => ?_)
    exact .plain (.join hus.disjunction (ho ▸ .or)
      (.conjunction (.operand (.negation hvs.1.signed.sum.negation))))

def CompareOp.kind : CompareOp → Token.Kind
  | .eq => .symbol .equal
  | .ne => .symbol .notEqual
  | .lt => .symbol .less
  | .le => .symbol .lessEqual
  | .gt => .symbol .greater
  | .ge => .symbol .greaterEqual
  | .member => .keyword .member
  | .notMember => .keyword .notMember

theorem spells_comparator (op : CompareOp) (rest : Text) :
    Spells (fun ts => ∃ o, ts = [o] ∧ Comparator o.kind op) (spaced op.spelling) rest := by
  have hspelling : op.spelling = (CompareOp.kind op).label := by cases op <;> rfl
  have hop : Comparator (CompareOp.kind op) op := by cases op <;> constructor
  rw [hspelling]
  refine (spells_spaced _ (by cases op <;> rfl)).mono ?_
  rintro - ⟨o, rfl, ho, -⟩
  exact ⟨o, rfl, ho ▸ hop⟩

theorem spells_links {links : List (CompareOp × Expr)} (h : ∀ link ∈ links, IsWritten link.2)
    (rest : Text) : Spells (Links · links) (linkSources links) rest := by
  induction links with
  | nil => exact spells_nil .nil
  | cons link links ih =>
    obtain ⟨hlink, hlinks⟩ := List.forall_mem_cons.mp h
    refine .concat_cons (spells_comparator _ _) ?_
    rintro - ⟨o, rfl, ho⟩
    refine .concat_cons (hlink.grouped _) fun us hus => ?_
    refine .concat_one ((ih hlinks).mono fun vs hvs => ?_)
    change Links (o :: (us ++ vs)) _
    exact .cons ho hus.1.signed.sum hvs

theorem isWritten_compare {links : List (CompareOp × Expr)} (h : IsWritten e) (hne : links ≠ [])
    (hlinks : ∀ link ∈ links, IsWritten link.2) : IsWritten (.compare e links) := by
  intro rest hrest
  refine .concat_cons (h.grouped _) fun us hus => ?_
  refine .concat_one ((spells_links hlinks rest).mono fun vs hvs => ?_)
  obtain ⟨link, links, rfl⟩ := List.exists_cons_of_ne_nil hne
  exact Negation.conditional (.comparison (.compare hus.1.signed.sum hvs))

theorem isWritten_conditional {test consequent alternate : Expr} (ht : IsWritten test)
    (hc : IsWritten consequent) (ha : IsWritten alternate) :
    IsWritten (.conditional test consequent alternate) := by
  intro rest hrest
  refine .concat_cons (hc.grouped _) fun us hus => ?_
  refine .concat_cons (spells_spaced (.keyword .when) rfl) ?_
  rintro - ⟨i, rfl, hi, -⟩
  refine .concat_cons (ht.grouped _) fun vs hvs => ?_
  refine .concat_cons (spells_spaced (.keyword .otherwise) rfl) ?_
  rintro - ⟨o, rfl, ho, -⟩
  refine .concat_one ((ha.grouped rest).mono fun ws hws => ?_)
  exact .choice hus.disjunction hi hvs.disjunction ho hws.conditional

theorem isWritten_attribute (h : IsWritten e) (hn : IsName n) : IsWritten (.attribute e n) := by
  intro rest hrest
  have hdot := Token.spells_dot hn.1 hrest
  refine .concat_cons (h.grouped _) fun us hus => ?_
  refine .concat_cons (by rwa [Text.concat, List.flatten_singleton]) ?_
  rintro - ⟨d, rfl, hd, -⟩
  refine .concat_one ((spells_name hn.1 hn.2 hrest).mono ?_)
  rintro - ⟨t, rfl, ht, rfl⟩
  exact Signed.conditional (.power (.base (.attribute (.primary hus.1) hd ht)))

theorem isWritten_index {place : Expr} (h : IsWritten e) (hp : IsWritten place) :
    IsWritten (.index e place) := by
  intro rest hrest
  refine .concat_cons (h.grouped _) fun us hus => ?_
  refine .concat_cons (spells_alone .leftBracket rfl) ?_
  rintro - ⟨l, rfl, hl, -⟩
  refine .concat_cons (hp.grouped _) fun vs hvs => ?_
  refine .concat_one ((spells_alone .rightBracket rfl).mono ?_)
  rintro - ⟨r, rfl, hr, -⟩
  exact Signed.conditional (.power (.base (.index (.primary hus.1) hl hvs.conditional hr)))

theorem spells_bound {bound : Option Expr} (h : ∀ e ∈ bound, IsWritten e) (rest : Text) :
    Spells (Bound · bound) (boundSource bound) rest := by
  cases bound with
  | none => exact spells_nil .absent
  | some e => exact ((h e rfl).grouped rest).mono fun us hus => .present hus.conditional

theorem isWritten_slice {start stop : Option Expr} (h : IsWritten e)
    (hs : ∀ e ∈ start, IsWritten e) (hf : ∀ e ∈ stop, IsWritten e) :
    IsWritten (.slice e start stop) := by
  intro rest hrest
  refine .concat_cons (h.grouped _) fun us hus => ?_
  refine .concat_cons (spells_alone .leftBracket rfl) ?_
  rintro - ⟨l, rfl, hl, -⟩
  refine .concat_cons (spells_bound hs _) fun vs hvs => ?_
  refine .concat_cons (spells_alone .colon rfl) ?_
  rintro - ⟨c, rfl, hc, -⟩
  refine .concat_cons (spells_bound hf _) fun ws hws => ?_
  refine .concat_one ((spells_alone .rightBracket rfl).mono ?_)
  rintro - ⟨r, rfl, hr, -⟩
  exact Signed.conditional (.power (.base (.slice (.primary hus.1) hl hvs hc hws hr)))

theorem isWritten_call (hn : IsName n) (h : ∀ e ∈ es, IsWritten e) : IsWritten (.call n es) := by
  intro rest hrest
  refine .concat_cons (spells_name hn.1 hn.2 (ends_cons.mpr (by decide))) ?_
  rintro - ⟨t, rfl, ht, rfl⟩
  have harguments := spells_enclosed .leftParen .rightParen rfl rfl
    (fun rest hrest => spells_sources h hrest) rest
  refine harguments.mono ?_
  rintro - ⟨l, us, r, rfl, hl, hus, hr⟩
  exact (Primary.call ht (.parens hl hus hr)).signed.conditional

-- By induction on the expression, with what follows it left open.
theorem IsSpellable.isWritten (h : IsSpellable e) : IsWritten e := by
  induction h with
  | literal h => exact isWritten_literal h
  | name h => exact isWritten_name h
  | tuple _ ih => exact isWritten_tuple ih
  | list _ ih => exact isWritten_list ih
  | object _ _ hkeys hvalues => exact isWritten_object hkeys hvalues
  | comprehension _ hne htargets _ _ helement hitems hcondition =>
    exact isWritten_comprehension helement hne htargets hitems hcondition
  | unary _ hminus ih => exact isWritten_unary ih hminus
  | binary _ _ hl hr => exact isWritten_binary hl hr
  | compare _ hne _ ih hlinks => exact isWritten_compare ih hne hlinks
  | logical _ _ hl hr => exact isWritten_logical hl hr
  | conditional _ _ _ ht hc ha => exact isWritten_conditional ht hc ha
  | «attribute» _ hw ih => exact isWritten_attribute ih hw
  | index _ _ ih hp => exact isWritten_index ih hp
  | slice _ _ _ ih hs hf => exact isWritten_slice ih hs hf
  | call hn _ ih => exact isWritten_call hn ih

-- A text that is scanned as a phrase is parsed as what the phrase stands for.
theorem parse_of_spells {t : Text} (h : Spells (Conditional · e) t []) : parse t = .ok e := by
  obtain ⟨ts, hts, hscan⟩ := h.scan_eq
  have hblank : t.all Text.isBlank = false := by
    rw [Bool.eq_false_iff]
    intro hblank
    obtain ⟨token, us, rfl, -⟩ := hts.opens
    rw [Token.scan, Token.scanFrom_blanks hblank] at hscan
    cases hscan
  rw [parse, hblank, hscan]
  exact ofTokens_complete _ (.single hts)

-- What is written for an expression is parsed as that expression.
theorem parse_source (h : IsSpellable e) : parse e.source = .ok e :=
  parse_of_spells (h.isWritten [] ends_nil)

-- A comprehension over a power of a negative number, with a string full of quotes and backslashes, a
-- tuple of one element, a sign, an integer beyond the safe range, a call with a point and a slice
-- behind it, and two words that are one token.
theorem parse_source_nested :
    let call := call "f" [.literal (.number (.ofInt (-9007199254740993)))]
    let entries := [(.literal (.text "it's \\"), .tuple [.unary .minus (.name "x")]),
      (.name "k", .slice (.attribute call "y") none (some (.name "x")))]
    let power := binary (.exact .power) (.name "z") (.literal (.number (.ofInt (-3))))
    let condition := logical .and (.compare (.name "x") [(.notMember, .name "k")])
      (.unary .not (.name "x"))
    let e := comprehension (.object entries) ["x", "k"] power (some condition)
    e.IsSpellable ∧ parse e.source = .ok e ∧ e.source = .concat
      ["[(\x7b('it\\'s \\\\'): (((-(x)),)), (k): (((f((-9007199254740993))).y)[:(x)])\x7d) ",
        "for x, k in ((z) ** (-3)) if (((x) not in (k)) and (not (x)))]"] := by
  intro call entries power condition e
  have hx : IsName "x" := by decide +kernel
  have hk : IsName "k" := by decide +kernel
  have hinteger : ∀ z, IsSpellable (.literal (.number (.ofInt z))) := fun z =>
    .literal (.number (Number.isCanonical_ofInt z))
  have hsome : ∀ e, IsSpellable e → ∀ d ∈ some e, IsSpellable d := by
    rintro e he _ ⟨⟩
    exact he
  have hcall : IsSpellable call :=
    .call (by decide +kernel) (List.forall_mem_singleton.mpr (hinteger _))
  have hentries : IsSpellable (.object entries) := by
    refine .object (List.forall_mem_cons.mpr ⟨.literal (.text _), ?_⟩)
      (List.forall_mem_cons.mpr ⟨.tuple ?_, ?_⟩)
    · exact List.forall_mem_singleton.mpr (.name hk)
    · exact List.forall_mem_singleton.mpr (.unary (.name hx) fun _ _ => Expr.noConfusion)
    · exact List.forall_mem_singleton.mpr (.slice (.attribute hcall (by decide +kernel)) nofun
        (hsome _ (.name hx)))
  have hcondition : IsSpellable condition :=
    .logical (.compare (.name hx) nofun (List.forall_mem_singleton.mpr (.name hk)))
      (.unary (.name hx) nofun)
  have he : IsSpellable e :=
    .comprehension hentries nofun (List.forall_mem_cons.mpr ⟨hx, List.forall_mem_singleton.mpr hk⟩)
      (.binary (.name (by decide +kernel)) (hinteger _)) (hsome _ hcondition)
  exact ⟨he, parse_source he, by decide +kernel⟩

end Expr

end RecordQuery
