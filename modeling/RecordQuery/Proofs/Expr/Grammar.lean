import RecordQuery.Expr.Parser

/-!
The grammar of the query language: which lists of tokens are phrases of which category, and what
each phrase stands for. Where the rules say `{x}` they mean any number of x, and `[x]` means x or
nothing.
-/

namespace RecordQuery.Grammar

open RecordQuery.Expr (Level)

-- The operators whose operands are phrases of the next level.
inductive Operator : Level → Token.Kind → (Expr → Expr → Expr) → Prop
  | or : Operator .or (.keyword .or) (.logical .or)
  | and : Operator .and (.keyword .and) (.logical .and)
  | add : Operator .sum (.symbol .plus) (.binary (.exact .add))
  | sub : Operator .sum (.symbol .minus) (.binary (.exact .sub))
  | mul : Operator .product (.symbol .star) (.binary (.exact .mul))
  | divide : Operator .product (.symbol .slash) (.binary .divide)
  | quotient : Operator .product (.symbol .slashes) (.binary (.exact .quotient))
  | remainder : Operator .product (.symbol .percent) (.binary (.exact .remainder))

inductive Comparator : Token.Kind → CompareOp → Prop
  | eq : Comparator (.symbol .equal) .eq
  | ne : Comparator (.symbol .notEqual) .ne
  | lt : Comparator (.symbol .less) .lt
  | le : Comparator (.symbol .lessEqual) .le
  | gt : Comparator (.symbol .greater) .gt
  | ge : Comparator (.symbol .greaterEqual) .ge
  | member : Comparator (.keyword .member) .member
  | notMember : Comparator (.keyword .notMember) .notMember

-- Tokens that stand for a value by themselves.
inductive Constant : Token → Value → Prop
  | integer {t} (h : t.kind = .integer) : Constant t (.number (Number.ofIntegerText t.text))
  | float {t} (h : t.kind = .float) : Constant t (Expr.floatOf t.text)
  | truth {t} (h : t.kind = .keyword .truth) : Constant t (.bool true)
  | falsity {t} (h : t.kind = .keyword .falsity) : Constant t (.bool false)
  | null {t} (h : t.kind = .keyword .null) : Constant t .null

-- string {string}
inductive Strings : List Token → Text → Prop
  | one {t} (h : t.kind = .string) : Strings [t] t.text
  | more {t ts text} (h : t.kind = .string) (hs : Strings ts text) :
    Strings (t :: ts) (t.text ++ text)

-- name {',' name}
inductive Names : List Token → List Text → Prop
  | one {t} (h : t.kind = .name) : Names [t] [t.text]
  | more {t c ts names} (h : t.kind = .name) (hc : c.kind = .symbol .comma)
    (hs : Names ts names) : Names (t :: c :: ts) (t.text :: names)

mutual

-- or ['if' or ['else' conditional]]
inductive Conditional : List Token → Expr → Prop
  | plain {ts e} (h : Chain .or ts e) : Conditional ts e
  | guard {us vs i e test} (h : Chain .or us e) (hi : i.kind = .keyword .when)
    (ht : Chain .or vs test) : Conditional (us ++ i :: vs) (.conditional test e (.list []))
  | choice {us vs ws i o e test alternate} (h : Chain .or us e) (hi : i.kind = .keyword .when)
    (ht : Chain .or vs test) (ho : o.kind = .keyword .otherwise)
    (ha : Conditional ws alternate) :
    Conditional (us ++ i :: (vs ++ o :: ws)) (.conditional test e alternate)

-- operand {operator operand}, grouped from the left, for each level
inductive Chain : Level → List Token → Expr → Prop
  | operand {level ts e} (h : Operand level ts e) : Chain level ts e
  | join {level us vs o left right op} (h : Chain level us left) (ho : Operator level o.kind op)
    (hr : Operand level vs right) : Chain level (us ++ o :: vs) (op left right)

-- The operands of `or` are chains of `and`, those of `and` negations, those of a sum are products,
-- and those of a product have signs.
inductive Operand : Level → List Token → Expr → Prop
  | conjunction {ts e} (h : Chain .and ts e) : Operand .or ts e
  | negation {ts e} (h : Negation ts e) : Operand .and ts e
  | product {ts e} (h : Chain .product ts e) : Operand .sum ts e
  | signed {ts e} (h : Signed ts e) : Operand .product ts e

-- 'not' negation | comparison
inductive Negation : List Token → Expr → Prop
  | not {t ts e} (ht : t.kind = .keyword .not) (h : Negation ts e) :
    Negation (t :: ts) (.unary .not e)
  | comparison {ts e} (h : Comparison ts e) : Negation ts e

-- sum {comparator sum}, all in one comparison
inductive Comparison : List Token → Expr → Prop
  | sum {ts e} (h : Chain .sum ts e) : Comparison ts e
  | compare {us vs e link links} (h : Chain .sum us e) (hl : Links vs (link :: links)) :
    Comparison (us ++ vs) (.compare e (link :: links))

inductive Links : List Token → List (CompareOp × Expr) → Prop
  | nil : Links [] []
  | cons {o us vs op e links} (ho : Comparator o.kind op) (h : Chain .sum us e)
    (hl : Links vs links) : Links (o :: (us ++ vs)) ((op, e) :: links)

-- ('-' | '+') signed | power, where a minus before a number is part of the number
inductive Signed : List Token → Expr → Prop
  | number {t ts n} (ht : t.kind = .symbol .minus) (h : Signed ts (.literal (.number n))) :
    Signed (t :: ts) (.literal (.number n.neg))
  | minus {t ts e} (ht : t.kind = .symbol .minus) (h : Signed ts e)
    (hn : ∀ n, e ≠ .literal (.number n)) : Signed (t :: ts) (.unary .minus e)
  | plus {t ts e} (ht : t.kind = .symbol .plus) (h : Signed ts e) :
    Signed (t :: ts) (.unary .plus e)
  | power {ts e} (h : Power ts e) : Signed ts e

-- trailed ['**' signed]
inductive Power : List Token → Expr → Prop
  | base {ts e} (h : Trailed ts e) : Power ts e
  | power {us vs t base exponent} (h : Trailed us base) (ht : t.kind = .symbol .stars)
    (hx : Signed vs exponent) : Power (us ++ t :: vs) (.binary (.exact .power) base exponent)

-- primary {'.' name [arguments] | '[' conditional ']' | '[' [conditional] ':' [conditional] ']'}
inductive Trailed : List Token → Expr → Prop
  | primary {ts e} (h : Primary ts e) : Trailed ts e
  | attribute {us d t object} (h : Trailed us object) (hd : d.kind = .symbol .dot)
    (ht : t.kind = .name) : Trailed (us ++ [d, t]) (.attribute object t.text)
  | method {us vs d t object es} (h : Trailed us object) (hd : d.kind = .symbol .dot)
    (ht : t.kind = .name) (ha : Arguments vs es) :
    Trailed (us ++ d :: t :: vs) (.call t.text (object :: es))
  | index {us vs l r object e} (h : Trailed us object) (hl : l.kind = .symbol .leftBracket)
    (hi : Conditional vs e) (hr : r.kind = .symbol .rightBracket) :
    Trailed (us ++ l :: (vs ++ [r])) (.index object e)
  | slice {us vs ws l c r object start finish} (h : Trailed us object)
    (hl : l.kind = .symbol .leftBracket) (hs : Bound vs start) (hc : c.kind = .symbol .colon)
    (hf : Bound ws finish) (hr : r.kind = .symbol .rightBracket) :
    Trailed (us ++ l :: (vs ++ c :: (ws ++ [r]))) (.slice object start finish)

-- [conditional]
inductive Bound : List Token → Option Expr → Prop
  | absent : Bound [] none
  | present {ts e} (h : Conditional ts e) : Bound ts (some e)

-- '(' listed ')'
inductive Arguments : List Token → List Expr → Prop
  | parens {ts l r es} (hl : l.kind = .symbol .leftParen) (h : Listed ts es)
    (hr : r.kind = .symbol .rightParen) : Arguments (l :: (ts ++ [r])) es

-- [conditional {',' conditional} [',']]
inductive Listed : List Token → List Expr → Prop
  | nil : Listed [] []
  | last {ts e} (h : Conditional ts e) : Listed ts [e]
  | more {us vs c e es} (h : Conditional us e) (hc : c.kind = .symbol .comma)
    (hs : Listed vs es) : Listed (us ++ c :: vs) (e :: es)

-- constant | strings | name [arguments] | '(' ')' | '(' conditional ')'
-- | '(' conditional ',' listed ')' | '[' listed ']'
-- | '[' conditional 'for' names 'in' or ['if' or] ']' | '{' entries '}'
inductive Primary : List Token → Expr → Prop
  | constant {t value} (h : Constant t value) : Primary [t] (.literal value)
  | strings {ts text} (h : Strings ts text) : Primary ts (.literal (.text text))
  | name {t} (ht : t.kind = .name) : Primary [t] (.name t.text)
  | call {t ts es} (ht : t.kind = .name) (ha : Arguments ts es) :
    Primary (t :: ts) (.call t.text es)
  | empty {l r} (hl : l.kind = .symbol .leftParen) (hr : r.kind = .symbol .rightParen) :
    Primary [l, r] (.tuple [])
  | group {ts l r e} (hl : l.kind = .symbol .leftParen) (h : Conditional ts e)
    (hr : r.kind = .symbol .rightParen) : Primary (l :: (ts ++ [r])) e
  | tuple {us vs l c r e es} (hl : l.kind = .symbol .leftParen) (h : Conditional us e)
    (hc : c.kind = .symbol .comma) (hs : Listed vs es) (hr : r.kind = .symbol .rightParen) :
    Primary (l :: (us ++ c :: (vs ++ [r]))) (.tuple (e :: es))
  | list {ts l r es} (hl : l.kind = .symbol .leftBracket) (hs : Listed ts es)
    (hr : r.kind = .symbol .rightBracket) : Primary (l :: (ts ++ [r])) (.list es)
  | comprehension {us ns vs ws l f m r e names source condition}
    (hl : l.kind = .symbol .leftBracket) (h : Conditional us e) (hf : f.kind = .keyword .each)
    (hn : Names ns names) (hm : m.kind = .keyword .member) (hs : Chain .or vs source)
    (hc : Condition ws condition) (hr : r.kind = .symbol .rightBracket) :
    Primary (l :: (us ++ f :: (ns ++ m :: (vs ++ (ws ++ [r])))))
      (.comprehension e names source condition)
  | object {ts l r es} (hl : l.kind = .symbol .leftBrace) (hs : Entries ts es)
    (hr : r.kind = .symbol .rightBrace) : Primary (l :: (ts ++ [r])) (.object es)

-- ['if' or]
inductive Condition : List Token → Option Expr → Prop
  | absent : Condition [] none
  | present {t ts e} (ht : t.kind = .keyword .when) (h : Chain .or ts e) :
    Condition (t :: ts) (some e)

-- [entry {',' entry} [',']]
inductive Entries : List Token → List (Expr × Expr) → Prop
  | nil : Entries [] []
  | last {ts entry} (h : Entry ts entry) : Entries ts [entry]
  | more {us vs c entry es} (h : Entry us entry) (hc : c.kind = .symbol .comma)
    (hs : Entries vs es) : Entries (us ++ c :: vs) (entry :: es)

-- key ':' conditional
inductive Entry : List Token → Expr × Expr → Prop
  | pair {us vs c k v} (hk : Key us k) (hc : c.kind = .symbol .colon) (hv : Conditional vs v) :
    Entry (us ++ c :: vs) (k, v)

-- name | conditional, where a name alone stands for its own text
inductive Key : List Token → Expr → Prop
  | word {t} (ht : t.kind = .name) : Key [t] (.literal (.text t.text))
  | computed {ts e} (h : Conditional ts e) (hn : ∀ t, ts = [t] → t.kind ≠ .name) : Key ts e

end

-- What may follow the first of several conditionals: [',' listed]
inductive Others : List Token → List Expr → Prop
  | nil : Others [] []
  | comma {c ts es} (hc : c.kind = .symbol .comma) (hs : Listed ts es) : Others (c :: ts) es

theorem Others.listed {us vs e es} (ho : Others vs es) (h : Conditional us e) :
    Listed (us ++ vs) (e :: es) := by
  cases ho with
  | nil =>
    rw [List.append_nil]
    exact .last h
  | comma hc hs => exact .more h hc hs

-- conditional {',' conditional} [','], a tuple if there is a comma
inductive Query : List Token → Expr → Prop
  | single {ts e} (h : Conditional ts e) : Query ts e
  | tuple {us vs c e es} (h : Conditional us e) (hc : c.kind = .symbol .comma)
    (hs : Listed vs es) : Query (us ++ c :: vs) (.tuple (e :: es))

-- A phrase of a tight level is one of each looser level by itself.
theorem Primary.signed {ts e} (h : Primary ts e) : Signed ts e := .power (.base (.primary h))

theorem Signed.sum {ts e} (h : Signed ts e) : Chain .sum ts e :=
  .operand (.product (.operand (.signed h)))

theorem Chain.negation {ts e} (h : Chain .sum ts e) : Negation ts e := .comparison (.sum h)

theorem Negation.disjunction {ts e} (h : Negation ts e) : Chain .or ts e :=
  .operand (.conjunction (.operand (.negation h)))

theorem Negation.conditional {ts e} (h : Negation ts e) : Conditional ts e := .plain h.disjunction

theorem Signed.conditional {ts e} (h : Signed ts e) : Conditional ts e := h.sum.negation.conditional

-- An operand with what is attached to it is a query by itself.
theorem Trailed.query {ts e} (h : Trailed ts e) : Query ts e :=
  .single (Signed.conditional (.power (.base h)))

end RecordQuery.Grammar
