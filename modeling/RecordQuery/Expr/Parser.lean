import RecordQuery.Expr.Basic
import RecordQuery.Token.Scan

/-!
Parsing tokens into expressions. From loose to tight: the comma of a tuple, conditionals, or, and,
not, comparisons, sums, products, signs, powers, and what follows an operand. Every function takes
the place of the end of the source for its messages, and the tokens it leaves are fewer than a bound
in its type, which is why parsing ends.
-/

namespace RecordQuery.Expr

-- A result with the tokens after it, fewer than `bound`.
structure Parsed (α : Type) (bound : Nat) where
  value : α
  rest : List Token
  lt_bound : rest.length < bound

abbrev ParseResult (α : Type) (bound : Nat) := Except SyntaxError (Parsed α bound)

-- The text of the next token, if it is of the given kind.
def accept? (kind : Token.Kind) : (ts : List Token) → Option (Parsed Text ts.length)
  | [] => none
  | t :: rest => if t.kind = kind then some ⟨t.text, rest, by simp⟩ else none

-- The text of the next token, which must be of the given kind.
def expect (stop : Nat) (kind : Token.Kind) : (ts : List Token) → ParseResult Text ts.length
  | [] => .error (.expected kind none stop)
  | t :: rest =>
    if t.kind = kind then .ok ⟨t.text, rest, by simp⟩
    else .error (.expected kind (some t.text) t.position)

-- Names separated by commas.
def names (stop : Nat) (ts : List Token) : ParseResult (List Text) ts.length := do
  let ⟨first, rest, _⟩ ← expect stop .name ts
  match accept? (.symbol .comma) rest with
  | none => return ⟨[first], rest, by omega⟩
  | some ⟨_, rest, _⟩ =>
    let ⟨more, rest, _⟩ ← names stop rest
    return ⟨first :: more, rest, by omega⟩
termination_by ts.length

-- Levels at which operators of equal strength group from the left.
inductive Level
  | or
  | and
  | sum
  | product
  deriving DecidableEq

-- The place of a level in the order in which the functions below call each other on the same tokens.
@[simp] def Level.depth : Level → Nat
  | .or => 18
  | .and => 16
  | .sum => 10
  | .product => 8

theorem Level.depth_le (level : Level) : level.depth ≤ 18 := by cases level <;> decide

-- The expression that an operator of a level makes of its operands.
def Level.join? (level : Level) (kind : Token.Kind) : Option (Expr → Expr → Expr) :=
  match level, kind with
  | .or, .keyword .or => some (logical .or)
  | .and, .keyword .and => some (logical .and)
  | .sum, .symbol .plus => some (binary (.exact .add))
  | .sum, .symbol .minus => some (binary (.exact .sub))
  | .product, .symbol .star => some (binary (.exact .mul))
  | .product, .symbol .slash => some (binary .divide)
  | .product, .symbol .slashes => some (binary (.exact .quotient))
  | .product, .symbol .percent => some (binary (.exact .remainder))
  | _, _ => none

def compareOp? : Token.Kind → Option CompareOp
  | .symbol .equal => some .eq
  | .symbol .notEqual => some .ne
  | .symbol .less => some .lt
  | .symbol .lessEqual => some .le
  | .symbol .greater => some .gt
  | .symbol .greaterEqual => some .ge
  | .keyword .member => some .member
  | .keyword .notMember => some .notMember
  | _ => none

def signOp? : Token.Kind → Option UnaryOp
  | .symbol .minus => some .minus
  | .symbol .plus => some .plus
  | _ => none

-- A sign before an operand. A minus before a number is part of the number.
def signed : UnaryOp → Expr → Expr
  | .minus, .literal (.number n) => .literal (.number n.neg)
  | op, operand => .unary op operand

-- The number of a token whose text is a decimal.
def floatOf (t : Text) : Value := .number (.float ((Double.readDecimal? false t).getD .nan))

-- The constant that a single token spells.
def constant? (t : Token) : Option Value :=
  match t.kind with
  | .integer => some (.number (Number.ofIntegerText t.text))
  | .float => some (floatOf t.text)
  | .keyword .truth => some (.bool true)
  | .keyword .falsity => some (.bool false)
  | .keyword .null => some .null
  | _ => none

mutual

-- A value, with a test after it and an alternative after that, or the value alone. Without an
-- alternative the empty list takes its place.
def conditional? (stop : Nat) (ts : List Token) : ParseResult Expr ts.length := do
  let ⟨consequent, rest, _⟩ ← chain stop .or ts
  match accept? (.keyword .when) rest with
  | none => return ⟨consequent, rest, by omega⟩
  | some ⟨_, rest, _⟩ =>
    let ⟨test, rest, _⟩ ← chain stop .or rest
    match accept? (.keyword .otherwise) rest with
    | none => return ⟨.conditional test consequent (.list []), rest, by omega⟩
    | some ⟨_, rest, _⟩ =>
      let ⟨alternate, rest, _⟩ ← conditional? stop rest
      return ⟨.conditional test consequent alternate, rest, by omega⟩
termination_by ts.length * 32 + 20

-- An operand of a level.
def operand (stop : Nat) (level : Level) (ts : List Token) : ParseResult Expr ts.length :=
  match level with
  | .or => chain stop .and ts
  | .and => negation stop ts
  | .sum => chain stop .product ts
  | .product => sign stop ts
termination_by ts.length * 32 + level.depth

-- Operands of a level with its operators between them.
def chain (stop : Nat) (level : Level) (ts : List Token) : ParseResult Expr ts.length := do
  let ⟨first, rest, _⟩ ← operand stop level ts
  let ⟨all, rest, _⟩ ← chainTail stop level first rest
  return ⟨all, rest, by omega⟩
termination_by ts.length * 32 + level.depth + 1

def chainTail (stop : Nat) (level : Level) (left : Expr) :
    (ts : List Token) → ParseResult Expr (ts.length + 1)
  | [] => return ⟨left, [], by simp⟩
  | t :: rest =>
    match level.join? t.kind with
    | none => return ⟨left, t :: rest, by simp⟩
    | some join => do
      let ⟨right, rest, _⟩ ← operand stop level rest
      let ⟨all, rest, _⟩ ← chainTail stop level (join left right) rest
      return ⟨all, rest, by simp; omega⟩
termination_by ts => ts.length * 32
decreasing_by
  · have := level.depth_le
    simp only [List.length_cons]
    omega
  · simp only [List.length_cons]
    omega

def negation (stop : Nat) (ts : List Token) : ParseResult Expr ts.length := do
  match accept? (.keyword .not) ts with
  | none => comparison stop ts
  | some ⟨_, rest, _⟩ =>
    let ⟨operand, rest, _⟩ ← negation stop rest
    return ⟨.unary .not operand, rest, by omega⟩
termination_by ts.length * 32 + 14

def comparison (stop : Nat) (ts : List Token) : ParseResult Expr ts.length := do
  let ⟨first, rest, _⟩ ← chain stop .sum ts
  let ⟨more, rest, _⟩ ← links stop rest
  return ⟨if more.isEmpty then first else .compare first more, rest, by omega⟩
termination_by ts.length * 32 + 12

def links (stop : Nat) : (ts : List Token) → ParseResult (List (CompareOp × Expr)) (ts.length + 1)
  | [] => return ⟨[], [], by simp⟩
  | t :: rest =>
    match compareOp? t.kind with
    | none => return ⟨[], t :: rest, by simp⟩
    | some op => do
      let ⟨operand, rest, _⟩ ← chain stop .sum rest
      let ⟨more, rest, _⟩ ← links stop rest
      return ⟨(op, operand) :: more, rest, by simp; omega⟩
termination_by ts => ts.length * 32

-- Signs before a power.
def sign (stop : Nat) : (ts : List Token) → ParseResult Expr ts.length
  | [] => power stop []
  | t :: rest =>
    match signOp? t.kind with
    | none => power stop (t :: rest)
    | some op => do
      let ⟨operand, rest, _⟩ ← sign stop rest
      return ⟨signed op operand, rest, by simp; omega⟩
termination_by ts => ts.length * 32 + 6

-- A power groups from the right and binds tighter than a sign before it.
def power (stop : Nat) (ts : List Token) : ParseResult Expr ts.length := do
  let ⟨base, rest, _⟩ ← trailed stop ts
  match accept? (.symbol .stars) rest with
  | none => return ⟨base, rest, by omega⟩
  | some ⟨_, rest, _⟩ =>
    let ⟨exponent, rest, _⟩ ← sign stop rest
    return ⟨.binary (.exact .power) base exponent, rest, by omega⟩
termination_by ts.length * 32 + 4

-- An operand with the attributes, calls and subscripts after it.
def trailed (stop : Nat) (ts : List Token) : ParseResult Expr ts.length := do
  let ⟨first, rest, _⟩ ← primary stop ts
  let ⟨all, rest, _⟩ ← trail stop first rest
  return ⟨all, rest, by omega⟩
termination_by ts.length * 32 + 2

-- What follows an object. A call of an attribute is a call with the object as first argument.
def trail (stop : Nat) (object : Expr) (ts : List Token) : ParseResult Expr (ts.length + 1) := do
  match accept? (.symbol .dot) ts with
  | some ⟨_, rest, _⟩ =>
    let ⟨word, rest, _⟩ ← expect stop .name rest
    match accept? (.symbol .leftParen) rest with
    | some ⟨_, rest, _⟩ =>
      let ⟨args, rest, _⟩ ← arguments stop rest
      let ⟨all, rest, _⟩ ← trail stop (.call word (object :: args)) rest
      return ⟨all, rest, by omega⟩
    | none =>
      let ⟨all, rest, _⟩ ← trail stop (.attribute object word) rest
      return ⟨all, rest, by omega⟩
  | none =>
    match accept? (.symbol .leftBracket) ts with
    | some ⟨_, rest, _⟩ =>
      let ⟨part, rest, _⟩ ← subscript stop object rest
      let ⟨all, rest, _⟩ ← trail stop part rest
      return ⟨all, rest, by omega⟩
    | none => return ⟨object, ts, by omega⟩
termination_by ts.length * 32

-- What stands in brackets after an object: an index, or the bounds of a slice.
def subscript (stop : Nat) (object : Expr) (ts : List Token) : ParseResult Expr ts.length := do
  match accept? (.symbol .colon) ts with
  | some ⟨_, rest, _⟩ =>
    let ⟨finish, rest, _⟩ ← sliceEnd stop rest
    return ⟨.slice object none finish, rest, by omega⟩
  | none =>
    let ⟨start, rest, _⟩ ← conditional? stop ts
    match accept? (.symbol .rightBracket) rest with
    | some ⟨_, rest, _⟩ => return ⟨.index object start, rest, by omega⟩
    | none =>
      let ⟨_, rest, _⟩ ← expect stop (.symbol .colon) rest
      let ⟨finish, rest, _⟩ ← sliceEnd stop rest
      return ⟨.slice object (some start) finish, rest, by omega⟩
termination_by ts.length * 32 + 22

def sliceEnd (stop : Nat) (ts : List Token) : ParseResult (Option Expr) ts.length := do
  match accept? (.symbol .rightBracket) ts with
  | some ⟨_, rest, _⟩ => return ⟨none, rest, by omega⟩
  | none =>
    let ⟨finish, rest, _⟩ ← conditional? stop ts
    let ⟨_, rest, _⟩ ← expect stop (.symbol .rightBracket) rest
    return ⟨some finish, rest, by omega⟩
termination_by ts.length * 32 + 22

-- Arguments up to the closing parenthesis. A comma may stand before it.
def arguments (stop : Nat) (ts : List Token) : ParseResult (List Expr) ts.length := do
  match accept? (.symbol .rightParen) ts with
  | some ⟨_, rest, _⟩ => return ⟨[], rest, by omega⟩
  | none =>
    let ⟨first, rest, _⟩ ← conditional? stop ts
    match accept? (.symbol .comma) rest with
    | some ⟨_, rest, _⟩ =>
      let ⟨more, rest, _⟩ ← arguments stop rest
      return ⟨first :: more, rest, by omega⟩
    | none =>
      let ⟨_, rest, _⟩ ← expect stop (.symbol .rightParen) rest
      return ⟨[first], rest, by omega⟩
termination_by ts.length * 32 + 22

def primary (stop : Nat) : (ts : List Token) → ParseResult Expr ts.length
  | [] => .error (.unexpectedEnd stop)
  | t :: rest => do
    match constant? t with
    | some v => return ⟨.literal v, rest, by simp⟩
    | none =>
      match t.kind with
      | .string =>
        let more := (rest.takeWhile (·.kind == .string)).map Token.text
        return ⟨.literal (.text (t.text ++ more.flatten)), rest.dropWhile (·.kind == .string),
          Nat.lt_succ_of_le (List.dropWhile_sublist _).length_le⟩
      | .name =>
        match accept? (.symbol .leftParen) rest with
        | none => return ⟨.name t.text, rest, by simp⟩
        | some ⟨_, rest, _⟩ =>
          let ⟨args, rest, _⟩ ← arguments stop rest
          return ⟨.call t.text args, rest, by simp; omega⟩
      | .symbol .leftParen =>
        let ⟨inner, rest, _⟩ ← parenthesized stop rest
        return ⟨inner, rest, by simp; omega⟩
      | .symbol .leftBracket =>
        let ⟨inner, rest, _⟩ ← bracketed stop rest
        return ⟨inner, rest, by simp; omega⟩
      | .symbol .leftBrace =>
        let ⟨members, rest, _⟩ ← entries stop rest
        return ⟨.object members, rest, by simp; omega⟩
      | _ => .error (.unexpectedToken t.text t.position)
termination_by ts => ts.length * 32

-- What stands in parentheses: an expression, or a tuple, which has a comma or nothing in it.
def parenthesized (stop : Nat) (ts : List Token) : ParseResult Expr ts.length := do
  match accept? (.symbol .rightParen) ts with
  | some ⟨_, rest, _⟩ => return ⟨.tuple [], rest, by omega⟩
  | none =>
    let ⟨first, rest, _⟩ ← conditional? stop ts
    match accept? (.symbol .rightParen) rest with
    | some ⟨_, rest, _⟩ => return ⟨first, rest, by omega⟩
    | none =>
      let ⟨more, rest, _⟩ ← elements stop (.symbol .rightParen) rest
      return ⟨.tuple (first :: more), rest, by omega⟩
termination_by ts.length * 32 + 22

-- What stands in brackets: a comprehension or the elements of a list.
def bracketed (stop : Nat) (ts : List Token) : ParseResult Expr ts.length := do
  match accept? (.symbol .rightBracket) ts with
  | some ⟨_, rest, _⟩ => return ⟨.list [], rest, by omega⟩
  | none =>
    let ⟨first, rest, _⟩ ← conditional? stop ts
    match accept? (.keyword .each) rest with
    | some ⟨_, rest, _⟩ =>
      let ⟨all, rest, _⟩ ← comprehended stop first rest
      return ⟨all, rest, by omega⟩
    | none =>
      let ⟨more, rest, _⟩ ← elements stop (.symbol .rightBracket) rest
      return ⟨.list (first :: more), rest, by omega⟩
termination_by ts.length * 32 + 22

-- Elements after the first, up to a closing token. A comma may stand before it.
def elements (stop : Nat) (closing : Token.Kind) (ts : List Token) :
    ParseResult (List Expr) ts.length := do
  match accept? (.symbol .comma) ts with
  | none =>
    let ⟨_, rest, _⟩ ← expect stop closing ts
    return ⟨[], rest, by omega⟩
  | some ⟨_, rest, _⟩ =>
    match accept? closing rest with
    | some ⟨_, rest, _⟩ => return ⟨[], rest, by omega⟩
    | none =>
      let ⟨next, rest, _⟩ ← conditional? stop rest
      let ⟨more, rest, _⟩ ← elements stop closing rest
      return ⟨next :: more, rest, by omega⟩
termination_by ts.length * 32

-- The rest of a comprehension after its element.
def comprehended (stop : Nat) (element : Expr) (ts : List Token) :
    ParseResult Expr ts.length := do
  let ⟨targets, rest, _⟩ ← names stop ts
  let ⟨_, rest, _⟩ ← expect stop (.keyword .member) rest
  let ⟨source, rest, _⟩ ← chain stop .or rest
  match accept? (.keyword .when) rest with
  | none =>
    let ⟨_, rest, _⟩ ← expect stop (.symbol .rightBracket) rest
    return ⟨.comprehension element targets source none, rest, by omega⟩
  | some ⟨_, rest, _⟩ =>
    let ⟨condition, rest, _⟩ ← chain stop .or rest
    let ⟨_, rest, _⟩ ← expect stop (.symbol .rightBracket) rest
    return ⟨.comprehension element targets source (some condition), rest, by omega⟩
termination_by ts.length * 32

-- Entries up to the closing brace. A comma may stand before it.
def entries (stop : Nat) (ts : List Token) : ParseResult (List (Expr × Expr)) ts.length := do
  match accept? (.symbol .rightBrace) ts with
  | some ⟨_, rest, _⟩ => return ⟨[], rest, by omega⟩
  | none =>
    let ⟨key, rest, _⟩ ← entryKey stop ts
    let ⟨_, rest, _⟩ ← expect stop (.symbol .colon) rest
    let ⟨value, rest, _⟩ ← conditional? stop rest
    match accept? (.symbol .comma) rest with
    | some ⟨_, rest, _⟩ =>
      let ⟨more, rest, _⟩ ← entries stop rest
      return ⟨(key, value) :: more, rest, by omega⟩
    | none =>
      let ⟨_, rest, _⟩ ← expect stop (.symbol .rightBrace) rest
      return ⟨[(key, value)], rest, by omega⟩
termination_by ts.length * 32 + 24

-- A key is an expression; a name right before the colon stands for its own text.
def entryKey (stop : Nat) (ts : List Token) : ParseResult Expr ts.length :=
  match accept? .name ts with
  | some ⟨word, rest, _⟩ =>
    if (accept? (.symbol .colon) rest).isSome then .ok ⟨.literal (.text word), rest, by omega⟩
    else conditional? stop ts
  | none => conditional? stop ts
termination_by ts.length * 32 + 22

end

-- The elements of a tuple without parentheses, after the first; a comma may end it.
def topElements (stop : Nat) (ts : List Token) : ParseResult (List Expr) (ts.length + 1) := do
  match accept? (.symbol .comma) ts with
  | none => return ⟨[], ts, by omega⟩
  | some ⟨_, [], _⟩ => return ⟨[], [], by simp⟩
  | some ⟨_, t :: rest, _⟩ =>
    let ⟨next, rest, _⟩ ← conditional? stop (t :: rest)
    let ⟨more, rest, _⟩ ← topElements stop rest
    return ⟨next :: more, rest, by omega⟩
termination_by ts.length

-- The expression that all the tokens spell. A comma after the first expression makes it a tuple.
def ofTokens (stop : Nat) (ts : List Token) : Except SyntaxError Expr := do
  let ⟨first, afterFirst, _⟩ ← conditional? stop ts
  let ⟨more, rest, _⟩ ← topElements stop afterFirst
  match rest with
  | t :: _ => .error (.unexpectedToken t.text t.position)
  | [] => return if afterFirst.isEmpty then first else .tuple (first :: more)

-- The expression that a source spells.
def parse (source : Text) : Except SyntaxError Expr := do
  if source.all Text.isBlank then .error .empty
  else ofTokens source.length (← Token.scan source)

end RecordQuery.Expr
