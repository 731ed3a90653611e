import RecordQuery.Text.Basic

/-!
The tokens of the query language: constants, names, reserved words and symbols, each with its place
in the source.
-/

namespace RecordQuery

-- Reserved words. The last but three joins two words into one comparison.
inductive Keyword
  | truth
  | falsity
  | null
  | and
  | or
  | not
  | member
  | notMember
  | when
  | otherwise
  | each
  deriving DecidableEq

def Keyword.label : Keyword → Text
  | .truth => "true"
  | .falsity => "false"
  | .null => "none"
  | .and => "and"
  | .or => "or"
  | .not => "not"
  | .member => "in"
  | .notMember => "not in"
  | .when => "if"
  | .otherwise => "else"
  | .each => "for"

-- The reserved word that an identifier is, if it is one. The constants have two spellings.
def Keyword.ofName? (name : Text) : Option Keyword :=
  List.lookup name
    [("True", .truth), ("true", .truth), ("False", .falsity), ("false", .falsity), ("None", .null),
      ("null", .null), ("and", .and), ("or", .or), ("not", .not), ("in", .member), ("if", .when),
      ("else", .otherwise), ("for", .each)]

inductive Symbol
  | leftParen
  | rightParen
  | leftBracket
  | rightBracket
  | leftBrace
  | rightBrace
  | comma
  | colon
  | dot
  | plus
  | minus
  | star
  | slash
  | slashes
  | percent
  | stars
  | equal
  | notEqual
  | less
  | lessEqual
  | greater
  | greaterEqual
  deriving DecidableEq

def Symbol.label : Symbol → Text
  | .leftParen => "("
  | .rightParen => ")"
  | .leftBracket => "["
  | .rightBracket => "]"
  | .leftBrace => "\x7b"
  | .rightBrace => "\x7d"
  | .comma => ","
  | .colon => ":"
  | .dot => "."
  | .plus => "+"
  | .minus => "-"
  | .star => "*"
  | .slash => "/"
  | .slashes => "//"
  | .percent => "%"
  | .stars => "**"
  | .equal => "=="
  | .notEqual => "!="
  | .less => "<"
  | .lessEqual => "<="
  | .greater => ">"
  | .greaterEqual => ">="

namespace Token

inductive Kind
  | integer
  | float
  | string
  | name
  | keyword (k : Keyword)
  | symbol (s : Symbol)
  deriving DecidableEq

-- What a kind is called in messages.
def Kind.label : Kind → Text
  | .integer => "int"
  | .float => "float"
  | .string => "string"
  | .name => "ident"
  | .keyword k => k.label
  | .symbol s => s.label

end Token

-- A token with its text, which for a number lacks underscores and for a string is what the string
-- stands for, the place of its first unit, and the number of units of the source that it takes.
structure Token where
  kind : Token.Kind
  text : Text
  position : Nat
  width : Nat
  deriving DecidableEq

end RecordQuery
