import SlangScript.Grammar.Symbol
import SlangScript.Span

/-! Tokens: a kind, the text that was read, and where it stood. The kind alone decides what an
operator, bracket or delimiter is; the text decides which word a keyword or reserved word is. -/
namespace SlangScript

inductive TokenKind where
  | integer
  | floatNumber
  | string
  | identifier
  /-- A word directly followed by `(`: the name in a call or a definition. -/
  | function
  | keyword
  | reservedWord
  | operator (op : Operator)
  | bracket (b : Bracket)
  | delimiter (d : Delimiter)
  deriving DecidableEq, Repr

namespace TokenKind

def name : TokenKind → String
  | integer => "Integer"
  | floatNumber => "Float Number"
  | string => "String"
  | identifier => "Identifier"
  | function => "Function"
  | keyword => "Keyword"
  | reservedWord => "Reserved Word"
  | operator op => op.name
  | bracket b => b.name
  | delimiter d => d.name

/-- Every kind, in the order in which their names are tried. -/
def all : List TokenKind :=
  [integer, floatNumber, string, identifier, function, keyword, reservedWord]
    ++ Operator.all.map operator ++ Bracket.all.map bracket ++ Delimiter.all.map delimiter

def ofName? (name : String) : Option TokenKind := all.find? (·.name = name)

/-- A keyword or a reserved word. -/
def isWord : TokenKind → Bool
  | keyword | reservedWord => true
  | _ => false

end TokenKind

structure Token where
  kind : TokenKind
  lexeme : String
  span : Span
  deriving DecidableEq, Repr

namespace Token

/-- A keyword or reserved word with this spelling. -/
def isWord (t : Token) (word : String) : Bool := t.kind.isWord && t.lexeme = word

def isBracket (t : Token) (b : Bracket) : Bool := t.kind = .bracket b

def isDelimiter (t : Token) (d : Delimiter) : Bool := t.kind = .delimiter d

def operator? (t : Token) : Option Operator :=
  match t.kind with
  | .operator op => some op
  | _ => none

/-- A token as messages show it. -/
def display (t : Token) : String := s!"({t.kind.name}, {t.lexeme})"

end Token

/-- The tokens of one line of source text. A line without tokens is kept, so that there are as many
of these as lines. -/
structure TokenLine where
  line : Nat
  tokens : List Token
  deriving DecidableEq, Repr

/-- All tokens in order, without the division into lines. -/
def TokenLine.flatten (lines : List TokenLine) : List Token := lines.flatMap (·.tokens)

end SlangScript
