import SlangScript.Proofs.Subtree
import SlangScript.Proofs.Grammar

/-! The canonical tokens of a tree: no semicolon and no comma that could be left out, and parentheses only
around a right operand that is itself joined by an operator. -/
namespace SlangScript

namespace Token

/-- A keyword or reserved word. -/
def ofWord (word : String) : Token :=
  ⟨if isKeyword word then .keyword else .reservedWord, word, .origin⟩

def ofName (name : String) : Token := ⟨.identifier, name, .origin⟩

def ofBracket (b : Bracket) : Token := ⟨.bracket b, String.singleton b.char, .origin⟩

def ofDelimiter (d : Delimiter) : Token := ⟨.delimiter d, String.singleton d.char, .origin⟩

def ofOperator (op : Operator) : Token := ⟨.operator op, op.symbol, .origin⟩

/-- The token of an operator that is given by its symbol. -/
def ofSymbol (symbol : String) : List Token := (Operator.ofSymbol? symbol).toList.map ofOperator

end Token

open Token

def inParens (ts : List Token) : List Token := ofBracket .openParen :: (ts ++ [ofBracket .closeParen])

def inBrackets (ts : List Token) : List Token :=
  ofBracket .openBracket :: (ts ++ [ofBracket .closeBracket])

def inBraces (ts : List Token) : List Token := ofBracket .openBrace :: (ts ++ [ofBracket .closeBrace])

/-- Sequences of tokens with commas between them. -/
def withCommas : List (List Token) → List Token
  | [] => []
  | [p] => p
  | p :: q :: ps => p ++ ofDelimiter .comma :: withCommas (q :: ps)

/-- A header in parentheses and the block behind it. -/
def withHeader : List (List Token) → List Token
  | [header, body] => inParens header ++ body
  | _ => []

/-- The three expressions of a loop header, and the block that they govern. -/
def withLoopHeader : List (List Token) → List Token
  | [start, test, step, body] => inParens
    (start ++ ofDelimiter .semicolon :: (test ++ ofDelimiter .semicolon :: step)) ++ body
  | _ => []

/-- Two sequences of tokens with an operator between them. -/
def withOperator (symbol : String) : List (List Token) → List Token
  | [left, right] => left ++ ofSymbol symbol ++ right
  | _ => []

/-- The tokens of a node with this text, where `parts` are those of its children. -/
def Tag.arrange (text : String) (parts : List (List Token)) : Tag → List Token
  | identifier => [ofName text]
  | integer => [⟨.integer, text, .origin⟩]
  | floatNumber => [⟨.floatNumber, text, .origin⟩]
  | string => [⟨.string, text, .origin⟩]
  | type => [ofWord text]
  | declaration => ofWord text :: parts.flatten
  | assignOp | assignmentOp | binaryOp => withOperator text parts
  | postfixOp | incDecOp => parts.flatten ++ ofSymbol text
  | functionCall => ⟨.function, text, .origin⟩ :: inParens (withCommas parts)
  | arrayLiteral => inBrackets (withCommas parts)
  | printStmt => ofWord "spill" :: inParens parts.flatten
  | inputStmt => ofWord "post" :: inParens parts.flatten
  | returnStmt => ofWord "reply" :: parts.flatten
  | lineStmt => ofName "line" :: ofOperator .assign :: inBrackets (withCommas parts)
  | ifBlock => ofWord "sus" :: withHeader parts
  | elseIfBlock => ofWord "else" :: ofWord "sus" :: withHeader parts
  | elseBlock => ofWord "else" :: inBraces parts.flatten
  | whileStmt => ofWord "talk" :: withHeader parts
  | switchStmt => ofWord "mood" :: withHeader parts
  | forStmt => ofWord "forreal" :: withLoopHeader parts
  | functionDef => ofWord "trend" :: ⟨.function, text, .origin⟩ :: withHeader parts
  | paramList => withCommas parts
  | block => inBraces parts.flatten
  | program | statementList | ifChain | param | exprStmt | expr => parts.flatten

/-- The tokens of an operand, given those of its tree. -/
def Tree.asOperand (t : Tree) (ts : List Token) : List Token :=
  if t.tag = .binaryOp then inParens ts else ts

/-- Puts the right operand of a binary operator in parentheses where it needs them. -/
def Tag.groupRight (children : List Tree) (parts : List (List Token)) : Tag → List (List Token)
  | binaryOp =>
    match children, parts with
    | [_, r], [left, right] => [left, r.asOperand right]
    | _, _ => parts
  | _ => parts

namespace Tree

mutual

/-- The canonical tokens of a tree. -/
def unparse : Tree → List Token
  | node tag value children =>
    tag.arrange (value.getD "") (tag.groupRight children (unparseEach children))

def unparseEach : List Tree → List (List Token)
  | [] => []
  | t :: ts => unparse t :: unparseEach ts

end

end Tree

end SlangScript
