/-! Operators, brackets and delimiters: their spelling, their display name and the groups that the
grammar tells apart. -/
namespace SlangScript

inductive Operator where
  | assign | addAssign | subAssign | mulAssign | divAssign | remAssign | powAssign
  | add | sub | mul | div | rem | pow
  | increment | decrement
  | not | and | or
  | equalTo | notEqualTo | greater | less | greaterEqual | lessEqual
  deriving DecidableEq, Repr

namespace Operator

/-- Every operator, in the order of the language's table. -/
def all : List Operator :=
  [.assign, .addAssign, .subAssign, .mulAssign, .divAssign, .remAssign, .powAssign,
    .add, .sub, .mul, .div, .rem, .pow, .increment, .decrement, .not, .and, .or,
    .equalTo, .notEqualTo, .greater, .less, .greaterEqual, .lessEqual]

/-- The one or two characters that spell an operator. -/
def chars : Operator → List Char
  | assign => ['=']
  | addAssign => ['+', '=']
  | subAssign => ['-', '=']
  | mulAssign => ['*', '=']
  | divAssign => ['/', '=']
  | remAssign => ['%', '=']
  | powAssign => ['^', '=']
  | add => ['+']
  | sub => ['-']
  | mul => ['*']
  | div => ['/']
  | rem => ['%']
  | pow => ['^']
  | increment => ['+', '+']
  | decrement => ['-', '-']
  | not => ['!']
  | and => ['&', '&']
  | or => ['|', '|']
  | equalTo => ['=', '=']
  | notEqualTo => ['!', '=']
  | greater => ['>']
  | less => ['<']
  | greaterEqual => ['>', '=']
  | lessEqual => ['<', '=']

def symbol (op : Operator) : String := String.ofList op.chars

def name : Operator → String
  | assign => "Equal Sign"
  | addAssign => "Addition Assignment"
  | subAssign => "Subtraction Assignment"
  | mulAssign => "Multiplication Assignment"
  | divAssign => "Division Assignment"
  | remAssign => "Remainder Assignment"
  | powAssign => "Exponentiation Assignment"
  | add => "Addition Operator"
  | sub => "Subtraction Operator"
  | mul => "Multiplication Operator"
  | div => "Division Operator"
  | rem => "Remainder Operator"
  | pow => "Exponentiation Operator"
  | increment => "Increment Operator"
  | decrement => "Decrement Operator"
  | not => "Logical NOT Operator"
  | and => "Logical AND Operator"
  | or => "Logical OR Operator"
  | equalTo => "Equal To Operator"
  | notEqualTo => "Not Equal To Operator"
  | greater => "Greater Than Operator"
  | less => "Less Than Operator"
  | greaterEqual => "Greater Than or Equal To Operator"
  | lessEqual => "Less Than or Equal To Operator"

/-- The operator with exactly this spelling. -/
def ofChars? (cs : List Char) : Option Operator := all.find? (·.chars = cs)

def ofSymbol? (symbol : String) : Option Operator := ofChars? symbol.toList

/-- The relational and logical operators, which may stand between the two values of a condition. -/
def isComparison : Operator → Bool
  | not | and | or | equalTo | notEqualTo | greater | less | greaterEqual | lessEqual => true
  | _ => false

def isAssignment : Operator → Bool
  | assign | addAssign | subAssign | mulAssign | divAssign | remAssign | powAssign => true
  | _ => false

/-- The two operators that only ever follow their operand. -/
def isIncDec : Operator → Bool
  | increment | decrement => true
  | _ => false

/-- The operators that may join two operands. -/
def isBinary (op : Operator) : Bool := !op.isIncDec

end Operator

/-- The characters that may begin an operator. `&` and `|` begin one only when doubled. -/
def operatorStarts : List Char := ['=', '+', '-', '*', '/', '%', '^', '>', '<', '!', '&', '|']

inductive Bracket where
  | openParen | closeParen | openBracket | closeBracket | openBrace | closeBrace
  deriving DecidableEq, Repr

namespace Bracket

def all : List Bracket :=
  [.openParen, .closeParen, .openBracket, .closeBracket, .openBrace, .closeBrace]

def char : Bracket → Char
  | openParen => '('
  | closeParen => ')'
  | openBracket => '['
  | closeBracket => ']'
  | openBrace => '\x7b'
  | closeBrace => '\x7d'

def name : Bracket → String
  | openParen => "Open Parenthesis"
  | closeParen => "Close Parenthesis"
  | openBracket => "Open Bracket"
  | closeBracket => "Close Bracket"
  | openBrace => "Open Curly Brace"
  | closeBrace => "Close Curly Brace"

def ofChar? (c : Char) : Option Bracket := all.find? (·.char = c)

end Bracket

inductive Delimiter where
  | comma | semicolon | atSign
  deriving DecidableEq, Repr

namespace Delimiter

def all : List Delimiter := [.comma, .semicolon, .atSign]

def char : Delimiter → Char
  | comma => ','
  | semicolon => ';'
  | atSign => '@'

def name : Delimiter → String
  | comma => "Comma"
  | semicolon => "Semi-colon"
  | atSign => "At Sign"

def ofChar? (c : Char) : Option Delimiter := all.find? (·.char = c)

end Delimiter

end SlangScript
