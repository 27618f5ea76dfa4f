import SlangScript.Grammar.Word
import SlangScript.LexError
import SlangScript.Text.Alphanumeric
import SlangScript.Text.Blank
import SlangScript.Token

/-! The lexeme at the front of a line. A line is read from its first character on: that character
decides which sort of lexeme begins, and the rest of the line decides how far it reaches. -/
namespace SlangScript

/-- What stands at the front of a line. -/
inductive Lexeme where
  /-- A token of the first character and `more` characters after it. -/
  | token (kind : TokenKind) (more : Nat)
  /-- White space, which is passed over. -/
  | blank
  /-- No lexeme: the fault lies `offset` characters after the first. -/
  | defect (kind : LexErrorKind) (offset : Nat)
  deriving DecidableEq, Repr

namespace Lexeme

/-- A run of digits, or two runs around a point. A second point is an error where it stands. -/
def number (text : List Char) : Lexeme :=
  let whole := (text.takeWhile Char.isDigit).length
  match text.dropWhile Char.isDigit with
  | '.' :: tail =>
    let fraction := (tail.takeWhile Char.isDigit).length
    if (tail.dropWhile Char.isDigit).head? = some '.' then
      defect .invalidNumber (whole + 1 + fraction)
    else token .floatNumber (whole + fraction)
  | _ => token .integer (whole - 1)

/-- The sort of a word. A name is a function's exactly when a parenthesis touches it. -/
def wordKind (word : String) (next : Option Char) : TokenKind :=
  if isKeyword word then .keyword
  else if isReservedWord word then .reservedWord
  else if next = some '(' then .function
  else .identifier

/-- The longest run of letters and digits. -/
def word (text : List Char) : Lexeme :=
  let run := text.takeWhile isAlphanumeric
  token (wordKind (String.ofList run) (text.dropWhile isAlphanumeric).head?) (run.length - 1)

/-- Everything up to the next quote of the same sort, both quotes included. -/
def quoted (quote : Char) (rest : List Char) : Lexeme :=
  let inside := rest.takeWhile (· ≠ quote)
  if inside.length < rest.length then token .string (inside.length + 1)
  else defect .unclosedString 0

/-- Two characters that spell an operator, else one that does. -/
def operator (c : Char) (rest : List Char) : Lexeme :=
  match rest.head?.bind fun d => Operator.ofChars? [c, d] with
  | some op => token (.operator op) 1
  | none =>
    match Operator.ofChars? [c] with
    | some op => token (.operator op) 0
    | none => defect (.invalidOperator c) 0

/-- A number begins with a digit, or with a point before a digit. -/
def startsNumber (c : Char) (rest : List Char) : Bool :=
  c.isDigit || (c = '.' && rest.head?.any Char.isDigit)

/-- Classifies the front of the line `c :: rest`. -/
def read (c : Char) (rest : List Char) : Lexeme :=
  if startsNumber c rest then number (c :: rest)
  else if isAlphanumeric c then word (c :: rest)
  else if c = '"' ∨ c = '\'' then quoted c rest
  else if operatorStarts.contains c then operator c rest
  else match Bracket.ofChar? c with
    | some b => token (.bracket b) 0
    | none =>
      match Delimiter.ofChar? c with
      | some d => token (.delimiter d) 0
      | none => if isBlank c then blank else defect (.invalidCharacter c) 0

end Lexeme

end SlangScript
