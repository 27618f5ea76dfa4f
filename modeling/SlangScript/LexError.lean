import SlangScript.Span

/-! What can be wrong with a program before it is parsed: characters that form no lexeme, and
constructs whose header, body or line list is malformed. -/
namespace SlangScript

/-- The cause of a lexical error, with the words that its message names. -/
inductive LexErrorKind where
  | emptyInput
  | invalidNumber
  | invalidCharacter (c : Char)
  | invalidOperator (c : Char)
  | unclosedString
  | expectedOpenParen (keyword : String)
  | missingCloseParen (keyword : String)
  | missingParameters (keyword : String)
  | invalidParameterCount (keyword : String) (expected found : Nat)
  | invalidParameter (keyword lexeme expected : String)
  | missingSemicolon (keyword lexeme : String)
  | expectedBlock (after : String)
  | missingCloseBrace
  | emptyBlock (after : String)
  | expectedFunctionName
  | invalidFunctionParameter (function lexeme : String)
  | expectedOpenBracket
  | missingCloseBracket
  | invalidLineEntry (lexeme : String)
  | lineOutOfRange (value : String) (max : Nat)
  deriving DecidableEq, Repr

def LexErrorKind.message : LexErrorKind → String
  | emptyInput => "input content is empty"
  | invalidNumber => "invalid number format"
  | invalidCharacter c => s!"invalid character '{c}'"
  | invalidOperator c => s!"invalid operator '{c}'"
  | unclosedString => "unclosed string literal"
  | expectedOpenParen keyword => s!"expected '(' after '{keyword}'"
  | missingCloseParen keyword => s!"missing closing parenthesis after '{keyword}'"
  | missingParameters keyword => s!"missing parameters for '{keyword}'"
  | invalidParameterCount keyword expected found =>
    s!"invalid parameters inside parentheses for '{keyword}': expected {expected}, found {found}"
  | invalidParameter keyword lexeme expected =>
    s!"invalid parameter '{lexeme}' in '{keyword}': expected {expected}"
  | missingSemicolon keyword lexeme => s!"missing semi-colon in '{keyword}', found '{lexeme}'"
  | expectedBlock after => s!"expected '\x7b' after '{after}'"
  | missingCloseBrace => "missing closing brace for block"
  | emptyBlock after => s!"empty block after '{after}'"
  | expectedFunctionName => "expected a function name after 'trend'"
  | invalidFunctionParameter function lexeme =>
    s!"invalid parameter '{lexeme}' in function '{function}'"
  | expectedOpenBracket => "expected '[' after 'line ='"
  | missingCloseBracket => "missing closing ']' in 'line' list"
  | invalidLineEntry lexeme =>
    s!"invalid token '{lexeme}' in 'line' list, expected integers separated by commas"
  | lineOutOfRange value max => s!"out-of-range line number {value}, max lines = {max}"

/-- A cause and the place it points at. -/
structure LexError where
  kind : LexErrorKind
  span : Span
  deriving DecidableEq, Repr

def LexError.message (e : LexError) : String :=
  s!"{e.kind.message} at line {e.span.line}, column {e.span.column}"

end SlangScript
