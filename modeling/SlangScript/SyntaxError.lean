import SlangScript.Token

/-! What can be wrong with a sequence of tokens, and the wording of it. -/
namespace SlangScript

/-- A bracket or delimiter is asked for by its quoted character, any other kind by its name. -/
def TokenKind.expectation : TokenKind → String
  | bracket b => s!"'{b.char}'"
  | delimiter d => s!"'{d.char}'"
  | operator op => s!"'{op.symbol}'"
  | kind => kind.name

/-- Why the tokens do not go on as the grammar asks, with the token found there if one is left. -/
inductive Mismatch where
  | expected (kind : TokenKind) (found : Option Token)
  | expression (found : Option Token)
  | parameterType (found : Token)
  | statement (found : Option Token)
  | tooDeep (limit : Nat)
  | emptyProgram
  | leftover (found : Token)
  deriving DecidableEq, Repr

def Mismatch.message : Mismatch → String
  | expected kind (some t) => s!"Expected {kind.expectation}, got {t.display}"
  | expected kind none => s!"Unexpected end of tokens. Expected {kind.expectation}"
  | expression (some t) => s!"Invalid expression token: {t.display}"
  | expression none => "Unexpected end of tokens in expression"
  | parameterType t => s!"Parameter type must be a keyword (e.g. num), got {t.display}"
  | statement (some t) => s!"Unrecognized statement start: {t.display}"
  | statement none => "Unexpected end of tokens in statement"
  | tooDeep limit => s!"Nesting too deep (more than {limit} levels)"
  | emptyProgram => "Empty program or invalid statements."
  | leftover t => s!"Unexpected token {t.display} after last statement"

/-- A mismatch and the index of the token where it was noticed. -/
structure SyntaxError where
  index : Nat
  mismatch : Mismatch
  deriving DecidableEq, Repr

namespace SyntaxError

def message (e : SyntaxError) : String := e.mismatch.message

def display (e : SyntaxError) : String := s!"[Syntax Error @ token index {e.index}]: {e.message}"

end SyntaxError

end SlangScript
