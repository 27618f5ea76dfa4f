import SlangScript.Grammar.Header
import SlangScript.LexError

/-! Parenthesised headers. A header lies on the line of the token that it belongs to, and ends at the
first closing parenthesis there, whatever was opened in between. -/
namespace SlangScript

/-- The parameters of a header, the parenthesis that closes it, and the tokens behind it. -/
structure HeaderTokens where
  parameters : List Token
  close : Token
  rest : List Token
  deriving DecidableEq, Repr

namespace HeaderTokens

/-- The tokens up to the first closing parenthesis, as long as they stay on one line. -/
def collect? (line : Nat) : List Token → Option HeaderTokens
  | [] => none
  | t :: rest =>
    if t.span.line ≠ line then none
    else if t.isBracket .closeParen then some ⟨[], t, rest⟩
    else (collect? line rest).map fun h => { h with parameters := t :: h.parameters }

/-- The header of the token `head`, read from the tokens that follow it. -/
def after (head : Token) (rest : List Token) : Except LexError HeaderTokens :=
  match rest with
  | [] => .error ⟨.expectedOpenParen head.lexeme, head.span⟩
  | t :: inside =>
    if t.isBracket .openParen then
      match collect? head.span.line inside with
      | some h => .ok h
      | none => .error ⟨.missingCloseParen head.lexeme, head.span⟩
    else .error ⟨.expectedOpenParen head.lexeme, head.span⟩

end HeaderTokens

/-- The error for a parameter that its slot refuses. -/
def HeaderSlot.refusal (keyword : String) (slot : HeaderSlot) (parameter : Token) : LexError :=
  match slot with
  | .semicolon => ⟨.missingSemicolon keyword parameter.lexeme, parameter.span⟩
  | _ => ⟨.invalidParameter keyword parameter.lexeme slot.describe, parameter.span⟩

/-- Compares the parameters with the slots: first that there are any, then their number, then their
kinds from left to right. -/
def checkShape (head : Token) (keyword : String) (shape : List HeaderSlot)
    (parameters : List Token) : Except LexError Unit :=
  if parameters.isEmpty then .error ⟨.missingParameters keyword, head.span⟩
  else if parameters.length ≠ shape.length then
    .error ⟨.invalidParameterCount keyword shape.length parameters.length, head.span⟩
  else
    match (parameters.zip shape).find? fun p => !p.2.accepts p.1.kind with
    | some (parameter, slot) => .error (slot.refusal keyword parameter)
    | none => .ok ()

/-- The kinds that may stand between the parentheses of a function. -/
def TokenKind.isArgument : TokenKind → Bool
  | identifier | delimiter .comma | reservedWord | integer | floatNumber => true
  | _ => false

end SlangScript
