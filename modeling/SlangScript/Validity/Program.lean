import SlangScript.Text.Numeral
import SlangScript.Validity.Block
import SlangScript.Validity.Header

/-! Validity of a program before it is parsed. Each token that opens a construct is checked against the
tokens behind it, in order, and the first fault rejects the program with a place in the text. -/
namespace SlangScript

/-- A block must follow the token `before`, and hold more than braces. -/
def checkBlock (before : Token) (after : String) (rest : List Token) : Except LexError Unit :=
  match rest with
  | [] => .error ⟨.expectedBlock after, before.span⟩
  | opening :: inside =>
    if opening.isBracket .openBrace then
      match blockEnd? 1 0 false inside with
      | some (_, true) => .ok ()
      | some (_, false) => .error ⟨.emptyBlock after, opening.span⟩
      | none => .error ⟨.missingCloseBrace, opening.span⟩
    else .error ⟨.expectedBlock after, before.span⟩

/-- The header of a construct, and the body that goes with a header of fixed shape. -/
def checkConstruct (head : Token) (c : Construct) (rest : List Token) : Except LexError Unit := do
  let header ← HeaderTokens.after head rest
  match c.shape with
  | none => .ok ()
  | some shape =>
    checkShape head c.keyword shape header.parameters
    checkBlock header.close c.keyword header.rest

/-- After `else` comes another condition, which is checked on its own, or a block. -/
def checkElse (head : Token) (rest : List Token) : Except LexError Unit :=
  if rest.head?.any (·.isWord "sus") then .ok () else checkBlock head "else" rest

/-- After `trend` comes the name of a function. -/
def checkDefinition (head : Token) (rest : List Token) : Except LexError Unit :=
  if rest.head?.any (·.kind = .function) then .ok ()
  else .error ⟨.expectedFunctionName, head.span⟩

/-- The arguments of a function, and its body where it is defined. -/
def checkFunction (before : Option Token) (head : Token) (rest : List Token) :
    Except LexError Unit := do
  let header ← HeaderTokens.after head rest
  match header.parameters.find? fun p => !p.kind.isArgument with
  | some p => .error ⟨.invalidFunctionParameter head.lexeme p.lexeme, p.span⟩
  | none =>
    if before.any (·.isWord "trend") then checkBlock header.close head.lexeme header.rest
    else .ok ()

/-- A numeral that names one of the first `lineCount` lines. -/
def namesLine (lineCount : Nat) (numeral : String) : Bool :=
  (count64? numeral).any fun n => 1 ≤ n && n ≤ lineCount

/-- The entries of a line list up to its closing bracket, which stands on the line where the list
begins. -/
def checkEntries (lineCount line : Nat) (opening : Token) : List Token → Except LexError Unit
  | [] => .error ⟨.missingCloseBracket, opening.span⟩
  | t :: rest =>
    if t.span.line ≠ line then .error ⟨.missingCloseBracket, opening.span⟩
    else match t.kind with
      | .bracket .closeBracket => .ok ()
      | .delimiter .comma => checkEntries lineCount line opening rest
      | .integer =>
        if namesLine lineCount t.lexeme then checkEntries lineCount line opening rest
        else .error ⟨.lineOutOfRange t.lexeme lineCount, t.span⟩
      | _ => .error ⟨.invalidLineEntry t.lexeme, t.span⟩

/-- The identifier `line` followed by `=` must be given a list of line numbers. -/
def checkLineList (lineCount : Nat) (head : Token) (rest : List Token) : Except LexError Unit :=
  match rest with
  | [] => .ok ()
  | sign :: list =>
    if sign.operator? = some .assign then
      match list with
      | [] => .error ⟨.expectedOpenBracket, sign.span⟩
      | opening :: entries =>
        if opening.isBracket .openBracket then
          checkEntries lineCount head.span.line opening entries
        else .error ⟨.expectedOpenBracket, sign.span⟩
    else .ok ()

/-- Checks one token against its neighbours. -/
def checkToken (lineCount : Nat) (before : Option Token) (t : Token) (rest : List Token) :
    Except LexError Unit :=
  match t.kind with
  | .keyword =>
    match Construct.ofKeyword? t.lexeme with
    | some c => checkConstruct t c rest
    | none => if t.lexeme = "else" then checkElse t rest else .ok ()
  | .reservedWord => if t.lexeme = "trend" then checkDefinition t rest else .ok ()
  | .function => checkFunction before t rest
  | .identifier => if t.lexeme = "line" then checkLineList lineCount t rest else .ok ()
  | _ => .ok ()

/-- Checks every token from `before` on, in order. -/
def checkTokens (lineCount : Nat) (before : Option Token) : List Token → Except LexError Unit
  | [] => .ok ()
  | t :: rest => do
    checkToken lineCount before t rest
    checkTokens lineCount (some t) rest

/-- Accepts a program, unchanged, or rejects it with its first fault. -/
def validate (lines : List TokenLine) : Except LexError (List TokenLine) := do
  checkTokens lines.length none (TokenLine.flatten lines)
  .ok lines

end SlangScript
