import SlangScript.Program
import SlangScript.TokenStream

/-! Parsing with a cursor. The stream is read from left to right, errors are recorded on the way, and a
production yields a tree or nothing. Nothing in the shape of these productions says that one which yields
nothing has recorded an error, or one error only, or that they come to an end. A production that calls
others has a number, which says how deep these calls may go; where they go deeper there is no outcome. -/
namespace SlangScript

/-- An error as it is recorded: where the cursor stood, and the message. -/
structure RecordedError where
  index : Nat
  message : String
  deriving DecidableEq, Repr

/-- What is kept while parsing: the stream with its reading position, the errors so far, and how many
levels of brackets are open. -/
structure Cursor where
  stream : TokenStream
  errors : List RecordedError
  depth : Nat
  deriving DecidableEq, Repr

/-- A step of parsing. It moves the cursor and has a result, unless it does not come to its end. -/
abbrev Walk (α : Type) : Type := StateT Cursor Option α

/-- What is done where no token is left to begin a statement, a declaration or a parameter, and where a
statement begins with a word or a kind of token that opens none. -/
structure Exits where
  noStatement : Walk (Option Tree)
  unknownWord : Token → Walk (Option Tree)
  unknownKind : Token → Walk (Option Tree)
  noDeclaration : Walk (Option Tree)
  noParameter : Walk (Option (List Tree))

namespace Walk

/-! ### Steps -/

def current : Walk (Option Token) := fun c => some (c.stream.current?, c)

def peek (offset : Nat) : Walk (Option Token) := fun c => some (c.stream.peek? offset, c)

/-- Takes the next token, if there is one. -/
def advance : Walk (Option Token) := fun c =>
  some (c.stream.advance.1, { c with stream := c.stream.advance.2 })

def report (message : String) : Walk Unit := fun c =>
  some ((), { c with errors := c.errors ++ [⟨c.stream.position, message⟩] })

/-- The number of errors so far. -/
def errorCount : Walk Nat := fun c => some (c.errors.length, c)

/-- Takes the next token if it is accepted, and records what was expected otherwise. -/
def expect (expected : String) (accepts : Token → Bool) : Walk (Option Token) := do
  match ← current with
  | some t =>
    if accepts t then
      let _ ← advance
      pure (some t)
    else
      report s!"Expected {expected}, got {t.display}"
      pure none
  | none =>
    report s!"Unexpected end of tokens. Expected {expected}"
    pure none

def expectKind (kind : TokenKind) : Walk (Option Token) := expect kind.expectation (·.kind = kind)

def expectWord (word : String) : Walk (Option Token) := expect s!"'{word}'" (·.isWord word)

def checkWord (word : String) : Walk Bool := do return (← current).any (·.isWord word)

def checkKind (kind : TokenKind) : Walk Bool := do return (← current).any (·.kind = kind)

def currentOperator : Walk (Option Operator) := do return (← current).bind (·.operator?)

/-- Whether `=` stands this many tokens ahead. -/
def peekIsAssign (offset : Nat) : Walk Bool := do
  return (← peek offset).any (·.operator? = some .assign)

/-- Takes the delimiter if it comes next, and tells whether it did. -/
def skipDelimiter (d : Delimiter) : Walk Bool := do
  if ← checkKind (.delimiter d) then
    let _ ← advance
    pure true
  else pure false

/-- Opens one more level, unless as many as may be open are open. -/
def enter : Walk Bool := fun c =>
  if maxNesting ≤ c.depth then
    (report s!"Nesting too deep (more than {maxNesting} levels)" *> pure false : Walk Bool) c
  else some (true, { c with depth := c.depth + 1 })

def leave : Walk Unit := fun c => some ((), { c with depth := c.depth - 1 })

/-! ### Expressions -/

mutual

/-- A function's name and its arguments in parentheses. -/
def call : Nat → Walk (Option Tree)
  | 0 => failure
  | n + 1 => do
    let some name ← expectKind .function | return none
    let some _ ← expectKind (.bracket .openParen) | return none
    let some es ← (do if ← checkKind (.bracket .closeParen) then return some [] else arguments n)
      | return none
    let some _ ← expectKind (.bracket .closeParen) | return none
    return some (.node .functionCall (some name.lexeme) es)

def arguments : Nat → Walk (Option (List Tree))
  | 0 => failure
  | n + 1 => do
    let some e ← expression n | return none
    if ← skipDelimiter .comma then
      let some es ← arguments n | return none
      return some (e :: es)
    else return some [e]

def array : Nat → Walk (Option Tree)
  | 0 => failure
  | n + 1 => do
    if ← enter then
      let node ← arrayBody n
      leave
      return node
    else return none

/-- Elements in square brackets. -/
def arrayBody : Nat → Walk (Option Tree)
  | 0 => failure
  | n + 1 => do
    let some _ ← expectKind (.bracket .openBracket) | return none
    let some es ← (do if ← checkKind (.bracket .closeBracket) then return some [] else elements n)
      | return none
    let some _ ← expectKind (.bracket .closeBracket) | return none
    return some (.node .arrayLiteral none es)

def elements : Nat → Walk (Option (List Tree))
  | 0 => failure
  | n + 1 => do
    let some e ← element n | return none
    if ← skipDelimiter .comma then
      let some es ← elements n | return none
      return some (e :: es)
    else return some [e]

def element : Nat → Walk (Option Tree)
  | 0 => failure
  | n + 1 => do if ← checkKind .function then call n else expression n

def expression : Nat → Walk (Option Tree)
  | 0 => failure
  | n + 1 => do
    let some first ← primary n | return none
    operands n first

/-- The operands behind the first one, joined to it from the left. -/
def operands : Nat → Tree → Walk (Option Tree)
  | 0, _ => failure
  | n + 1, left => do
    match (← currentOperator).filter (·.isBinary) with
    | some op =>
      let _ ← advance
      let some right ← primary n | return none
      operands n (.binary op left right)
    | none => return some left

def primary : Nat → Walk (Option Tree)
  | 0 => failure
  | n + 1 => do
    let some t ← current | do
      report "Unexpected end of tokens in expression"
      return none
    match t.kind with
    | .bracket .openParen =>
      if ← enter then
        let node ← group n
        leave
        return node
      else return none
    | .bracket .openBracket => array n
    | kind =>
      match Tag.ofOperand? kind with
      | some tag =>
        let _ ← advance
        match (← currentOperator).filter (·.isIncDec) with
        | some op =>
          let _ ← advance
          return some (.node .postfixOp (some op.symbol) [.leaf tag t.lexeme])
        | none => return some (.leaf tag t.lexeme)
      | none =>
        report s!"Invalid expression token: {t.display}"
        return none

/-- An expression in parentheses. -/
def group : Nat → Walk (Option Tree)
  | 0 => failure
  | n + 1 => do
    let _ ← advance
    let some inner ← expression n | return none
    let some _ ← expectKind (.bracket .closeParen) | return none
    return some inner

end

/-! ### Statements -/

/-- `keyword ( expression )`. -/
def conditionHeader (c : Construct) (n : Nat) : Walk (Option Tree) := do
  let some _ ← expectWord c.keyword | return none
  let some _ ← expectKind (.bracket .openParen) | return none
  let some e ← expression n | return none
  let some _ ← expectKind (.bracket .closeParen) | return none
  return some e

def print (n : Nat) : Walk (Option Tree) := do
  let some e ← conditionHeader .print n | return none
  return some (.node .printStmt none [e])

def input : Walk (Option Tree) := do
  let some _ ← expectWord Construct.input.keyword | return none
  let some _ ← expectKind (.bracket .openParen) | return none
  let some name ← expectKind .identifier | return none
  let some _ ← expectKind (.bracket .closeParen) | return none
  return some (.node .inputStmt none [.leaf .identifier name.lexeme])

def reply (n : Nat) : Walk (Option Tree) := do
  let some _ ← expectWord "reply" | return none
  let some e ← expression n | return none
  return some (.node .returnStmt none [e])

def number : Walk (Option Tree) := do
  let some n ← expectKind .integer | return none
  return some (.leaf .integer n.lexeme)

def numbers : Nat → Walk (Option (List Tree))
  | 0 => failure
  | n + 1 => do
    let some e ← number | return none
    if ← skipDelimiter .comma then
      let some es ← numbers n | return none
      return some (e :: es)
    else return some [e]

def lineList (n : Nat) : Walk (Option Tree) := do
  let _ ← advance
  let some _ ← expectKind (.operator .assign) | return none
  let some _ ← expectKind (.bracket .openBracket) | return none
  let some es ← (do if ← checkKind (.bracket .closeBracket) then return some [] else numbers n)
    | return none
  let some _ ← expectKind (.bracket .closeBracket) | return none
  return some (.node .lineStmt none es)

/-- A name alone, assigned to, or counted up or down. -/
def named (n : Nat) : Walk (Option Tree) := do
  let some name ← expectKind .identifier | return none
  let target := Tree.leaf .identifier name.lexeme
  match ← currentOperator with
  | some op =>
    if op.isAssignment then
      let _ ← advance
      let some value ← (do if ← checkKind (.bracket .openBracket) then array n else expression n)
        | return none
      return some (.node .exprStmt none [.node .assignmentOp (some op.symbol) [target, value]])
    else if op.isIncDec then
      let _ ← advance
      return some (.node .exprStmt none [.node .incDecOp (some op.symbol) [target]])
    else return some (.node .exprStmt none [.node .expr none [target]])
  | none => return some (.node .exprStmt none [.node .expr none [target]])

variable (exits : Exits)

def declaration (n : Nat) : Walk (Option Tree) := do
  let some word ← advance | exits.noDeclaration
  let some name ← expectKind .identifier | return none
  let target := Tree.leaf .identifier name.lexeme
  match (← currentOperator).filter (·.isAssignment) with
  | some op =>
    let _ ← advance
    let some value ← expression n | return none
    return some (.node .declaration (some word.lexeme)
      [.node .assignOp (some op.symbol) [target, value]])
  | none => return some (.node .declaration (some word.lexeme) [target])

/-- Parameters with commas between them, up to a closing parenthesis or the end. -/
def parameters : Nat → Walk (Option (List Tree))
  | 0 => failure
  | n + 1 => do
    let some t ← current | return some []
    if t.isBracket .closeParen then return some []
    else if t.kind.isWord then
      let some type ← advance | exits.noParameter
      let some name ← expectKind .identifier | return none
      let param := Tree.node .param none [.leaf .type type.lexeme, .leaf .identifier name.lexeme]
      if ← skipDelimiter .comma then
        let some params ← parameters n | return none
        return some (param :: params)
      else return some [param]
    else
      report s!"Parameter type must be a keyword (e.g. num), got {t.display}"
      return none

def canStartStatement : Walk Bool := do
  match ← current with
  | none => return false
  | some t =>
    match t.kind with
    | .keyword | .reservedWord =>
      return isDeclarationWord t.lexeme || (Construct.ofKeyword? t.lexeme).isSome ||
        t.lexeme = "trend" || t.lexeme = "reply"
    | .identifier | .function | .bracket .openBrace => return true
    | _ => return false

/-- A statement that one semicolon may follow. -/
def terminated (statement : Option Tree) : Walk (Option Tree) := do
  let some s := statement | return none
  let _ ← skipDelimiter .semicolon
  return some s

mutual

/-- Statements up to a token that opens none, or to one that fails. -/
def statements : Nat → Walk (List Tree)
  | 0 => failure
  | n + 1 => do
    if ← canStartStatement then
      match ← statement n with
      | some s =>
        let ss ← statements n
        return s :: ss
      | none => return []
    else return []

def statement : Nat → Walk (Option Tree)
  | 0 => failure
  | n + 1 => do
    let some t ← current | exits.noStatement
    match t.kind with
    | .keyword | .reservedWord =>
      if isDeclarationWord t.lexeme then
        let s ← declaration exits n
        terminated s
      else match Construct.ofKeyword? t.lexeme with
        | some construct =>
          match construct with
          | .conditional => ifChain n
          | .forLoop => forLoop n
          | .whileLoop => guarded n .whileLoop .whileStmt
          | .switch => guarded n .switch .switchStmt
          | .print =>
            let s ← print n
            terminated s
          | .input =>
            let s ← input
            terminated s
        | none =>
          if t.lexeme = "trend" then definition n
          else if t.lexeme = "reply" then
            let s ← reply n
            terminated s
          else
            let s ← exits.unknownWord t
            terminated s
    | .function =>
      let s ← call n
      terminated s
    | .identifier =>
      if t.lexeme = "line" && (← peekIsAssign 1) then
        let s ← lineList n
        terminated s
      else
        let s ← named n
        terminated s
    | .bracket .openBrace => block n
    | _ =>
      let s ← exits.unknownKind t
      terminated s

def ifChain : Nat → Walk (Option Tree)
  | 0 => failure
  | n + 1 => do
    let some first ← guarded n .conditional .ifBlock | return none
    let some more ← branches n | return none
    return some (.node .ifChain none (first :: more))

/-- The branches behind the first one. An `else` without a condition ends them. -/
def branches : Nat → Walk (Option (List Tree))
  | 0 => failure
  | n + 1 => do
    if ← checkWord "else" then
      let _ ← advance
      if ← checkWord "sus" then
        let some branch ← guarded n .conditional .elseIfBlock | return none
        let some more ← branches n | return none
        return some (branch :: more)
      else
        let some last ← elseBlock n | return none
        return some [last]
    else return some []

def elseBlock : Nat → Walk (Option Tree)
  | 0 => failure
  | n + 1 => do
    let some list ← bracedList n | return none
    return some (.node .elseBlock none [list])

/-- A condition in parentheses and the block that it governs. -/
def guarded : Nat → Construct → Tag → Walk (Option Tree)
  | 0, _, _ => failure
  | n + 1, c, tag => do
    let some condition ← conditionHeader c n | return none
    let some body ← block n | return none
    return some (.node tag none [condition, body])

def forLoop : Nat → Walk (Option Tree)
  | 0 => failure
  | n + 1 => do
    let some _ ← expectWord Construct.forLoop.keyword | return none
    let some _ ← expectKind (.bracket .openParen) | return none
    let some start ← expression n | return none
    let some _ ← expectKind (.delimiter .semicolon) | return none
    let some test ← expression n | return none
    let some _ ← expectKind (.delimiter .semicolon) | return none
    let some step ← expression n | return none
    let some _ ← expectKind (.bracket .closeParen) | return none
    let some body ← block n | return none
    return some (.node .forStmt none [start, test, step, body])

def definition : Nat → Walk (Option Tree)
  | 0 => failure
  | n + 1 => do
    let some _ ← expectWord "trend" | return none
    let some name ← expectKind .function | return none
    let some _ ← expectKind (.bracket .openParen) | return none
    let some params ← parameters exits n | return none
    let some _ ← expectKind (.bracket .closeParen) | return none
    let some body ← block n | return none
    return some (.node .functionDef (some name.lexeme) [.node .paramList none params, body])

def block : Nat → Walk (Option Tree)
  | 0 => failure
  | n + 1 => do
    let some list ← bracedList n | return none
    return some (.node .block none [list])

def bracedList : Nat → Walk (Option Tree)
  | 0 => failure
  | n + 1 => do
    if ← enter then
      let node ← bracedBody n
      leave
      return node
    else return none

/-- Statements in braces. Whether one of them has failed is told from the number of errors. -/
def bracedBody : Nat → Walk (Option Tree)
  | 0 => failure
  | n + 1 => do
    let some _ ← expectKind (.bracket .openBrace) | return none
    let before ← errorCount
    let list ← statements n
    if (← errorCount) ≠ before then return none
    else
      let some _ ← expectKind (.bracket .closeBrace) | return none
      return some (.node .statementList none list)

end

def program (n : Nat) : Walk Tree := do
  let before ← errorCount
  let list ← statements exits n
  if (← errorCount) = before then
    if list.isEmpty then report "Empty program or invalid statements."
    else
      match ← current with
      | some t => report s!"Unexpected token {t.display} after last statement"
      | none => pure ()
  return .program list

end Walk

/-- The exits as they are. Nothing is yielded, and a token that no statement opens with is reported. -/
def Exits.plain : Exits where
  noStatement := return none
  unknownWord t := do
    Walk.report s!"Unrecognized statement start: {t.display}"
    return none
  unknownKind t := do
    Walk.report s!"Unrecognized statement start: {t.display}"
    return none
  noDeclaration := return none
  noParameter := return none

/-- A cursor at the front of tokens. -/
def Cursor.start (tokens : List Token) : Cursor := ⟨.ofTokens tokens, [], 0⟩

end SlangScript
