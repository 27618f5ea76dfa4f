import SlangScript.Grammar.Header
import SlangScript.Grammar.Word
import SlangScript.Production.Expression

/-! Statements. The first token of a statement, or the first two, tell which sort it is; each sort has
one production, which reads on from there. -/
namespace SlangScript

/-- The sorts of statement, as their first tokens tell them apart. -/
inductive Opening where
  | declaration (word : String)
  | construct (c : Construct)
  | definition
  | reply
  | call
  | lineList
  | name
  | block
  deriving DecidableEq, Repr

/-- The sort of statement that a keyword or reserved word opens. -/
def Opening.ofWord? (word : String) : Option Opening :=
  if isDeclarationWord word then some (.declaration word)
  else match Construct.ofKeyword? word with
    | some c => some (.construct c)
    | none =>
      if word = "trend" then some .definition
      else if word = "reply" then some .reply
      else none

/-- The sort of statement that these tokens open. The identifier `line` opens a line list exactly when
`=` follows. -/
def Opening.of? : List Token → Option Opening
  | [] => none
  | t :: rest =>
    match t.kind with
    | .keyword | .reservedWord => ofWord? t.lexeme
    | .function => some .call
    | .identifier =>
      if t.lexeme = "line" ∧ rest.head?.any (·.operator? = some .assign) then some .lineList
      else some .name
    | .bracket .openBrace => some .block
    | _ => none

/-- The productions that nest, at one level of nesting: expressions, array literals, and statement
lists in braces. -/
structure Level where
  expression : Production Tree
  array : Production Tree
  braces : Production Tree

namespace Level

open Production

/-- An expression in the parentheses of a header. -/
def condition (l : Level) : Production Tree := do
  let _ ← expect (.bracket .openParen)
  let e ← l.expression
  let _ ← expect (.bracket .closeParen)
  pure e

def block (l : Level) : Production Tree := do
  let list ← l.braces
  pure (.node .block none [list])

/-- A condition in parentheses and the block that it governs. -/
def guarded (l : Level) (tag : Tag) : Production Tree := do
  let c ← l.condition
  let body ← l.block
  pure (.node tag none [c, body])

/-- `word name`, with an initial value if an assignment operator follows. -/
def declaration (l : Level) (word : String) : Production Tree := do
  skip
  let name ← expect .identifier
  let target := Tree.leaf .identifier name.lexeme
  match ← accept? fun t => t.operator?.filter (·.isAssignment) with
  | some op =>
    let value ← l.expression
    pure (.node .declaration (some word) [.node .assignOp (some op.symbol) [target, value]])
  | none => pure (.node .declaration (some word) [target])

/-- Whether `else sus` is ahead. -/
def atElseIf : Production Bool := look fun ts =>
  match ts with
  | t :: next :: _ => t.isWord "else" && next.isWord "sus"
  | _ => false

/-- `else` followed by another condition. -/
def elseIf? (l : Level) : Production (Option Tree) := do
  if ← atElseIf then
    skip
    skip
    let branch ← l.guarded .elseIfBlock
    pure (some branch)
  else pure none

/-- `else` and its block. -/
def else? (l : Level) : Production (Option Tree) := do
  match ← accept? fun t => if t.isWord "else" then some () else none with
  | some () =>
    let list ← l.braces
    pure (some (.node .elseBlock none [list]))
  | none => pure none

/-- A condition, any number of further ones, and at most one `else` without a condition, which ends
the chain. -/
def ifChain (l : Level) : Production Tree := do
  skip
  let first ← l.guarded .ifBlock
  let further ← many l.elseIf?
  let last ← l.else?
  pure (.node .ifChain none (first :: further ++ last.toList))

/-- Three expressions with semicolons between them, and the block that they govern. -/
def forLoop (l : Level) : Production Tree := do
  skip
  let _ ← expect (.bracket .openParen)
  let start ← l.expression
  let _ ← expect (.delimiter .semicolon)
  let test ← l.expression
  let _ ← expect (.delimiter .semicolon)
  let step ← l.expression
  let _ ← expect (.bracket .closeParen)
  let body ← l.block
  pure (.node .forStmt none [start, test, step, body])

def print (l : Level) : Production Tree := do
  skip
  let e ← l.condition
  pure (.node .printStmt none [e])

/-- The header of an input statement holds a single name. -/
def input : Production Tree := do
  skip
  let _ ← expect (.bracket .openParen)
  let name ← expect .identifier
  let _ ← expect (.bracket .closeParen)
  pure (.node .inputStmt none [.leaf .identifier name.lexeme])

/-- A type and a name, unless the parameter list ends here. Any word may stand as the type. -/
def parameter? : Production (Option Tree) := do
  match ← current with
  | none => pure none
  | some t =>
    if t.isBracket .closeParen then pure none
    else if t.kind.isWord then
      skip
      let name ← expect .identifier
      pure (some (.node .param none [.leaf .type t.lexeme, .leaf .identifier name.lexeme]))
    else fail (.parameterType t)

/-- Parameters with commas between them. One more comma may stand before the end. -/
def parameters : Production Tree := do
  match ← parameter? with
  | none => pure (.node .paramList none [])
  | some first =>
    let more ← many do
      if ← skipIf (.delimiter .comma) then parameter? else pure none
    pure (.node .paramList none (first :: more))

/-- A function's name, its parameters in parentheses, and its body. -/
def definition (l : Level) : Production Tree := do
  skip
  let name ← expect .function
  let _ ← expect (.bracket .openParen)
  let params ← parameters
  let _ ← expect (.bracket .closeParen)
  let body ← l.block
  pure (.node .functionDef (some name.lexeme) [params, body])

def reply (l : Level) : Production Tree := do
  skip
  let e ← l.expression
  pure (.node .returnStmt none [e])

/-- `line = [ numbers ]`. -/
def lineList : Production Tree := do
  skip
  skip
  let _ ← expect (.bracket .openBracket)
  let numbers ← listUntil .closeBracket do
    let n ← expect .integer
    pure (Tree.leaf .integer n.lexeme)
  pure (.node .lineStmt none numbers)

/-- The right side of an assignment: a single array literal where one begins, else an expression. -/
def assigned (l : Level) : Production Tree := do
  if ← atKind (.bracket .openBracket) then l.array else l.expression

/-- A name alone, assigned to, or counted up or down. -/
def named (l : Level) : Production Tree := do
  let name ← expect .identifier
  let target := Tree.leaf .identifier name.lexeme
  match ← accept? fun t => t.operator?.filter fun op => op.isAssignment || op.isIncDec with
  | some op =>
    if op.isAssignment then
      let value ← l.assigned
      pure (.node .exprStmt none [.node .assignmentOp (some op.symbol) [target, value]])
    else pure (.node .exprStmt none [.node .incDecOp (some op.symbol) [target]])
  | none => pure (.node .exprStmt none [.node .expr none [target]])

/-- A statement that one semicolon may follow. -/
def terminated (p : Production Tree) : Production Tree := do
  let t ← p
  let _ ← skipIf (.delimiter .semicolon)
  pure t

/-- The statement of a given sort. -/
def statementOf (l : Level) : Opening → Production Tree
  | .declaration word => terminated (l.declaration word)
  | .construct .print => terminated l.print
  | .construct .input => terminated input
  | .construct .conditional => l.ifChain
  | .construct .forLoop => l.forLoop
  | .construct .whileLoop => do
    skip
    l.guarded .whileStmt
  | .construct .switch => do
    skip
    l.guarded .switchStmt
  | .definition => l.definition
  | .reply => terminated l.reply
  | .call => terminated (call l.expression)
  | .lineList => terminated lineList
  | .name => terminated l.named
  | .block => l.block

/-- A statement of any sort. -/
def statement (l : Level) : Production Tree := do
  match ← look Opening.of? with
  | some o => l.statementOf o
  | none =>
    let t ← current
    fail (.statement t)

end Level

namespace Production

/-- A statement, if the tokens open one. -/
def statement? (statement : Production Tree) : Production (Option Tree) := do
  if ← look fun ts => (Opening.of? ts).isSome then
    let s ← statement
    pure (some s)
  else pure none

/-- Statements in braces. -/
def braced (statement : Production Tree) : Production Tree := do
  let _ ← expect (.bracket .openBrace)
  let list ← many (statement? statement)
  let _ ← expect (.bracket .closeBrace)
  pure (.node .statementList none list)

/-- A statement with `room` levels of brackets left to open. -/
def statement (limit : Nat) : Nat → Production Tree
  | 0, ts => Level.statement ⟨expression limit 0, arrayLiteral limit 0, tooDeep limit⟩ ts
  | room + 1, ts =>
    Level.statement
      ⟨expression limit (room + 1), arrayLiteral limit (room + 1), braced (statement limit room)⟩ ts

end Production

end SlangScript
