import SlangScript.Production.Repetition
import SlangScript.Tree.Basic

/-! Expressions: operands joined by operators of one strength, read from left to right.

Brackets may nest to a limit. A production for a nested place takes the number `room` of levels that
may still be opened, and fails where none is left. -/
namespace SlangScript

namespace Tree

def binary (op : Operator) (left right : Tree) : Tree :=
  node .binaryOp (some op.symbol) [left, right]

/-- Joins operands from the left: `(op, operand)` after `(op, operand)`. -/
def foldOperands (first : Tree) (more : List (Operator × Tree)) : Tree :=
  more.foldl (fun left next => binary next.1 left next.2) first

end Tree

namespace Token

def binaryOperator? (t : Token) : Option Operator := t.operator?.filter (·.isBinary)

def incDecOperator? (t : Token) : Option Operator := t.operator?.filter (·.isIncDec)

end Token

namespace Production

variable {α : Type}

/-- Fails because the brackets nest deeper than `limit`. -/
def tooDeep (limit : Nat) : Production α := fail (.tooDeep limit)

/-- A single token as an operand, with `++` or `--` behind it if one is there. -/
def literal (tag : Tag) (text : String) : Production Tree := do
  skip
  match ← accept? Token.incDecOperator? with
  | some op => pure (.node .postfixOp (some op.symbol) [.leaf tag text])
  | none => pure (.leaf tag text)

/-- An operand. What an opening parenthesis or bracket begins is read by `group` or `array`. -/
def operand (group array : Production Tree) : Production Tree := do
  match ← current with
  | none => fail (.expression none)
  | some t =>
    match t.kind with
    | .bracket .openParen => group
    | .bracket .openBracket => array
    | kind =>
      match Tag.ofOperand? kind with
      | some tag => literal tag t.lexeme
      | none => fail (.expression (some t))

/-- Operands with binary operators between them. -/
def chain (operand : Production Tree) : Production Tree := do
  let first ← operand
  let more ← many do
    match ← accept? Token.binaryOperator? with
    | some op =>
      let next ← operand
      pure (some (op, next))
    | none => pure none
  pure (first.foldOperands more)

/-- An expression in parentheses, which leave no trace in the tree. -/
def grouped (inner : Production Tree) : Production Tree := do
  skip
  let t ← inner
  let _ ← expect (.bracket .closeParen)
  pure t

/-- A function's name and its arguments in parentheses. -/
def call (argument : Production Tree) : Production Tree := do
  let name ← expect .function
  let _ ← expect (.bracket .openParen)
  let arguments ← listUntil .closeParen argument
  pure (.node .functionCall (some name.lexeme) arguments)

/-- An element of an array: a call, which is no expression, or an expression. -/
def element (inner : Production Tree) : Production Tree := do
  if ← atKind .function then call inner else inner

/-- Elements in square brackets. -/
def arrayOf (inner : Production Tree) : Production Tree := do
  let _ ← expect (.bracket .openBracket)
  let elements ← listUntil .closeBracket (element inner)
  pure (.node .arrayLiteral none elements)

/-- An expression with `room` levels of brackets left to open. -/
def expression (limit : Nat) : Nat → Production Tree
  | 0, ts => chain (operand (tooDeep limit) (tooDeep limit)) ts
  | room + 1, ts =>
    chain (operand (grouped (expression limit room)) (arrayOf (expression limit room))) ts

/-- An array literal, which takes up one of the levels that are left. -/
def arrayLiteral (limit : Nat) : Nat → Production Tree
  | 0, ts => tooDeep limit ts
  | room + 1, ts => arrayOf (expression limit room) ts

end Production

end SlangScript
