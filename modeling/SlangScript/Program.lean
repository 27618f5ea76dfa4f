import SlangScript.Production.Statement

/-! Whole programs. A program is one statement after another, to the end of the tokens. -/
namespace SlangScript

/-- How deep braced lists, array literals and grouping parentheses may nest. -/
def maxNesting : Nat := 128

/-- A tree of what could be read, and what was wrong, if anything was. -/
structure ParseOutcome where
  tree : Tree
  errors : List SyntaxError
  deriving DecidableEq, Repr

namespace ParseOutcome

def errorCount (o : ParseOutcome) : Nat := o.errors.length

def isSuccess (o : ParseOutcome) : Bool := o.errorCount = 0

end ParseOutcome

namespace Tree

/-- The tree of a program with these statements. -/
def program (statements : List Tree) : Tree :=
  node .program none [node .statementList none statements]

/-- The statements of a program that stand in no block. -/
def statements (t : Tree) : List Tree := (t.child? 0).elim [] children

end Tree

/-- The failure of a program whose statements ended without one: there were none, or tokens are
left. -/
def leftoverFailure? (statements : List Tree) (rest : List Token) : Option Failure :=
  if statements.isEmpty then some ⟨.emptyProgram, rest⟩
  else match rest with
    | [] => none
    | t :: _ => some ⟨.leftover t, rest⟩

/-- Parses a program whose brackets nest no deeper than `limit`. The first failure ends the program;
the statements before it are kept. -/
def parseWithin (limit : Nat) (tokens : List Token) : ParseOutcome :=
  let (statements, stop) :=
    Production.gather (Production.statement? (Production.statement limit limit)) tokens
  let failure? := match stop with
    | .error f => some f
    | .ok rest => leftoverFailure? statements rest
  ⟨Tree.program statements, failure?.toList.map (·.toError tokens.length)⟩

def parse (tokens : List Token) : ParseOutcome := parseWithin maxNesting tokens

end SlangScript
