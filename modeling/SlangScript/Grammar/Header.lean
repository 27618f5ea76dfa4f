import SlangScript.Token

/-! Statements that are headed by a keyword and a parenthesised header, and what each header may
hold. -/
namespace SlangScript

/-- What one place in a header may hold. -/
inductive HeaderSlot where
  | value
  | comparison
  | assignment
  | incDec
  | semicolon
  deriving DecidableEq, Repr

namespace HeaderSlot

def all : List HeaderSlot := [.value, .comparison, .assignment, .incDec, .semicolon]

def accepts : HeaderSlot → TokenKind → Bool
  | value, .integer | value, .floatNumber | value, .identifier => true
  | comparison, .operator op => op.isComparison
  | assignment, .operator op => op.isAssignment
  | incDec, .operator op => op.isIncDec
  | semicolon, .delimiter .semicolon => true
  | _, _ => false

/-- The words that an error message uses for a slot. -/
def describe : HeaderSlot → String
  | value => "an integer, float or identifier"
  | comparison => "a comparison or logical operator"
  | assignment => "an assignment operator"
  | incDec => "'++' or '--'"
  | semicolon => "';'"

end HeaderSlot

/-- The constructs that a keyword and a parenthesised header open. -/
inductive Construct where
  | print | input | conditional | whileLoop | switch | forLoop
  deriving DecidableEq, Repr

namespace Construct

def all : List Construct := [.print, .input, .conditional, .whileLoop, .switch, .forLoop]

def keyword : Construct → String
  | print => "spill"
  | input => "post"
  | conditional => "sus"
  | whileLoop => "talk"
  | switch => "mood"
  | forLoop => "forreal"

def ofKeyword? (word : String) : Option Construct := all.find? (·.keyword = word)

/-- The slots of the header in order, or `none` where any header will do. -/
def shape : Construct → Option (List HeaderSlot)
  | print | input => none
  | conditional | whileLoop => some [.value, .comparison, .value]
  | switch => some [.value]
  | forLoop => some
      [.value, .assignment, .value, .semicolon, .value, .comparison, .value, .semicolon,
        .value, .incDec]

/-- A braced body must follow exactly the headers that have a shape. -/
def requiresBlock (c : Construct) : Bool := c.shape.isSome

end Construct

end SlangScript
