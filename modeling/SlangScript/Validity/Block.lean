import SlangScript.LexError
import SlangScript.Token

/-! The extent of a braced block, found by counting braces. -/
namespace SlangScript

namespace Token

/-- A brace, opening or closing. -/
def isBrace (t : Token) : Bool := t.isBracket .openBrace || t.isBracket .closeBrace

end Token

/-- The end of a block, searched for from inside it: the place of the brace that closes it, and
whether anything but a brace has been passed. `inner` counts the blocks inside it that are still open,
and `index` is the place of the next token. -/
def blockEnd? (index inner : Nat) (nonEmpty : Bool) : List Token → Option (Nat × Bool)
  | [] => none
  | t :: rest =>
    if t.isBracket .openBrace then blockEnd? (index + 1) (inner + 1) nonEmpty rest
    else if t.isBracket .closeBrace then
      match inner with
      | 0 => some (index, nonEmpty)
      | n + 1 => blockEnd? (index + 1) n nonEmpty rest
    else blockEnd? (index + 1) inner true rest

/-- Why no closing brace was found. -/
inductive BraceFault where
  /-- There is no token where the search should begin. -/
  | startPastEnd
  /-- The first brace met is a closing one. -/
  | unopened
  /-- The tokens end before the block does. -/
  | unclosed (error : LexError)
  deriving DecidableEq, Repr

/-- The place of the brace that closes the first block at or after `start`, and whether anything but a
brace stands between `start` and that place. -/
def matchingBrace (tokens : List Token) (start : Nat) : Except BraceFault (Nat × Bool) :=
  match tokens.drop start with
  | [] => .error .startPastEnd
  | first :: rest =>
    let unclosed : BraceFault := .unclosed ⟨.missingCloseBrace, first.span⟩
    let before := ((first :: rest).takeWhile fun t => !t.isBrace).length
    match (first :: rest).dropWhile fun t => !t.isBrace with
    | [] => .error unclosed
    | brace :: inside =>
      if brace.isBracket .openBrace then
        match blockEnd? (start + before + 1) 0 (0 < before) inside with
        | some found => .ok found
        | none => .error unclosed
      else .error .unopened

end SlangScript
