/-! Positions in a source text. Lines and columns are counted from one, lengths in characters. -/
namespace SlangScript

/-- The place of a lexeme: its line, the column of its first character, and its length. -/
structure Span where
  line : Nat
  column : Nat
  len : Nat
  deriving DecidableEq, Repr

namespace Span

/-- A single character, for errors that name one spot. -/
def point (line column : Nat) : Span := ⟨line, column, 1⟩

/-- The empty extent at the head of a text, for tokens that come from no text. -/
def origin : Span := ⟨1, 1, 0⟩

instance : Inhabited Span := ⟨origin⟩

/-- Line and column, as they are shown to a user. -/
def position (s : Span) : String := s!"{s.line}:{s.column}"

end Span

end SlangScript
