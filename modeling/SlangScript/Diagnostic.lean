import SlangScript.LexError
import SlangScript.Text.Line

/-! A lexical error shown against its source: what is wrong, where, the line, and carets under the
place. -/
namespace SlangScript

/-- Fills up from the left with blanks. -/
def padLeft (width : Nat) (text : List Char) : List Char :=
  List.replicate (width - text.length) ' ' ++ text

/-- The line with this number as it is shown, or nothing where there is none. Number zero stands for
the first line. -/
def shownLine (source : String) (number : Nat) : List Char :=
  (shownLines source.toList)[number - 1]?.getD []

namespace Diagnostic

/-- The row of the source line, behind its number. -/
def sourceRow (source : String) (line : Nat) : List Char :=
  padLeft 3 (toString line).toList ++ " | ".toList ++ shownLine source line

/-- The row of carets: one for each character of the place, and at least one. -/
def caretRow (span : Span) : List Char :=
  "   | ".toList ++ List.replicate (span.column - 1) ' ' ++ List.replicate (max span.len 1) '^'

end Diagnostic

/-- The error as a user sees it, for a source that goes by `name`. -/
def LexError.render (e : LexError) (name source : String) : String :=
  String.ofList
    (s!"error: {e.kind.message}\n  --> {name}:{e.span.line}:{e.span.column}\n   |\n".toList
      ++ Diagnostic.sourceRow source e.span.line ++ ['\n']
      ++ Diagnostic.caretRow e.span ++ ['\n'])

end SlangScript
