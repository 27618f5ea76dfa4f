/-! Two divisions of a text into lines: the one that positions refer to, which cuts at every line
feed, and the one that diagnostics show. -/
namespace SlangScript

/-- Puts a character in front of the first line. -/
def consLine (c : Char) : List (List Char) → List (List Char)
  | [] => [[c]]
  | l :: ls => (c :: l) :: ls

/-- The text cut at every line feed: one line more than there are line feeds. -/
def splitLines (text : List Char) : List (List Char) :=
  text.foldr (fun c lines => if c = '\n' then [] :: lines else consLine c lines) [[]]

/-- A line without the carriage return at its end. -/
def dropReturn (line : List Char) : List Char :=
  if line.getLast? = some '\r' then line.dropLast else line

/-- The lines as they are shown. A carriage return before a line feed belongs to the line break, and
a line feed at the end of the text opens no further line. -/
def shownLines (text : List Char) : List (List Char) :=
  let lines := splitLines text
  let closed := lines.dropLast.map dropReturn
  match lines.getLast? with
  | none | some [] => closed
  | some last => closed ++ [last]

end SlangScript
