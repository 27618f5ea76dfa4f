import SlangScript.Text.Line
import SlangScript.Token.Lexeme

/-! The tokens of a source text, line by line. Reading stops at the first defect; what was read before
it is kept, since a log of the tokens shows it. -/
namespace SlangScript

/-- The tokens of a line up to its end or its first defect. -/
structure LineScan where
  tokens : List Token
  defect : Option LexError
  deriving DecidableEq, Repr

/-- Reads a line, or what is left of it, whose first character stands at `column`. -/
def scanLine (line column : Nat) : List Char → LineScan
  | [] => ⟨[], none⟩
  | c :: rest =>
    match Lexeme.read c rest with
    | .token kind more =>
      let token : Token := ⟨kind, String.ofList (c :: rest.take more), ⟨line, column, more + 1⟩⟩
      let next := scanLine line (column + more + 1) (rest.drop more)
      { next with tokens := token :: next.tokens }
    | .blank => scanLine line (column + 1) rest
    | .defect kind offset => ⟨[], some ⟨kind, .point line (column + offset)⟩⟩
termination_by text => text.length

/-- The lines of a text up to its end or its first defect. -/
structure Scan where
  lines : List TokenLine
  defect : Option LexError
  deriving DecidableEq, Repr

/-- Reads lines of which the first has the number `line`. -/
def scanLines (line : Nat) : List (List Char) → Scan
  | [] => ⟨[], none⟩
  | text :: more =>
    let here := scanLine line 1 text
    match here.defect with
    | some e => ⟨[⟨line, here.tokens⟩], some e⟩
    | none =>
      let next := scanLines (line + 1) more
      { next with lines := ⟨line, here.tokens⟩ :: next.lines }

/-- Reads a whole text. A text of white space alone is an error of its own. -/
def scan (source : String) : Scan :=
  if source.toList.all isBlank then ⟨[], some ⟨.emptyInput, .point 1 1⟩⟩
  else scanLines 1 (splitLines source.toList)

/-- The token lines of a text, or its first defect. -/
def tokenize (source : String) : Except LexError (List TokenLine) :=
  let result := scan source
  match result.defect with
  | some e => .error e
  | none => .ok result.lines

end SlangScript
