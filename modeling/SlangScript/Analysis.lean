import SlangScript.Program
import SlangScript.Token.Scan
import SlangScript.Validity.Program

/-! The whole front end: from a source text to its token lines and its tree. -/
namespace SlangScript

/-- Why a program is not accepted. -/
inductive AnalysisError where
  | lexical (error : LexError)
  | grammatical (errors : List SyntaxError)
  deriving DecidableEq, Repr

def AnalysisError.message : AnalysisError → String
  | lexical e => s!"lexical analysis failed: {e.message}"
  | grammatical errors => s!"syntax analysis failed with {errors.length} error(s)"

/-- An accepted program. -/
structure Analysis where
  lines : List TokenLine
  tree : Tree
  deriving DecidableEq, Repr

/-- The token lines of a text whose constructs are well formed. -/
def lex (source : String) : Except LexError (List TokenLine) := do
  let lines ← tokenize source
  validate lines

/-- The tree of token lines whose constructs are well formed. -/
def analyzeLines (lines : List TokenLine) : Except AnalysisError Analysis :=
  let outcome := parse (TokenLine.flatten lines)
  if outcome.isSuccess then .ok ⟨lines, outcome.tree⟩ else .error (.grammatical outcome.errors)

def analyze (source : String) : Except AnalysisError Analysis :=
  match lex source with
  | .ok lines => analyzeLines lines
  | .error e => .error (.lexical e)

end SlangScript
