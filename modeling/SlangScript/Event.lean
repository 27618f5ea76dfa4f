import SlangScript.Analysis

/-! The log of an analysis: what each stage reports while it works, and how a log line is written. -/
namespace SlangScript

inductive Severity where
  | warn | debug | trace
  deriving DecidableEq, Repr

namespace Severity

def name : Severity → String
  | warn => "WARN"
  | debug => "DEBUG"
  | trace => "TRACE"

/-- Nothing is logged unless asked for, and single tokens only at the second asking. -/
def isLogged (verbosity : Nat) : Severity → Bool
  | warn | debug => 1 ≤ verbosity
  | trace => 2 ≤ verbosity

end Severity

/-- What a stage reports. -/
inductive Event where
  | token (t : Token)
  | tokenized (lines tokens : Nat)
  | rejected (error : LexError)
  | mismatch (error : SyntaxError)
  | parsed (nodes errors : Nat)
  | failed (errors : Nat)
  deriving DecidableEq, Repr

/-- A character of a log message. Those that a terminal takes as commands are written by their
code. -/
def escapeControl (c : Char) : List Char :=
  if c = '\x1b' then "\\x1b".toList
  else if c = '\x07' then "\\x07".toList
  else if c = '\x08' then "\\x08".toList
  else if c = '\x0c' then "\\x0c".toList
  else if c = '\x7f' then "\\x7f".toList
  else if 0x80 ≤ c.toNat && c.toNat ≤ 0x9f then
    "\\u\x7b".toList ++ Nat.toDigits 16 c.toNat ++ ['\x7d']
  else [c]

namespace Event

def severity : Event → Severity
  | token _ => .trace
  | mismatch _ => .warn
  | tokenized .. | rejected _ | parsed .. | failed _ => .debug

/-- The words of an event, and its data behind them. -/
def text : Event → String
  | token t =>
    s!"token line={t.span.line} column={t.span.column} kind={t.kind.name} lexeme={t.lexeme}"
  | tokenized lines tokens => s!"tokenized source lines={lines} tokens={tokens}"
  | rejected e =>
    s!"lexical validation rejected program at={e.span.position} kind={e.kind.message}"
  | mismatch e =>
    s!"{String.ofList (e.message.toList.flatMap escapeControl)} index={e.index}"
  | parsed nodes errors => s!"parsed token stream nodes={nodes} errors={errors}"
  | failed errors => s!"syntax analysis failed errors={errors}"

def line (e : Event) : String := s!"{e.severity.name} {e.text}\n"

/-- What tokenizing and validating a text reports. -/
def ofLexing (source : String) : List Event :=
  let result := scan source
  let tokens := TokenLine.flatten result.lines
  tokens.map token ++
    match result.defect with
    | some _ => []
    | none =>
      tokenized result.lines.length tokens.length ::
        match validate result.lines with
        | .ok _ => []
        | .error e => [rejected e]

/-- What parsing token lines reports. -/
def ofParsing (lines : List TokenLine) : List Event :=
  let outcome := parse (TokenLine.flatten lines)
  outcome.errors.map mismatch ++ [parsed outcome.tree.count outcome.errorCount] ++
    if outcome.isSuccess then [] else [failed outcome.errorCount]

/-- What the whole analysis of a text reports. -/
def ofAnalysis (source : String) : List Event :=
  ofLexing source ++
    match lex source with
    | .ok lines => ofParsing lines
    | .error _ => []

end Event

/-- The log lines of the events that are asked for. -/
def logText (verbosity : Nat) (events : List Event) : String :=
  String.join ((events.filter (·.severity.isLogged verbosity)).map Event.line)

end SlangScript
