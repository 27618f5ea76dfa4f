import SlangScript.Diagnostic
import SlangScript.Event
import SlangScript.Tree.Rows

/-! The commands of the program, as functions from what was read to what is written. -/
namespace SlangScript

inductive Command where
  /-- Shows the tokens, line by line. -/
  | tokens
  /-- Shows the tree, and the tokens before it if asked. -/
  | parse (withTokens : Bool)
  /-- Tells only that the program is accepted. -/
  | check
  deriving DecidableEq, Repr

/-- A program text and the name that messages give it. -/
structure SourceText where
  name : String
  text : String
  deriving DecidableEq, Repr

/-- Why a file could not be read. -/
inductive ReadFailure where
  | notFound
  | denied
  | directory
  | notText
  | other (description : String)
  deriving DecidableEq, Repr

def ReadFailure.message : ReadFailure → String
  | notFound => "No such file or directory (os error 2)"
  | denied => "Permission denied (os error 13)"
  | directory => "Is a directory (os error 21)"
  | notText => "stream did not contain valid UTF-8"
  | other description => description

/-- A text given on the command line. -/
def SourceText.inline (text : String) : SourceText := ⟨"<eval>", text⟩

/-- The text of a file. Its bytes must be UTF-8 throughout. -/
def SourceText.ofBytes (name : String) (bytes : ByteArray) : Except ReadFailure SourceText :=
  match String.fromUTF8? bytes with
  | some text => .ok ⟨name, text⟩
  | none => .error .notText

/-- What a command writes, and the status with which it ends. -/
structure Report where
  status : Nat
  stdout : String
  stderr : String
  deriving DecidableEq, Repr

/-- A line of tokens behind its number. -/
def TokenLine.text (l : TokenLine) : String :=
  let number := String.ofList (padLeft 3 (toString l.line).toList)
  let shown := String.intercalate " " (l.tokens.map Token.display)
  s!"{number}: {shown}\n"

/-- The tokens one a line, with their indices. -/
def tokenTable (tokens : List Token) : String :=
  String.join ((tokens.zipIdx).map fun p => s!"{p.2} {p.1.display}\n")

namespace Command

/-- What a command writes for an accepted program. -/
def output (c : Command) (source : SourceText) : Except AnalysisError String :=
  match c with
  | tokens =>
    match lex source.text with
    | .ok lines =>
      .ok (String.join ((lines.filter fun l => !l.tokens.isEmpty).map TokenLine.text))
    | .error e => .error (.lexical e)
  | parse withTokens =>
    match analyze source.text with
    | .ok a =>
      let table := if withTokens then "=== TOKENS ===\n" ++ tokenTable (TokenLine.flatten a.lines)
        else ""
      .ok (table ++ "Syntax analysis completed successfully!\n=== PARSE TREE ===\n"
        ++ a.tree.render)
    | .error e => .error e
  | check =>
    match analyze source.text with
    | .ok a => .ok s!"{source.name}: ok ({a.tree.statements.length} top-level statements)\n"
    | .error e => .error e

/-- What the stages of a command report. -/
def events (c : Command) (source : SourceText) : List Event :=
  match c with
  | tokens => Event.ofLexing source.text
  | parse _ | check => Event.ofAnalysis source.text

end Command

/-- What is written for a program that is not accepted. -/
def AnalysisError.report (source : SourceText) : AnalysisError → String
  | lexical e =>
    e.render source.name source.text
      ++ "Lexical analysis encountered errors; no parse attempted.\n"
  | grammatical errors =>
    String.join (errors.map fun e => e.display ++ "\n")
      ++ s!"Syntax analysis encountered {errors.length} error(s).\n"

/-- Runs a command on what was read. The log goes before all else on the error channel, and a command
that fails writes nothing on the other one. -/
def Command.run (c : Command) (verbosity : Nat) (input : Except ReadFailure SourceText) : Report :=
  match input with
  | .error f => ⟨1, "", s!"Error: IO error: {f.message}\n"⟩
  | .ok source =>
    let log := logText verbosity (c.events source)
    match c.output source with
    | .ok text => ⟨0, text, log⟩
    | .error e => ⟨1, "", log ++ e.report source⟩

end SlangScript
