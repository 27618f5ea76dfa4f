import SlangScript.CommandLine.Report

/-! The arguments of the program: one command, one source, and flags in any order. -/
namespace SlangScript

/-- Where the program text comes from. -/
inductive SourceChoice where
  | file (path : String)
  | inline (text : String)
  deriving DecidableEq, Repr

structure Invocation where
  command : Command
  verbosity : Nat
  source : SourceChoice
  deriving DecidableEq, Repr

namespace Invocation

/-- The arguments read so far. -/
structure Partial where
  command : Option Command
  verbosity : Nat
  source : Option SourceChoice
  tokenTable : Bool
  deriving DecidableEq, Repr

/-- A word that is no flag: the command first, the path of the source after it. -/
def Partial.word (p : Partial) (text : String) : Option Partial :=
  match p.command, p.source with
  | none, _ =>
    match text with
    | "tokens" => some { p with command := some .tokens }
    | "parse" => some { p with command := some (.parse false) }
    | "check" => some { p with command := some .check }
    | _ => none
  | some _, none => some { p with source := some (.file text) }
  | some _, some _ => none

/-- A text given in place of a file, which needs a command before it. -/
def Partial.inline (p : Partial) (text : String) : Option Partial :=
  match p.command, p.source with
  | some _, none => some { p with source := some (.inline text) }
  | _, _ => none

/-- What follows a given beginning of an argument. -/
def remainder? (start argument : String) : Option String :=
  if start.toList.isPrefixOf argument.toList then
    some (String.ofList (argument.toList.drop start.toList.length))
  else none

/-- Reads arguments from left to right. Behind `--` every argument is a word. -/
def readArguments (p : Partial) : List String → Option Partial
  | [] => some p
  | "--" :: rest => rest.foldlM Partial.word p
  | "--verbose" :: rest => readArguments { p with verbosity := p.verbosity + 1 } rest
  | "--tokens" :: rest =>
    match p.command, p.tokenTable with
    | some (.parse _), false => readArguments { p with tokenTable := true } rest
    | _, _ => none
  | "--eval" :: text :: rest => (p.inline text).bind fun q => readArguments q rest
  | "-e" :: text :: rest => (p.inline text).bind fun q => readArguments q rest
  | argument :: rest =>
    match remainder? "--eval=" argument with
    | some text => (p.inline text).bind fun q => readArguments q rest
    | none =>
      match argument.toList with
      | '-' :: 'v' :: more =>
        if more.all (· = 'v') then
          readArguments { p with verbosity := p.verbosity + 1 + more.length } rest
        else none
      | '-' :: 'e' :: text =>
        (p.inline (String.ofList text)).bind fun q => readArguments q rest
      | '-' :: _ :: _ => none
      | _ => (p.word argument).bind fun q => readArguments q rest

/-- The invocation that the arguments ask for, if they are complete and consistent. -/
def ofArguments? (arguments : List String) : Option Invocation := do
  let p ← readArguments ⟨none, 0, none, false⟩ arguments
  let source ← p.source
  match ← p.command with
  | .parse _ => pure ⟨.parse p.tokenTable, p.verbosity, source⟩
  | command => pure ⟨command, p.verbosity, source⟩

end Invocation

/-- The forms that the arguments may take. -/
def usage : String :=
  "Usage: slangscript [-v]... tokens|parse|check [--tokens] <PATH>|--eval <TEXT>\n"

end SlangScript
