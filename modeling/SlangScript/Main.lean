import SlangScript.CommandLine.Invocation

/-! The program. Everything here reads files or writes channels; what is written is decided by
`Command.run`. -/
namespace SlangScript

/-- Reads the source that an invocation names. -/
def readSource : SourceChoice → IO (Except ReadFailure SourceText)
  | .inline text => pure (.ok (.inline text))
  | .file path => do
    try
      let bytes ← IO.FS.readBinFile path
      pure (SourceText.ofBytes path bytes)
    catch
      | .noFileOrDirectory .. => pure (.error .notFound)
      | .permissionDenied .. => pure (.error .denied)
      | .inappropriateType _ 21 _ => pure (.error .directory)
      | e => pure (.error (.other (toString e)))

end SlangScript

open SlangScript in
/-- Runs the command that the arguments name, and ends with its status. -/
def main (arguments : List String) : IO UInt32 := do
  match Invocation.ofArguments? arguments with
  | none =>
    IO.eprint usage
    pure 2
  | some invocation =>
    let report := invocation.command.run invocation.verbosity (← readSource invocation.source)
    IO.print report.stdout
    IO.eprint report.stderr
    pure report.status.toUInt32
