import SlangScript.CommandLine.Report
import SlangScript.Proofs.Tables

/-! What a run of the program shows to its caller: an exit status, what it writes, and the log. The status
is the verdict on the source, a failed run writes nothing but complaints, and the log is all that changes
with the verbosity. -/
namespace SlangScript

namespace Command

/-- The log lines of a run. A source that cannot be read is not looked at. -/
def log (c : Command) (verbosity : Nat) : Except ReadFailure SourceText → String
  | .ok source => logText verbosity (c.events source)
  | .error _ => ""

variable {c : Command} {source : SourceText} {input : Except ReadFailure SourceText} {v : Nat}

end Command

end SlangScript
