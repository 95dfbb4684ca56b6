import RepoAudit.Json.Document
import RepoAudit.Text.Blank

/-!
# Runs of a measuring program

How a run of another program ended, what it gave, and one line that says why it gave nothing.
-/

namespace RepoAudit.Measure

inductive Run where
  /-- The program came to its end; there is no code if a signal ended it. -/
  | exited (code : Option Int) (output errors : String)
  | notInstalled
  | timedOut (millis : Nat)
  | failed (reason : String)
deriving DecidableEq, Repr

namespace Run

def succeeded : Run → Bool
  | .exited (some 0) _ _ => true
  | _ => false

/-- How deeply values in the output may be nested. -/
def outputDepth : Nat := 127

/-- The output of a successful run as a value. -/
def json? : Run → Option Json
  | .exited (some 0) output _ => do (← Json.Document.ofText? output.toList).toJson? outputDepth
  | _ => none

def describe : Run → String
  | .exited code _ errors =>
    let status := match code with
      | some c => toString c
      | none => "signal"
    match Text.lines (Text.trim errors.toList) with
    | line :: _ => s!"exit status {status}: {String.ofList line}"
    | [] => s!"exit status {status}"
  | .notInstalled => "not installed"
  | .timedOut millis => s!"timed out after {millis / 1000}s"
  | .failed reason => reason

end Run
end RepoAudit.Measure
