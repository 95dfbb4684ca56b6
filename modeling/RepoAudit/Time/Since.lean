import RepoAudit.Failure
import RepoAudit.Time.Reader

/-!
# The time from which on a history is read
-/

namespace RepoAudit.Time

/-- Reads an instant, or a date that stands for the instant at which it begins. -/
def since (text : String) : Except Failure Instant :=
  match rfc3339? text.toList <|> date? text.toList with
  | some t => .ok t
  | none => .error (.date text)

end RepoAudit.Time
