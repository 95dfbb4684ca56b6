import RepoAudit.Text.Blank
import RepoAudit.Text.Casing
import RepoAudit.Text.Split

/-!
# Names in a common form

A name without superfluous blanks and in lower case, and a text reduced to letters, digits and
hyphens.
-/

namespace RepoAudit.Text

/-- A name whose words have one blank between them, in lower case. -/
def normalizedName (s : String) : String :=
  String.ofList (lower (join [' '] (words s.toList)))

/-- Keeps letters and digits of ASCII, in lower case. Other characters become a hyphen, of which
there is never one at either end nor two in a row. -/
def slugChars (cs : List Char) : List Char :=
  join ['-'] (((fieldsBy (fun c => !c.isAlphanum) cs).filter (!·.isEmpty)).map (·.map Char.toLower))

def slug (s : String) : String := String.ofList (slugChars s.toList)

end RepoAudit.Text
