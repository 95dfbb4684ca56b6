import RepoAudit.Files.Path
import RepoAudit.Text.Blank

/-!
# Languages of source files

The language of a file is told by the extension of its name. Files of other extensions have none.
-/

namespace RepoAudit.Source

/-- The extensions of each language. -/
def extensions : List (String × List String) :=
  [("python", ["py", "pyi"]), ("javascript", ["js", "jsx", "mjs", "cjs"]),
   ("typescript", ["ts", "tsx"]), ("rust", ["rs"]), ("go", ["go"]), ("java", ["java"]),
   ("kotlin", ["kt", "kts"]), ("c", ["c", "h"]), ("cpp", ["cpp", "hpp", "cc", "cxx", "hh"]),
   ("csharp", ["cs"]), ("ruby", ["rb"]), ("php", ["php"]), ("swift", ["swift"]),
   ("scala", ["scala"]), ("shell", ["sh", "bash"]), ("markdown", ["md", "markdown"]),
   ("toml", ["toml"]), ("yaml", ["yaml", "yml"]), ("json", ["json"]), ("turtle", ["ttl"])]

/-- The language of a file by its path; the case of the extension does not matter. -/
def language? (path : String) : Option String := do
  let ext ← Files.extension? path.toList
  let ext := String.ofList (ext.map Char.toLower)
  (extensions.find? fun e => e.2.contains ext).map (·.1)

/-- The number of lines that are not blank. -/
def lineCount (content : String) : Nat :=
  ((Text.lines content.toList).filter fun line => !(Text.trim line).isEmpty).length

end RepoAudit.Source
