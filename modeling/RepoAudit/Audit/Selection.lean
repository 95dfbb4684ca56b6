import RepoAudit.Config.Basic
import RepoAudit.Failure
import RepoAudit.Ignore.Rule
import RepoAudit.Text.Slug

/-!
# The files of an audit

Files that are ignored, excluded, too large or of another extension are left aside. The rest is
taken in the order of their paths, up to the greatest number.
-/

namespace RepoAudit.Audit

open Files

/-- A file that is taken into account. -/
structure Source where
  path : String
  content : List UInt8

/-- The extension of a file in lower case; empty if there is none. -/
def extensionOf (path : String) : String :=
  String.ofList (((extension? path.toList).getD []).map Char.toLower)

/-- An extension as it is given in a configuration, without dots at the start. -/
def plainExtension (s : String) : String :=
  String.ofList ((Text.dropAllStart ['.'] s.toList).map Char.toLower)

def hasExtension (config : Config) (path : String) : Bool :=
  config.walk.extensions.isEmpty ||
    (config.walk.extensions.map plainExtension).contains (extensionOf path)

def hasSize (config : Config) (content : List UInt8) : Bool :=
  config.walk.maxFileBytes == 0 || content.length ≤ config.walk.maxFileBytes

/-- A file by the names that lead to it, if it counts. -/
def source? (config : Config) (names : List String) (content : List UInt8) : Option Source :=
  let path := "/".intercalate names
  let shown := normalized path
  if !config.exclude.excludes shown && hasExtension config path && hasSize config content then
    some ⟨shown, content⟩
  else none

/-- The files at a place that count. -/
def select (config : Config) (p : Place) : List Source :=
  let all := (Ignore.files p).filterMap fun (names, content) => source? config names content
  let sorted := all.mergeSort fun a b => (compare a.path b.path).isLE
  if config.walk.maxFiles == 0 then sorted else sorted.take config.walk.maxFiles

/-- The files of a project, whose root must be a directory. -/
def sources (config : Config) (root : String) (place : Option Place) :
    Except Failure (List Source) :=
  match place with
  | some p => if p.node.isDirectory then .ok (select config p) else .error (.noRoot root)
  | none => .error (.noRoot root)

end RepoAudit.Audit
