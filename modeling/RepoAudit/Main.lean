import RepoAudit.Command.Run
import Std.Time.DateTime.Timestamp

/-!
# The program

Carries out a command line on the machine itself, with its disk and its clock.
-/

namespace RepoAudit.Machine

open Files Command

/-- Puts a node below names that each lead to a directory of its own. -/
def nested : List String → Node → Node
  | [], n => n
  | name :: rest, n => .directory [(name, nested rest n)]

def fileAt (path : String) : IO Node := do
  return .file (← IO.FS.readBinFile path).toList

/-- The ignore files of a directory. -/
def ruleEntries (dir : String) : IO Entries := do
  let mut found : Entries := []
  for names in Ignore.ruleFiles do
    if let name :: rest := names then
      try
        let file ← fileAt (joined dir ("/".intercalate names))
        found := (name, nested rest file) :: found
      catch _ => pure ()
  return found.reverse

/-- Reads what a path leads to. Links below it are not followed, and of the store of a history only
the ignore file is taken. -/
partial def nodeAt (path : String) : IO Node := do
  let there ← IO.FS.realPath path
  if ← there.isDir then
    let mut found := (← ruleEntries path).filter (·.1 == ".git")
    for entry in ← there.readDir do
      unless entry.fileName == ".git" do
        try
          let kind := (← entry.path.symlinkMetadata).type
          if kind == .file || kind == .dir then
            found := (entry.fileName, ← nodeAt entry.path.toString) :: found
        catch _ => pure ()
    return .directory found
  else fileAt path

def place? (path : String) : IO (Option Place) := do
  try
    let there ← IO.FS.realPath path
    let names := (Text.fields '/' there.toString.toList).filter (!·.isEmpty) |>.map String.ofList
    let above ← (List.range names.length).reverse.mapM fun n =>
      ruleEntries (absolutePath (names.take n))
    return some ⟨names, above, ← nodeAt path⟩
  catch _ => return none

def succeeds (action : IO Unit) : IO Bool := do
  try
    action
    return true
  catch _ => return false

def write (path text : String) : IO (Except Failure Unit) := do
  let dir := String.ofList (holder path.toList)
  if !dir.isEmpty && !(← succeeds (IO.FS.createDirAll dir)) then return .error (.cannotCreate dir)
  if ← succeeds (IO.FS.writeFile path text) then return .ok ()
  else return .error (.cannotWrite path)

def now : IO Time.Instant := do
  let nanos := (← Std.Time.Timestamp.now).toNanosecondsSinceUnixEpoch.val
  return ⟨nanos / 1000000000, (nanos % 1000000000).toNat⟩

def host : Host IO := { place?, write, now }

end RepoAudit.Machine

open RepoAudit in
def main (words : List String) : IO UInt32 := do
  match ← Command.run Machine.host words with
  | .error usage =>
    if usage.exit == 0 then IO.print Command.overview else IO.eprint Command.overview
    return UInt32.ofNat usage.exit
  | .ok ran =>
    IO.print ran.printed
    if let .error failure := ran.result then IO.eprintln ("error: " ++ failure.message)
    return UInt32.ofNat ran.exit
