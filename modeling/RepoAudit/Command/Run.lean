import RepoAudit.Command.Input
import RepoAudit.Command.Request
import RepoAudit.Gate.Record
import RepoAudit.Ranking.Comparison
import RepoAudit.Ranking.Plan
import RepoAudit.Report.Export
import RepoAudit.Time.Since

/-!
# Carrying out requests

A command ends with success, with a check that is not passed, or with a failure.
-/

namespace RepoAudit.Command

open Files

/-- Whether what a command was to check is in order. -/
inductive Verdict where
  | passed
  | rejected
deriving DecidableEq, Repr

def Verdict.of (passed : Bool) : Verdict := if passed then .passed else .rejected

/-- What is left of one run of the program. -/
structure Ran where
  printed : String
  result : Except Failure Verdict

def Ran.exit (r : Ran) : Nat :=
  match r.result with
  | .ok .passed => 0
  | .ok .rejected => 1
  | .error _ => 2

/-- An extension as it is given on the command line. -/
def givenExtension (s : String) : String :=
  Text.lowered (String.ofList (Text.dropAllStart ['.'] (Text.trim s.toList)))

/-- A configuration with the settings that go before it. -/
def Scan.apply (s : Scan) (c : Config) : Config where
  exclude := { c.exclude with
    paths := s.exclude.foldl (fun ps p => if ps.contains p then ps else ps ++ [p]) c.exclude.paths }
  walk := { c.walk with
    extensions :=
      if s.extensions.isEmpty then c.walk.extensions
      else (s.extensions.map givenExtension).filter (!·.isEmpty)
    maxFiles := s.maxFiles.getD c.walk.maxFiles
    hash := s.hash.getD c.walk.hash }
  history := { c.history with
    since := s.since <|> c.history.since
    maxCommits := s.maxCommits.getD c.history.maxCommits }
  hotspots := { c.hotspots with topN := s.topN.getD c.hotspots.topN }
  complexity := { c.complexity with external := c.complexity.external && !s.noExternal }
  gate := c.gate

/-- The directory that a path leads to. -/
def directoryAt (path : String) (place : Option Place) : Except Failure Place :=
  match place with
  | none => .error (.missingPath path)
  | some p =>
    if p.node.isDirectory then .ok p else .error (.argument (.notADirectory path))

/-- The file that a path leads to, if it leads to one. -/
def isFile (place : Option Place) : Bool := place.any (·.node.isFile)

def outcomeJson (d : Gate.Decision) : Json :=
  let text (s : Option String) : Json := match s with
    | some s => .string s
    | none => .null
  let count (n : Nat) : Json := .int n
  .object [
    ("passed", .bool d.passed),
    ("strict", .bool d.strict),
    ("conforms", .bool d.conforms),
    ("violations", count d.violations),
    ("warnings", count d.warnings),
    ("infos", count d.infos),
    ("results", .array (d.results.map fun v => .object [
      ("severity", .string v.severity.name),
      ("focus", .string v.focus),
      ("path", text v.path),
      ("message", .string v.message),
      ("value", text v.value),
      ("source_shape", .string v.sourceShape),
      ("component", .string v.component)]))]

def line (text : String) : String := text ++ "\n"

def outcomeText (d : Gate.Decision) : String :=
  let mode := if d.strict then " (strict)" else ""
  let verdict := if d.passed then "✓ PASSED" else "✗ FAILED"
  line "" ++ line "Quality gate" ++ line "──────────────────────────────────────" ++
    line s!"  {d.violations} violation(s), {d.warnings} warning(s), {d.infos} info{mode}" ++
    String.join (d.failures.map fun v => line ("  " ++ v.shown)) ++ line "" ++ line verdict

variable {m : Type → Type} [Monad m] (host : Host m)

/-- Puts a text into a file, or prints it so that it ends a line. -/
def emit (text : String) : Option String → Act m Unit
  | some path => do failing (← ask (host.write path text))
  | none => print (if text.endsWith "\n" then text else line text)

/-- Audits a directory under its effective configuration. -/
def audit (mode : Audit.Mode) (scan : Scan) (wanted : Option String) :
    Act m (Project × Config) := do
  let place ← failing (directoryAt scan.path (← ask (host.place? scan.path)))
  let config := scan.apply (← config host place.path wanted)
  if let some text := config.history.since then
    let _ ← failing (Time.since text)
  let name := place.names.getLast?.getD "project"
  let outcome := Audit.run (mode.stages !scan.noHistory)
    { root := place.path, place, config } (.named name place.path)
  return ({ outcome.project with analyzedAt := some (← ask host.now) }, config)

/-- Decides on a file with a data graph or a report. -/
def gateFile (path : String) (v : Shacl.Validator) (strict : Bool) : Act m Gate.Decision := do
  match Report.Format.ofPath? path with
  | some .turtle => return Gate.evaluate (← data host path) v strict
  | some .jsonLd => return ((← report host path).gate v strict).1
  | _ => throw (.argument (.cannotGate path))

/-- Decides on a file or on a directory, which is audited first. -/
def decide (scan : Scan) (check : Check) (strict : Bool) (wanted : Option String) :
    Act m Gate.Decision := do
  let place ← ask (host.place? scan.path)
  if place.isNone then throw (.missingPath scan.path)
  if isFile place then
    let base := String.ofList (holder scan.path.toList)
    let c ← config host base wanted
    let v ← validator host base check.shapes c (check.inference || c.gate.inference)
    gateFile host scan.path v (strict || c.gate.strict)
  else
    let (p, c) ← audit host .full scan wanted
    let v ← validator host p.root check.shapes c (check.inference || c.gate.inference)
    return (p.gate v (strict || c.gate.strict)).1

/-- The project for a plan: that of a report, or that of a directory, which is audited first. -/
def planned (scan : Scan) (wanted : Option String) : Act m Project := do
  if isFile (← ask (host.place? scan.path)) then
    if Report.Format.ofPath? scan.path != some .jsonLd then
      throw (.argument (.notAReport scan.path))
    report host scan.path
  else return (← audit host .full scan wanted).1

/-- Checks an audited project against shapes, if it is to be checked. -/
def checked (p : Project) (c : Config) (shapes : Option (List String)) : Act m (Verdict × Project) :=
  match shapes with
  | none => return (.passed, p)
  | some paths => do
    let v ← validator host p.root paths c c.gate.inference
    let (d, p) := p.gate v c.gate.strict
    return (.of d.passed, p)

/-- Carries out a request. -/
def Invocation.run (i : Invocation) : Act m Verdict :=
  match i.request with
  | .audit mode scan output shapes => do
    let (p, c) ← audit host mode scan i.config
    let (verdict, p) ← checked host p c shapes
    emit host (Report.render p output.format) output.file
    if output.turtle.isSome then emit host (Report.render p .turtle) output.turtle
    if output.markdown.isSome then emit host (Report.render p .markdown) output.markdown
    return verdict
  | .compare old new failOnRegression json => do
    let before ← report host old
    let c := Ranking.comparison before (← report host new)
    print (if json then line c.toJson.pretty else c.toText)
    return .of !(failOnRegression && c.hasRegressions)
  | .gate scan check strict json => do
    let d ← decide host scan check strict i.config
    if check.report.isSome then emit host (Rdf.Turtle.write d.report) check.report
    print (if json then line (outcomeJson d).pretty else outcomeText d)
    return .of d.passed
  | .validate path check => do
    let g ← data host path
    let v ← validatorOf host check.shapes
    let outcome := { v with inference := check.inference }.validate g
    emit host (Rdf.Turtle.write outcome.report) check.report
    return .of outcome.conforms
  | .plan scan top json file => do
    let p := Ranking.plan (← planned host scan i.config) top
    emit host (if json then p.toJson.pretty else p.toMarkdown) file
    return .passed

/-- Runs the program on the words of its command line. -/
def run (words : List String) : m (Except Usage Ran) := do
  match Invocation.ofWords words with
  | .error usage => return .error usage
  | .ok i =>
    let (result, printed) ← i.run host ""
    return .ok ⟨printed, result⟩

end RepoAudit.Command
