import RepoAudit.Audit.Pipeline
import RepoAudit.Command.Grammar
import RepoAudit.Report.Format

/-!
# Requests

What the program can be asked to do, and the command line for each request.
-/

namespace RepoAudit.Command

/-- Which directory or file a command looks at, and settings that go before its configuration. -/
structure Scan where
  path : String
  /-- None for those of the configuration. -/
  extensions : List String
  exclude : List String
  maxFiles : Option Nat
  since : Option String
  maxCommits : Option Nat
  topN : Option Nat
  hash : Option Digest.Algorithm
  /-- Whether the history is left out. -/
  noHistory : Bool
  /-- Whether no other program may measure files. -/
  noExternal : Bool

/-- Where the reports on a project go. -/
structure Output where
  format : Report.Format
  /-- The file of the report; it is printed if there is none. -/
  file : Option String
  /-- A file for one more report in Turtle. -/
  turtle : Option String
  /-- A file for one more report in Markdown. -/
  markdown : Option String

/-- How data is checked. -/
structure Check where
  shapes : List String
  inference : Bool
  /-- A file for the validation report. -/
  report : Option String

inductive Request where
  /-- Audit a directory; with `shapes`, check the result against them. -/
  | audit (mode : Audit.Mode) (scan : Scan) (output : Output) (shapes : Option (List String))
  | compare (old new : String) (failOnRegression json : Bool)
  | gate (scan : Scan) (check : Check) (strict json : Bool)
  | validate (data : String) (check : Check)
  | plan (scan : Scan) (top : Option Nat) (json : Bool) (file : Option String)

/-- A request, and the configuration that it asks for. -/
structure Invocation where
  request : Request
  config : Option String

/-! ### Options and operands -/

def flag (name : String) : Parameter := { name, role := .flag }

def single (name : String) (domain : Domain) : Parameter := { name, role := .single domain }

def many (name : String) (domain : Domain) : Parameter := { name, role := .many domain none }

def helpOption : Parameter := { name := "help", letter := some 'h', role := .help }

def fileOption : Parameter := { name := "output", letter := some 'o', role := .single .path }

def formatOption (names : List String) : Parameter :=
  { name := "format", letter := some 'f', role := .single (.oneOf names) }

/-- The options that are known before a command and after it. -/
def generalOptions : List Parameter :=
  [single "log-level" (.oneOf ["error", "warn", "info", "debug", "trace"]),
    single "config" .path, helpOption]

def scanOptions : List Parameter :=
  [{ name := "extensions", role := .many .text (some ',') }, many "exclude" .text,
    single "max-files" .number, single "since" .text, single "max-commits" .number,
    single "top-n" .number, single "hash" (.oneOf ["sha256", "xxh3"]), flag "no-git",
    flag "no-external"]

def outputOptions : List Parameter :=
  [formatOption ["jsonld", "json-ld", "json", "turtle", "ttl", "markdown", "md"], fileOption,
    single "ttl" .path, single "md" .path]

def Scan.ofGiven (g : Given) : Scan where
  path := (g.text? "path").getD "."
  extensions := g.texts "extensions"
  exclude := g.texts "exclude"
  maxFiles := g.number? "max-files"
  since := g.text? "since"
  maxCommits := g.number? "max-commits"
  topN := g.number? "top-n"
  hash := (g.text? "hash").bind Digest.Algorithm.ofName?
  noHistory := g.has "no-git"
  noExternal := g.has "no-external"

def Output.ofGiven (g : Given) : Output where
  format := ((g.text? "format").bind fun name => (Report.Format.ofName name).toOption).getD .jsonLd
  file := g.text? "output"
  turtle := g.text? "ttl"
  markdown := g.text? "md"

def Check.ofGiven (g : Given) : Check where
  shapes := g.texts "shapes"
  inference := g.has "inference"
  report := g.text? "report"

/-! ### Commands -/

/-- A command: the words that call it, what it understands and the request that it stands for. -/
structure Verb where
  names : List String
  options : List Parameter
  operands : List Parameter := [single "path" .path]
  required : List String := []
  request : Given → Request

def Verb.grammar (c : Verb) : Grammar where
  options := generalOptions ++ c.options
  operands := c.operands
  required := c.required

def auditCommand (name : String) (mode : Audit.Mode) : Verb where
  names := [name]
  options := scanOptions ++ outputOptions
  request g := .audit mode (.ofGiven g) (.ofGiven g) none

def commands : List Verb :=
  [auditCommand "structure" .sources,
    auditCommand "history" .history,
    { names := ["analyze", "full"]
      options := scanOptions ++ outputOptions ++ [flag "validate", many "shapes" .path]
      request := fun g => .audit .full (.ofGiven g) (.ofGiven g)
        (if g.has "validate" then some (g.texts "shapes") else none) },
    { names := ["diff"]
      options := [flag "fail-on-regression", flag "json"]
      operands := [single "old" .path, single "new" .path]
      required := ["old", "new"]
      request := fun g => .compare ((g.text? "old").getD "") ((g.text? "new").getD "")
        (g.has "fail-on-regression") (g.has "json") },
    { names := ["gate"]
      options := scanOptions ++
        [many "shapes" .path, flag "strict", flag "inference", single "report" .path, flag "json"]
      request := fun g => .gate (.ofGiven g) (.ofGiven g) (g.has "strict") (g.has "json") },
    { names := ["validate"]
      options := [many "shapes" .path, flag "inference", single "report" .path]
      operands := [single "data" .path]
      required := ["data", "shapes"]
      request := fun g => .validate ((g.text? "data").getD "") (.ofGiven g) },
    { names := ["refactor-plan"]
      options := scanOptions ++
        [single "top" .number, formatOption ["markdown", "md", "json"], fileOption]
      request := fun g => .plan (.ofGiven g) (g.number? "top") (g.text? "format" == some "json")
        (g.text? "output") }]

def helpName : String := "help"

/-- The commands and their options, for those who ask for help. -/
def overview : String :=
  let option (p : Parameter) := "      --" ++ p.name ++ "\n"
  String.join (commands.map fun c =>
    "  " ++ ", ".intercalate c.names ++ "\n" ++ String.join (c.grammar.options.map option))

def generalGrammar : Grammar where
  options := generalOptions ++ [{ name := "version", letter := some 'V', role := .version }]
  commands := helpName :: commands.flatMap (·.names)

/-- What comes of asking for the help on words: only the first may name a command. -/
def helpOn (words : List String) : Usage :=
  match words with
  | [] => .help
  | [word] => if generalGrammar.commands.contains word then .help else .unknownCommand
  | _ => .unknownCommand

/-- Reads a command line. What stands after the name of a command is read before the last option
in front of it is checked. -/
def Invocation.ofWords (words : List String) : Except Usage Invocation := do
  let (r, rest) ← generalGrammar.readFrom generalGrammar.start words
  match rest with
  | none =>
    let g ← generalGrammar.finished r
    throw (if g.isEmpty then .nothing else .noCommand)
  | some (word, rest) =>
    match commands.find? (·.names.contains word) with
    | none => throw (helpOn rest)
    | some command =>
      let inner ← command.grammar.read rest
      let outer ← generalGrammar.finished r
      return ⟨command.request inner, inner.text? "config" <|> outer.text? "config"⟩

end RepoAudit.Command
