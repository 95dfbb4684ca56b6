import RepoAudit.Decimal.Reader
import RepoAudit.Text.Split

/-!
# Command lines

A command line is read word by word. A word with a dash at its start names options; any other word is the
value of the option right before it or else an operand. After two dashes all words are operands.
The value of an option or operand is checked when the next one begins, so that an unknown option is
noticed before an unusable value of the one before it.
-/

namespace RepoAudit.Command

/-- Why a command line runs no command. -/
inductive Usage where
  /-- The help is asked for. -/
  | help
  /-- The version is asked for. -/
  | version
  /-- The command line is empty. -/
  | nothing
  | noCommand
  | unknownCommand
  | unknownArgument
  | missingArgument
  /-- A value is not there or is not one of those that are possible. -/
  | unusableValue
  /-- A value is no number. -/
  | invalidNumber
  /-- An option that may be given once is given again. -/
  | repeated
  /-- A value is given to an option that has none. -/
  | needlessValue
deriving DecidableEq, Repr

/-- To ask for the help or for the version is no mistake. -/
def Usage.exit : Usage → Nat
  | .help | .version => 0
  | _ => 2

inductive Value where
  /-- The option has no value and is there. -/
  | present
  | text (s : String)
  | number (n : Nat)
deriving DecidableEq, Repr

/-- Which values an option or operand may have. -/
inductive Domain where
  | text
  /-- Any text but the empty one. -/
  | path
  /-- A number below `2 ^ 64`. -/
  | number
  | oneOf (names : List String)
deriving DecidableEq, Repr

def Domain.read (d : Domain) (s : String) : Except Usage Value :=
  match d with
  | .text => .ok (.text s)
  | .path => if s.isEmpty then .error .unusableValue else .ok (.text s)
  | .number => match Decimal.word? 64 s.toList with
    | some n => .ok (.number n)
    | none => .error .invalidNumber
  | .oneOf names => if names.contains s then .ok (.text s) else .error .unusableValue

/-- What an option or operand does. -/
inductive Role where
  | help
  | version
  /-- Is there or not. -/
  | flag
  | single (domain : Domain)
  /-- May be given again; each value is cut at the separator. -/
  | many (domain : Domain) (separator : Option Char)
deriving DecidableEq, Repr

structure Parameter where
  name : String
  /-- The letter that stands for the name of an option. -/
  letter : Option Char := none
  role : Role
deriving DecidableEq, Repr

def Parameter.hasValue (p : Parameter) : Bool :=
  match p.role with
  | .help | .version | .flag => false
  | .single _ | .many _ _ => true

/-- The words that a command understands. -/
structure Grammar where
  options : List Parameter
  operands : List Parameter := []
  /-- The names of the options and operands that must be there. -/
  required : List String := []
  /-- The words that begin a command of its own. -/
  commands : List String := []

/-- What was given, in order. -/
abbrev Given := List (String × Value)

namespace Given

def has (g : Given) (name : String) : Bool := g.any (·.1 == name)

/-- The values of an option or operand. -/
def values (g : Given) (name : String) : List Value := (g.filter (·.1 == name)).map (·.2)

def texts (g : Given) (name : String) : List String :=
  (g.values name).filterMap fun
    | .text s => some s
    | _ => none

def text? (g : Given) (name : String) : Option String := (g.texts name).head?

def number? (g : Given) (name : String) : Option Nat :=
  (g.values name).findSome? fun
    | .number n => some n
    | _ => none

end Given

/-- How far a command line is read. -/
structure Reading where
  given : Given := []
  /-- The option or operand that was read last and its value, which is not checked yet. -/
  last : Option (Parameter × Option String) := none
  /-- The operands that are not there yet. -/
  operands : List Parameter
  /-- Whether all further words are operands. -/
  ended : Bool := false

namespace Reading

/-- Whether the next word is the value of the last option. -/
def awaits (r : Reading) : Bool :=
  match r.last with
  | some (_, none) => true
  | _ => false

/-- Takes what was given to an option or operand. -/
def accept (r : Reading) (p : Parameter) (value : Option String) : Except Usage Reading :=
  match p.role, value with
  | .help, _ => .error .help
  | .version, _ => .error .version
  | .flag, _ =>
    if r.given.has p.name then .error .repeated
    else .ok { r with given := r.given ++ [(p.name, .present)] }
  | .single _, none => .error .unusableValue
  | .single domain, some s => do
    if r.given.has p.name then throw .repeated
    return { r with given := r.given ++ [(p.name, ← domain.read s)] }
  | .many _ _, none => .error .unusableValue
  | .many domain separator, some s => do
    let parts := match separator with
      | some c => (Text.fields c s.toList).map String.ofList
      | none => [s]
    return { r with given := r.given ++ (← parts.mapM domain.read).map (p.name, ·) }

/-- Checks the value that was read last. -/
def settled (r : Reading) : Except Usage Reading :=
  match r.last with
  | some (p, value) => { r with last := none }.accept p value
  | none => .ok r

/-- Reads an option with the value that is attached to it. -/
def option (r : Reading) (p : Parameter) (attached : Option String) : Except Usage Reading := do
  let r ← r.settled
  if p.hasValue && attached.isNone then return { r with last := some (p, none) }
  else r.accept p attached

/-- Reads a word after two dashes: a name, and a value after a sign of equality. -/
def long (g : Grammar) (r : Reading) (word : List Char) : Except Usage Reading :=
  let (name, attached) := match Text.cut? '=' word with
    | some (name, value) => (name, some (String.ofList value))
    | none => (word, none)
  match g.options.find? (·.name == String.ofList name) with
  | none => .error .unknownArgument
  | some p => if !p.hasValue && attached.isSome then .error .needlessValue else r.option p attached

/-- Reads the letters after a dash. What follows the letter of an option with a value is the
value. -/
def letters (g : Grammar) (r : Reading) : List Char → Except Usage Reading
  | [] => .ok r
  | c :: rest => match g.options.find? (·.letter == some c) with
    | none => .error .unknownArgument
    | some p =>
      if p.hasValue then match rest with
        | [] => r.option p none
        | '=' :: value => r.option p (some (String.ofList value))
        | value => r.option p (some (String.ofList value))
      else do letters g (← r.option p none) rest

/-- Reads an operand. If none is left, the word is taken for a misspelt command where there are
any. -/
def operand (g : Grammar) (r : Reading) (word : String) : Except Usage Reading :=
  match r.operands with
  | p :: rest => do return { (← r.settled) with last := some (p, some word), operands := rest }
  | [] =>
    if g.commands.isEmpty || g.commands.contains word then .error .unknownArgument
    else .error .unknownCommand

/-- Reads a word that begins no command. -/
def word (g : Grammar) (r : Reading) (word : String) : Except Usage Reading :=
  if r.ended then r.operand g word
  else match word.toList with
    | ['-', '-'] => .ok { r with ended := true }
    | '-' :: '-' :: rest => r.long g rest
    | '-' :: c :: rest => r.letters g (c :: rest)
    | _ => match r.last with
      | some (p, none) => .ok { r with last := some (p, some word) }
      | _ => r.operand g word

end Reading

namespace Grammar

def start (g : Grammar) : Reading := { operands := g.operands }

/-- Reads words up to one that begins a command; the second part is that word and what follows. -/
def readFrom (g : Grammar) (r : Reading) :
    List String → Except Usage (Reading × Option (String × List String))
  | [] => .ok (r, none)
  | w :: ws =>
    if !r.ended && !r.awaits && g.commands.contains w then .ok (r, some (w, ws))
    else do g.readFrom (← r.word g w) ws

/-- What was given, if nothing is missing. -/
def finished (g : Grammar) (r : Reading) : Except Usage Given := do
  let r ← r.settled
  if g.required.all r.given.has then return r.given else throw .missingArgument

/-- Reads all the words of a command. -/
def read (g : Grammar) (words : List String) : Except Usage Given := do
  let (r, _) ← g.readFrom g.start words
  g.finished r

end Grammar
end RepoAudit.Command
