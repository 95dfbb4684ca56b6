import RepoAudit.Decimal.Reader
import RepoAudit.Regex.Pattern
import RepoAudit.Text.CodePoints

/-!
# Reading patterns

The syntax has groups, repetitions, bracketed sets with operations, escapes, named properties and
flags. It has neither references to groups nor conditions on what surrounds a match.
-/

namespace RepoAudit.Regex

structure Flags where
  ignoreCase : Bool := false
  multiLine : Bool := false
  dotAll : Bool := false
  crlf : Bool := false
  unicode : Bool := true
  /-- Blanks and comments in the pattern mean nothing. -/
  verbose : Bool := false
deriving DecidableEq, Repr

/-- The text ahead, the flags in force and the names of groups so far. -/
structure ReadState where
  rest : List Char
  flags : Flags
  names : List (List Char) := []

/-- A step of reading; a pattern that breaks the syntax has none. -/
abbrev Read := StateT ReadState Option

/-- A part of a pattern as it stands in the text: what it matches, how deep it is nested, and
whether it only sets flags. -/
structure Part where
  pattern : Pattern
  depth : Nat
  setsFlags : Bool := false

namespace Read

/-- The deepest nesting that is accepted. -/
def maxDepth : Nat := 250

def fail {α : Type} : Read α := fun _ => none

def rest : Read (List Char) := return (← get).rest

def flags : Read Flags := return (← get).flags

def peek : Read (Option Char) := return (← rest).head?

def drop (n : Nat) : Read Unit := modify fun s => { s with rest := s.rest.drop n }

/-- The next character, which there must be. -/
def next : Read Char := do
  match ← rest with
  | c :: _ =>
    drop 1
    return c
  | [] => fail

def orFail {α : Type} : Option α → Read α
  | some a => return a
  | none => fail

/-- The length of blanks and comments. -/
def verboseSpace (inComment : Bool) : List Char → Nat
  | [] => 0
  | c :: rest =>
    if inComment then verboseSpace (c != '\n') rest + 1
    else if Text.isBlank c then verboseSpace false rest + 1
    else if c == '#' then verboseSpace true rest + 1
    else 0

/-- Skips what means nothing in a verbose pattern. -/
def skipSpace : Read Unit := do
  if (← flags).verbose then drop (verboseSpace false (← rest))

def skipBlanks : Read Unit := modify fun s => { s with rest := s.rest.dropWhile Text.isBlank }

/-- The next character and what may be skipped behind it. -/
def nextSpaced : Read Char := do
  let c ← next
  skipSpace
  return c

/-- The character behind the next one, with what may be skipped in between. -/
def peekSpaced : Read (Option Char) := do
  match ← rest with
  | [] => return none
  | _ :: rest =>
    if (← flags).verbose then return (rest.drop (verboseSpace false rest)).head?
    else return rest.head?

/-! ### Sets and their flags -/

/-- Closes a set under changes of case if the flags ask for it. -/
def foldSet (f : Flags) (s : CharSet) : CharSet :=
  if !f.ignoreCase then s else if f.unicode then .folded s else .asciiFolded s

def negateIf (negated : Bool) (s : CharSet) : CharSet := if negated then .complement s else s

/-- A pattern for one character of a set. Without Unicode a set may not hold the bytes that are
part of longer characters. -/
def setPattern (f : Flags) (s : CharSet) : Read Pattern :=
  if f.unicode || (List.range 128).all (fun n => !s.has (Char.ofNat (128 + n))) then
    return .set s
  else fail

/-- The letters, digits or blanks of ASCII, or those of Unicode. -/
def perlSet (f : Flags) (c : Char) : CharSet :=
  let s : CharSet :=
    if f.unicode then
      .property (if c.toLower == 'd' then .decimalDigit
        else if c.toLower == 's' then .blank else .word)
    else if c.toLower == 'd' then .stretch 0x30 0x39
    else if c.toLower == 's' then .union (.stretch 9 13) (.single ' ')
    else .union (.union (.stretch 0x30 0x39) (.single '_'))
      (.union (.stretch 0x41 0x5A) (.stretch 0x61 0x7A))
  negateIf c.isUpper s

/-! ### Names of properties -/

/-- Names are compared without case, blanks, hyphens and underscores, and without a leading
`is`. -/
def normalName (name : List Char) : List Char :=
  let plain := (name.filter fun c => c.toNat < 0x80 && c != ' ' && c != '_' && c != '-').map
    Char.toLower
  let cut := (name.take 2).map Char.toLower == ['i', 's']
  if cut then if plain == "isc".toList then plain else plain.drop 2 else plain

/-- The general categories by their names. -/
def categories : List (String × Property) :=
  [("any", .any), ("assigned", .assigned), ("ascii", .ascii),
   ("l", .category "L"), ("letter", .category "L"),
   ("lu", .category "Lu"), ("uppercaseletter", .category "Lu"),
   ("ll", .category "Ll"), ("lowercaseletter", .category "Ll"),
   ("lt", .category "Lt"), ("titlecaseletter", .category "Lt"),
   ("lm", .category "Lm"), ("modifierletter", .category "Lm"),
   ("lo", .category "Lo"), ("otherletter", .category "Lo"),
   ("m", .category "M"), ("mark", .category "M"), ("combiningmark", .category "M"),
   ("mn", .category "Mn"), ("nonspacingmark", .category "Mn"),
   ("mc", .category "Mc"), ("spacingmark", .category "Mc"),
   ("me", .category "Me"), ("enclosingmark", .category "Me"),
   ("n", .category "N"), ("number", .category "N"),
   ("nd", .category "Nd"), ("decimalnumber", .category "Nd"), ("digit", .category "Nd"),
   ("nl", .category "Nl"), ("letternumber", .category "Nl"),
   ("no", .category "No"), ("othernumber", .category "No"),
   ("p", .category "P"), ("punctuation", .category "P"), ("punct", .category "P"),
   ("pc", .category "Pc"), ("connectorpunctuation", .category "Pc"),
   ("pd", .category "Pd"), ("dashpunctuation", .category "Pd"),
   ("ps", .category "Ps"), ("openpunctuation", .category "Ps"),
   ("pe", .category "Pe"), ("closepunctuation", .category "Pe"),
   ("pi", .category "Pi"), ("initialpunctuation", .category "Pi"),
   ("pf", .category "Pf"), ("finalpunctuation", .category "Pf"),
   ("po", .category "Po"), ("otherpunctuation", .category "Po"),
   ("s", .category "S"), ("symbol", .category "S"),
   ("sm", .category "Sm"), ("mathsymbol", .category "Sm"),
   ("sc", .category "Sc"), ("currencysymbol", .category "Sc"),
   ("sk", .category "Sk"), ("modifiersymbol", .category "Sk"),
   ("so", .category "So"), ("othersymbol", .category "So"),
   ("z", .category "Z"), ("separator", .category "Z"),
   ("zs", .category "Zs"), ("spaceseparator", .category "Zs"),
   ("zl", .category "Zl"), ("lineseparator", .category "Zl"),
   ("zp", .category "Zp"), ("paragraphseparator", .category "Zp"),
   ("c", .other), ("other", .other),
   ("cc", .category "Cc"), ("control", .category "Cc"), ("cntrl", .category "Cc"),
   ("cf", .category "Cf"), ("format", .category "Cf"),
   ("co", .category "Co"), ("privateuse", .category "Co"),
   ("cn", .unassigned), ("unassigned", .unassigned)]

/-- The other properties by their names. -/
def binaryProperties : List (String × Property) :=
  [("alphabetic", .alphabetic), ("alpha", .alphabetic), ("whitespace", .blank),
   ("wspace", .blank), ("space", .blank), ("uppercase", .upper), ("upper", .upper),
   ("lowercase", .lower), ("lower", .lower), ("cased", .cased), ("caseignorable", .caseIgnorable),
   ("ci", .caseIgnorable), ("hexdigit", .hexDigit), ("hex", .hexDigit),
   ("asciihexdigit", .asciiHexDigit), ("ahex", .asciiHexDigit)]

/-- The letters that have a case, a category with no name of its own. -/
def casedLetters : CharSet :=
  .union (.property (.category "Lu"))
    (.union (.property (.category "Ll")) (.property (.category "Lt")))

def categorySet? (name : List Char) : Option CharSet :=
  let name := String.ofList name
  if name == "lc" || name == "casedletter" then some casedLetters
  else (categories.lookup name).map .property

def scriptSet? (name : List Char) : Option CharSet :=
  (Text.Script.all.findSome? fun e => e.1.find? fun n => normalName n == name).map fun n =>
    .property (.script n)

/-- The set of a property by its name alone. -/
def namedSet? (name : List Char) : Option CharSet :=
  let name := normalName name
  ((binaryProperties.lookup (String.ofList name)).map CharSet.property).or
    ((categorySet? name).or (scriptSet? name))

/-- The set of the characters whose property has a value. -/
def valueSet? (name value : List Char) : Option CharSet :=
  let name := String.ofList (normalName name)
  let value := normalName value
  if name == "gc" || name == "generalcategory" then categorySet? value
  else if name == "sc" || name == "script" then scriptSet? value
  else none

/-- Reads a property behind `\p` or `\P`. -/
def propertySet (negated : Bool) : Read CharSet := do
  let f ← flags
  if !f.unicode then fail
  skipSpace
  let c ← next
  let found ← if c == '{' then do
      let name := (← rest).takeWhile (· != '}')
      drop name.length
      let _ ← next
      let name := if f.verbose then name.filter (!Text.isBlank ·) else name
      match Text.cutWord? ['!', '='] name with
      | some (n, v) => orFail ((valueSet? n v).map CharSet.complement)
      | none => match Text.cut? ':' name with
        | some (n, v) => orFail (valueSet? n v)
        | none => match Text.cut? '=' name with
          | some (n, v) => orFail (valueSet? n v)
          | none => orFail (namedSet? name)
    else if c == '\\' then fail
    else orFail (namedSet? [c])
  return negateIf negated (foldSet f found)

/-! ### Escapes -/

/-- Reads `n` hexadecimal digits. -/
def hexDigits : Nat → Nat → Read Nat
  | 0, value => return value
  | n + 1, value => do
    skipSpace
    let d ← orFail (Text.hexDigit? (← next))
    hexDigits n (16 * value + d)

def charOf (n : Nat) : Read Char :=
  if h : n.isValidChar then return Char.ofNatAux n h else fail

/-- Reads a code point behind `\x`, `\u` or `\U`: some digits, or any number in braces. The second
part tells whether it is written as one byte. -/
def hexEscape (kind : Char) : Read (Char × Bool) := do
  skipSpace
  if (← peek) = some '{' then
    drop 1
    let body := (← rest).takeWhile (· != '}')
    drop body.length
    let _ ← next
    let digits := if (← flags).verbose then body.filter (!Text.isBlank ·) else body
    if digits.isEmpty || !digits.all fun c => (Text.hexDigit? c).isSome then fail
    return (← charOf (Text.hexNumber digits), false)
  else
    let n ← hexDigits (if kind == 'x' then 2 else if kind == 'u' then 4 else 8) 0
    return (← charOf n, kind == 'x')

/-- What an escape or a plain character stands for. -/
inductive Atom where
  | char (c : Char) (asByte : Bool)
  | set (s : CharSet)
  | assertion (a : Assertion)

/-- Characters that may be written behind a backslash to stand for themselves. -/
def isEscapable (c : Char) : Bool :=
  c.toNat < 0x80 && !c.isAlphanum && c != '<' && c != '>'

/-- Reads the kind of boundary in braces behind `\b`, if there is one. -/
def specialBoundary (ascii : Bool) : Read (Option Assertion) := do
  let saved ← get
  if (← peek) ≠ some '{' then return none
  let _ ← nextSpaced
  let isNameChar (c : Char) : Bool := c.isAlpha || c == '-'
  match ← peek with
  | none => fail
  | some c =>
    if !isNameChar c then
      set saved
      return none
  let body := (← rest).takeWhile isNameChar
  drop body.length
  skipSpace
  if (← next) ≠ '}' then fail
  let name := String.ofList body
  if name == "start" then return some (.wordStart ascii)
  else if name == "end" then return some (.wordEnd ascii)
  else if name == "start-half" then return some (.wordStartHalf ascii)
  else if name == "end-half" then return some (.wordEndHalf ascii)
  else fail

/-- Reads what follows a backslash. -/
def escape : Read Atom := do
  let f ← flags
  let ascii := !f.unicode
  let c ← next
  if c.isDigit then fail
  else if c == 'x' || c == 'u' || c == 'U' then
    let (c, asByte) ← hexEscape c
    return .char c asByte
  else if c == 'p' || c == 'P' then return .set (← propertySet (c == 'P'))
  else if "dswDSW".toList.contains c then return .set (perlSet f c)
  else if isEscapable c then return .char c false
  else if c == 'a' then return .char '\x07' false
  else if c == 'f' then return .char '\x0c' false
  else if c == 't' then return .char '\t' false
  else if c == 'n' then return .char '\n' false
  else if c == 'r' then return .char '\r' false
  else if c == 'v' then return .char '\x0b' false
  else if c == 'A' then return .assertion .textStart
  else if c == 'z' then return .assertion .textEnd
  else if c == 'b' then
    return .assertion ((← specialBoundary ascii).getD (.boundary ascii))
  else if c == 'B' then return .assertion (.noBoundary ascii)
  else if c == '<' then return .assertion (.wordStart ascii)
  else if c == '>' then return .assertion (.wordEnd ascii)
  else fail

/-! ### Bracketed sets -/

/-- The named sets of ASCII that may stand between `[:` and `:]`. -/
def asciiSets : List (String × CharSet) :=
  let digit : CharSet := .stretch 0x30 0x39
  let upper : CharSet := .stretch 0x41 0x5A
  let lower : CharSet := .stretch 0x61 0x7A
  let alpha : CharSet := .union upper lower
  let alnum : CharSet := .union digit alpha
  [("alnum", alnum), ("alpha", alpha), ("ascii", .stretch 0 0x7F),
   ("blank", .union (.single '\t') (.single ' ')),
   ("cntrl", .union (.stretch 0 0x1F) (.stretch 0x7F 0x7F)), ("digit", digit),
   ("graph", .stretch 0x21 0x7E), ("lower", lower), ("print", .stretch 0x20 0x7E),
   ("punct", .diff (.stretch 0x21 0x7E) alnum),
   ("space", .union (.stretch 9 13) (.single ' ')), ("upper", upper),
   ("word", .union alnum (.single '_')),
   ("xdigit", .union digit (.union (.stretch 0x41 0x46) (.stretch 0x61 0x66)))]

/-- Reads `[:name:]`, if that is what follows. -/
def asciiSet : Read (Option CharSet) := do
  match ← rest with
  | '[' :: ':' :: body =>
    let (negated, body) := match body with
      | '^' :: body => (true, body)
      | _ => (false, body)
    match Text.cutWord? [':', ']'] body with
    | some (name, after) =>
      match asciiSets.lookup (String.ofList name) with
      | some s =>
        modify fun st => { st with rest := after }
        return some (negateIf negated (foldSet (← flags) s))
      | none => return none
    | none => return none
  | _ => return none

/-- Reads one character or escape in a bracketed set. -/
def setAtom : Read Atom := do
  let c ← next
  if c == '\\' then escape else return .char c false

/-- The character at an end of a stretch. Without Unicode only bytes can be named. -/
def endOf (f : Flags) : Atom → Read Char
  | .char c asByte => if f.unicode || asByte || c.toNat < 0x80 then return c else fail
  | _ => fail

/-- Reads a character, a stretch or an escape in a bracketed set. -/
def setItem : Read CharSet := do
  let f ← flags
  let first ← setAtom
  skipSpace
  match ← peek with
  | none => fail
  | some c =>
    let ahead ← peekSpaced
    if c != '-' || ahead = some ']' || ahead = some '-' then
      match first with
      | .set s => return s
      | .assertion _ => fail
      | atom => return .single (← endOf f atom)
    else
      let _ ← nextSpaced
      let second ← setAtom
      let low ← endOf f first
      let high ← endOf f second
      if low ≤ high then return .stretch low.toNat high.toNat else fail

/-- Hyphens at the start of a bracketed set stand for themselves. -/
def leadingHyphens : Nat → CharSet → Read CharSet
  | 0, s => return s
  | n + 1, s => do
    match ← peek with
    | none => fail
    | some c =>
      if c == '-' then
        let _ ← nextSpaced
        leadingHyphens n (.union s (.single '-'))
      else return s

/-- An operation that waits for its right side. -/
inductive Pending where
  | nothing
  | inter (left : CharSet)
  | diff (left : CharSet)
  | symmetricDiff (left : CharSet)

/-- Applies a waiting operation. -/
def Pending.apply (f : Flags) (right : CharSet) : Pending → CharSet
  | .nothing => right
  | .inter left => .inter (foldSet f left) (foldSet f right)
  | .diff left => .diff (foldSet f left) (foldSet f right)
  | .symmetricDiff left => .symmetricDiff (foldSet f left) (foldSet f right)

mutual

/-- Reads a bracketed set behind its opening bracket, and how deep it is nested. -/
def bracketed : Nat → Read (CharSet × Nat)
  | 0 => fail
  | fuel + 1 => do
    skipSpace
    let negated := (← peek) = some '^'
    if negated then
      let _ ← nextSpaced
    let items ← leadingHyphens (← rest).length .empty
    let items ← if items = .empty ∧ (← peek) = some ']' then do
        let _ ← nextSpaced
        pure (.single ']')
      else pure items
    let (s, depth) ← setItems fuel .nothing items 0
    return (negateIf negated (foldSet (← flags) s), depth + 1)

/-- Reads the items of a bracketed set up to its closing bracket. -/
def setItems : Nat → Pending → CharSet → Nat → Read (CharSet × Nat)
  | 0, _, _, _ => fail
  | fuel + 1, pending, items, depth => do
    skipSpace
    let f ← flags
    match ← peek with
    | none => fail
    | some c =>
      let twice := (← rest).take 2 == [c, c]
      if c == '[' then
        match ← asciiSet with
        | some s => setItems fuel pending (.union items s) depth
        | none =>
          drop 1
          let (s, inner) ← bracketed fuel
          setItems fuel pending (.union items s) (max depth inner)
      else if c == ']' then
        drop 1
        return (pending.apply f items, depth)
      else if c == '&' && twice then
        drop 2
        setItems fuel (.inter (pending.apply f items)) .empty (depth + 1)
      else if c == '-' && twice then
        drop 2
        setItems fuel (.diff (pending.apply f items)) .empty (depth + 1)
      else if c == '~' && twice then
        drop 2
        setItems fuel (.symmetricDiff (pending.apply f items)) .empty (depth + 1)
      else
        let s ← setItem
        setItems fuel pending (.union items s) depth

end

/-! ### Repetitions -/

/-- Reads a number of at most 32 bits, which blanks may surround. -/
def count : Read (Option Nat) := do
  skipBlanks
  let ds := (← rest).takeWhile Char.isDigit
  drop ds.length
  skipBlanks
  if ds.isEmpty then return none
  let n := Decimal.natOfDigits ds
  if n < Nat.pow 2 32 then return some n else fail

/-- Reads the bounds of a repetition behind its opening brace. -/
def bounds : Read (Nat × Option Nat) := do
  skipSpace
  if (← peek).isNone then fail
  let low ← orFail (← count)
  if (← peek) = some ',' then
    let _ ← nextSpaced
    if (← peek) = some '}' then
      drop 1
      return (low, none)
    let high ← orFail (← count)
    if (← next) ≠ '}' then fail
    if low ≤ high then return (low, some high) else fail
  else
    if (← next) ≠ '}' then fail
    return (low, some low)

/-- Skips the mark of a repetition that prefers few; it does not change what is matched. -/
def skipLazy : Read Unit := do
  if (← peek) = some '?' then drop 1

/-- Repeats the last part, which must be there and must not only set flags. -/
def repeatLast (low : Nat) (high : Option Nat) : List Part → Read (List Part)
  | [] => fail
  | p :: parts =>
    if p.setsFlags then fail
    else return { pattern := .times p.pattern low high, depth := p.depth + 1 } :: parts

/-! ### Groups -/

/-- Whether a character may be part of a group's name. -/
def isGroupNameChar (first : Bool) (c : Char) : Bool :=
  c == '_' || Text.isAlphabetic c ||
    (!first && (c == '.' || c == '[' || c == ']' || Text.isAlphanumeric c))

/-- Reads the name of a group up to its closing bracket; no name occurs twice. -/
def groupName : Read Unit := do
  let name := (← rest).takeWhile (· != '>')
  drop name.length
  let _ ← next
  match name with
  | [] => fail
  | c :: cs =>
    if !isGroupNameChar true c || !cs.all (isGroupNameChar false) then fail
    if (← get).names.contains name then fail
    modify fun s => { s with names := name :: s.names }

def setFlag (f : Flags) (on : Bool) (c : Char) : Option Flags :=
  if c == 'i' then some { f with ignoreCase := on }
  else if c == 'm' then some { f with multiLine := on }
  else if c == 's' then some { f with dotAll := on }
  else if c == 'U' then some f
  else if c == 'u' then some { f with unicode := on }
  else if c == 'R' then some { f with crlf := on }
  else if c == 'x' then some { f with verbose := on }
  else none

/-- The flags that letters set; those behind a hyphen are switched off. No letter occurs twice, and
a hyphen is followed by one. -/
def flagsOf (f : Flags) (on : Bool) (seen : List Char) : List Char → Option Flags
  | [] => if seen.head? = some '-' then none else some f
  | c :: rest =>
    if seen.contains c then none
    else if c == '-' then flagsOf f false ('-' :: seen) rest
    else (setFlag f on c).bind fun f => flagsOf f on (c :: seen) rest

/-! ### Parts of a pattern -/

/-- A part that matches one character or place. -/
def atomPart : Atom → Read Part
  | .char c asByte => do
    let f ← flags
    if !f.unicode && asByte && c.toNat ≥ 0x80 then fail
    return ⟨.set (foldSet f (.single c)), 0, false⟩
  | .set s => return ⟨← setPattern (← flags) s, 0, false⟩
  | .assertion a => return ⟨.assertion a, 0, false⟩

/-- Everything but line ends, unless the flags take these in. -/
def dotSet (f : Flags) : CharSet :=
  if f.dotAll then .property .any
  else if f.crlf then .complement (.union (.single '\n') (.single '\r'))
  else .complement (.single '\n')

/-- Reads a character, an escape, a dot or an anchor. -/
def primitive : Read Part := do
  let f ← flags
  let c ← next
  if c == '\\' then atomPart (← escape)
  else if c == '.' then return ⟨← setPattern f (dotSet f), 0, false⟩
  else if c == '^' then
    return ⟨.assertion (if !f.multiLine then .textStart
      else if f.crlf then .crlfLineStart else .lineStart), 0, false⟩
  else if c == '$' then
    return ⟨.assertion (if !f.multiLine then .textEnd
      else if f.crlf then .crlfLineEnd else .lineEnd), 0, false⟩
  else atomPart (.char c false)

/-- One part after another; the last one comes first in the list. -/
def sequence (parts : List Part) : Part :=
  match parts with
  | [] => ⟨.empty, 0, false⟩
  | [p] => { p with setsFlags := false }
  | parts =>
    let patterns := (parts.reverse.filter (!·.setsFlags)).map (·.pattern)
    ⟨patterns.foldr Pattern.andThen .empty, (parts.map (·.depth)).foldl max 0 + 1, false⟩

mutual

/-- Reads alternatives up to the end of their group; `fuel` bounds the nesting of calls. -/
def alternatives : Nat → Read Part
  | 0 => fail
  | fuel + 1 => do
    let first ← branch fuel []
    let others ← branches fuel
    match others with
    | [] => return first
    | others =>
      let all := first :: others
      return ⟨(all.dropLast.map (·.pattern)).foldr Pattern.either
        ((all.getLast?.map (·.pattern)).getD .empty),
        (all.map (·.depth)).foldl max 0 + 1, false⟩

/-- Reads the alternatives behind the first one. -/
def branches : Nat → Read (List Part)
  | 0 => fail
  | fuel + 1 => do
    if (← peek) = some '|' then
      drop 1
      let first ← branch fuel []
      let others ← branches fuel
      return first :: others
    else return []

/-- Reads one alternative, of which `parts` have been read. -/
def branch : Nat → List Part → Read Part
  | 0, _ => fail
  | fuel + 1, parts => do
    skipSpace
    match ← peek with
    | none => return sequence parts
    | some c =>
      if c == '|' || c == ')' then return sequence parts
      else if c == '(' then
        drop 1
        let p ← group fuel
        branch fuel (p :: parts)
      else if c == '[' then
        drop 1
        let (s, depth) ← bracketed fuel
        branch fuel (⟨← setPattern (← flags) s, depth, false⟩ :: parts)
      else if c == '?' || c == '*' || c == '+' then
        drop 1
        skipLazy
        let parts ← repeatLast (if c == '+' then 1 else 0) (if c == '?' then some 1 else none) parts
        branch fuel parts
      else if c == '{' then
        drop 1
        if parts.isEmpty then fail
        let (low, high) ← bounds
        skipSpace
        skipLazy
        branch fuel (← repeatLast low high parts)
      else
        let p ← primitive
        branch fuel (p :: parts)

/-- Reads a group, or a setting of flags, behind its opening bracket. -/
def group : Nat → Read Part
  | 0 => fail
  | fuel + 1 => do
    skipSpace
    let outer ← flags
    match ← rest with
    | '?' :: '=' :: _ => fail
    | '?' :: '!' :: _ => fail
    | '?' :: '<' :: '=' :: _ => fail
    | '?' :: '<' :: '!' :: _ => fail
    | '?' :: 'P' :: '<' :: _ =>
      drop 3
      groupName
      closeGroup fuel outer
    | '?' :: '<' :: _ =>
      drop 2
      groupName
      closeGroup fuel outer
    | '?' :: after =>
      let letters := after.takeWhile fun c => c != ')' && c != ':'
      let inner ← orFail (flagsOf outer true [] letters)
      drop (1 + letters.length)
      let c ← next
      if c == ')' then
        if letters.isEmpty then fail
        modify fun s => { s with flags := inner }
        return ⟨.empty, 0, true⟩
      modify fun s => { s with flags := inner }
      closeGroup fuel outer
    | _ => closeGroup fuel outer

/-- Reads the inside of a group and its closing bracket, behind which the flags are `outer`
again. -/
def closeGroup : Nat → Flags → Read Part
  | 0, _ => fail
  | fuel + 1, outer => do
    let p ← alternatives fuel
    if (← next) ≠ ')' then fail
    modify fun s => { s with flags := outer }
    return ⟨p.pattern, p.depth + 1, false⟩

end

/-- Reads a whole pattern. -/
def wholePattern : Read Pattern := do
  let length := (← rest).length
  let p ← alternatives (5 * length + 5)
  if (← rest).isEmpty && p.depth ≤ maxDepth then return p.pattern else fail

end Read

/-- The pattern that a text writes under some flags. -/
def Pattern.ofText? (text : List Char) (flags : Flags) : Option Pattern :=
  (Read.wholePattern.run { rest := text, flags }).map (·.1)

end RepoAudit.Regex
