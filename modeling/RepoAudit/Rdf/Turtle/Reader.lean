import RepoAudit.Rdf.Graph
import RepoAudit.Rdf.Turtle.Lexeme

/-!
# Reading Turtle

A document is read into a graph. What was read before an error stays in the graph. Labels of blank
nodes and prefixes belong to one document, and a document's blank nodes are new to the graph.

A reader is laid open into its steps: it looks at the state, moves on or back in the text, or learns
something. So it can be told what a reader comes to, and also which states it passes on the way.
-/

namespace RepoAudit.Rdf.Turtle

/-- Where the reader is and what it has learned so far. -/
structure State where
  cursor : Cursor
  prefixes : SortedMap String String := ∅
  base : Option String := none
  labels : SortedMap String Term := ∅
  graph : Graph

/-- The same knowledge at another place. -/
def State.at (s : State) (c : Cursor) : State := { s with cursor := c }

/-- Ways of reading. Each step comes before all that is done after it. -/
inductive Reader (α : Type) : Type where
  | finish (a : α)
  | fail (e : SyntaxError)
  | look (next : State → Reader α)
  | move (n : Nat) (next : Reader α)
  | back (n : Nat) (next : Reader α)
  /-- Learning changes what is known, but never the place. -/
  | learn (change : State → State) (next : Reader α)

namespace Reader

variable {α β : Type}

protected def bind : Reader α → (α → Reader β) → Reader β
  | finish a, f => f a
  | fail e, _ => fail e
  | look next, f => look fun s => (next s).bind f
  | move n next, f => move n (next.bind f)
  | back n next, f => back n (next.bind f)
  | learn change next, f => learn change (next.bind f)

instance : Monad Reader where
  pure := finish
  bind := Reader.bind

/-- What reading comes to from a state on. The state is kept also when it fails. -/
def run : Reader α → State → Except SyntaxError α × State
  | finish a, s => (.ok a, s)
  | fail e, s => (.error e, s)
  | look next, s => (next s).run s
  | move n next, s => next.run (s.at (s.cursor.advance n))
  | back n next, s => next.run (s.at (s.cursor.back n))
  | learn change next, s => next.run ((change s).at s.cursor)

/-! ### Characters -/

def know : Reader State := look finish

def learned (change : State → State) : Reader Unit := learn change (finish ())

def rest : Reader (List Char) := return (← know).cursor.rest

def peek : Reader (Option Char) := return (← rest).head?

def take (n : Nat) : Reader Unit := move n (finish ())

def giveBack (n : Nat) : Reader Unit := back n (finish ())

def skipSpace : Reader Unit := do take (spaceLength false (← rest))

def ofResult : Except SyntaxError α → Reader α
  | .ok a => finish a
  | .error e => fail e

def scan (f : List Char → Scan α) : Reader α := do
  let s := f (← rest)
  take s.taken
  ofResult s.result

/-- Skips blanks and reads the character `c`. -/
def expect (c : Char) : Reader Unit := do
  skipSpace
  let found ← peek
  if found = some c then take 1 else fail (.expected c found)

def atKeyword (keyword : String) : Reader Bool :=
  return startsWithKeyword keyword.toList (← rest)

/-! ### Terms without parts -/

/-- Whether an IRI begins with a scheme. -/
def hasScheme (iri : List Char) : Bool :=
  match Text.cut? ':' iri with
  | some (scheme, _) =>
    !scheme.isEmpty && scheme.all fun c => c.isAlphanum || c == '+' || c == '-' || c == '.'
  | none => false

/-- An IRI without a scheme continues the base. -/
def resolve (base : Option String) (iri : List Char) : String :=
  match base with
  | some b => if hasScheme iri then String.ofList iri else b ++ String.ofList iri
  | none => String.ofList iri

def iriRef : Reader String := do
  expect '<'
  let iri ← scan scanIri
  return resolve (← know).base iri

/-- Reads a name with a prefix as the IRI that it abbreviates. -/
def prefixedName : Reader String := do
  let cs ← rest
  let name := cs.takeWhile isNameChar
  take name.length
  match cs.drop name.length with
  | [] => fail (.noColon (String.ofList name))
  | c :: _ => if c != ':' then fail (.unexpected c)
  take 1
  let part ← scan scanLocal
  giveBack (trailingDots part)
  match (← know).prefixes.get? (String.ofList name) with
  | some iri => return iri ++ String.ofList (part.take (part.length - trailingDots part))
  | none => fail (.undefinedPrefix (String.ofList name))

def freshBlank : Reader Term := do
  let (node, graph) := (← know).graph.blank
  learned fun s => { s with graph }
  return node

/-- Reads a labelled blank node; a label stands for one node throughout the document. -/
def blankLabel : Reader Term := do
  take 2
  let name := (← rest).takeWhile isNameChar
  let label := name.take (name.length - trailingDots name)
  take name.length
  giveBack (trailingDots name)
  match (← know).labels.get? (String.ofList label) with
  | some node => return node
  | none =>
    let node ← freshBlank
    learned fun s => { s with labels := s.labels.insert (String.ofList label) node }
    return node

def number : Reader Term := do
  let (text, datatype) ← scan scanNumber
  return .typed (String.ofList text) (xsd datatype)

/-- Reads a string with its language or datatype. -/
def literal : Reader Term := do
  let lexical := String.ofList (← scan scanQuoted)
  match ← rest with
  | '@' :: _ =>
    take 1
    let lang ← scan scanLang
    return .langString lexical (String.ofList lang)
  | '^' :: '^' :: _ =>
    take 2
    let datatype ← if (← peek) = some '<' then iriRef else prefixedName
    return .typed lexical datatype
  | _ => return .string lexical

def verb : Reader Term := do
  skipSpace
  match ← rest with
  | 'a' :: c :: _ =>
    if Text.isBlank c || c == '<' || c == '[' || c == '(' then
      take 1
      return .iri (rdf "type")
    else return .iri (← prefixedName)
  | '<' :: _ => return .iri (← iriRef)
  | [] => fail (.endOfInput "predicate")
  | _ => return .iri (← prefixedName)

/-! ### Terms and statements with parts -/

/-- Skips semicolons and the blanks behind them. -/
def skipSemicolons : Nat → Reader Unit
  | 0 => return
  | n + 1 => do
    if (← peek) = some ';' then
      take 1
      skipSpace
      skipSemicolons n

mutual

/-- Reads an object; `fuel` bounds the nesting of calls, here and below. -/
def object : Nat → Reader Term
  | 0 => fail .tooDeep
  | fuel + 1 => do
    skipSpace
    match ← rest with
    | [] => fail (.endOfInput "object")
    | '_' :: ':' :: _ => blankLabel
    | c :: _ =>
      if c == '<' then return .iri (← iriRef)
      else if c == '[' then blankNodePropertyList fuel
      else if c == '(' then collection fuel
      else if c == '"' || c == '\'' then literal
      else if c.isDigit || c == '+' || c == '-' || c == '.' then number
      else if ← atKeyword "true" then
        take 4
        return .boolean true
      else if ← atKeyword "false" then
        take 5
        return .boolean false
      else return .iri (← prefixedName)

/-- Reads a node written by its properties in brackets. -/
def blankNodePropertyList : Nat → Reader Term
  | 0 => fail .tooDeep
  | fuel + 1 => do
    expect '['
    let node ← freshBlank
    skipSpace
    if (← peek) ≠ some ']' then predicateObjectList fuel node
    expect ']'
    return node

/-- Reads a collection and gives its head. -/
def collection : Nat → Reader Term
  | 0 => fail .tooDeep
  | fuel + 1 => do
    expect '('
    let items ← collectionItems fuel
    let (head, graph) := (← know).graph.addList items
    learned fun s => { s with graph }
    return head

def collectionItems : Nat → Reader (List Term)
  | 0 => fail .tooDeep
  | fuel + 1 => do
    skipSpace
    match ← peek with
    | none => fail .unterminatedCollection
    | some c =>
      if c == ')' then
        take 1
        return []
      else
        let item ← object fuel
        let items ← collectionItems fuel
        return item :: items

/-- Reads the properties of a subject. -/
def predicateObjectList : Nat → Term → Reader Unit
  | 0, _ => fail .tooDeep
  | fuel + 1, subject => do
    let predicate ← verb
    objectList fuel subject predicate
    skipSpace
    if (← peek) = some ';' then
      skipSemicolons (← rest).length
      match ← peek with
      | none => return
      | some c => if c != '.' && c != ']' then predicateObjectList fuel subject

/-- Reads the objects of a subject and a predicate. -/
def objectList : Nat → Term → Term → Reader Unit
  | 0, _, _ => fail .tooDeep
  | fuel + 1, subject, predicate => do
    let o ← object fuel
    learned fun s => { s with graph := s.graph.insert ⟨subject, predicate, o⟩ }
    skipSpace
    if (← peek) = some ',' then
      take 1
      objectList fuel subject predicate

end

def subject (fuel : Nat) : Reader Term := do
  skipSpace
  match ← rest with
  | [] => fail (.endOfInput "subject")
  | '_' :: ':' :: _ => blankLabel
  | c :: _ =>
    if c == '<' then return .iri (← iriRef)
    else if c == '(' then collection fuel
    else return .iri (← prefixedName)

/-- Reads the statements about one subject. -/
def triples (fuel : Nat) : Reader Unit := do
  skipSpace
  if (← peek) = some '[' then
    let node ← blankNodePropertyList fuel
    skipSpace
    if (← peek) ≠ some '.' then predicateObjectList fuel node
  else
    let s ← subject fuel
    predicateObjectList fuel s

/-! ### Documents -/

def prefixDecl : Reader Unit := do
  skipSpace
  let cs ← rest
  let name := cs.takeWhile isNameChar
  take name.length
  match cs.drop name.length with
  | [] => pure ()
  | c :: _ => if c != ':' then fail (.charInPrefix c)
  expect ':'
  skipSpace
  let iri ← iriRef
  let name := String.ofList name
  learned fun s =>
    { s with graph := s.graph.setPrefix name iri, prefixes := s.prefixes.insert name iri }

def baseDecl : Reader Unit := do
  skipSpace
  let iri ← iriRef
  learned fun s => { s with base := some iri }

/-- Reads one directive or the statements about one subject. -/
def statement (fuel : Nat) : Reader Unit := do
  if ← atKeyword "@prefix" then
    take 7
    prefixDecl
    expect '.'
  else if ← atKeyword "@base" then
    take 5
    baseDecl
    expect '.'
  else if ← atKeyword "prefix" then
    take 6
    prefixDecl
  else if ← atKeyword "base" then
    take 4
    baseDecl
  else
    triples fuel
    expect '.'

/-- Reads statements up to the end of the text, each of which takes at least one character. -/
def statements (fuel : Nat) : Nat → Reader Unit
  | 0 => return
  | n + 1 => do
    skipSpace
    if (← peek).isSome then
      statement fuel
      statements fuel n

/-- Reads a whole text. -/
def document : Reader Unit := do
  let length := (← rest).length
  statements (4 * length + 4) (length + 1)

end Reader

/-- Reads a document into a graph, and tells why it stopped if it did. -/
def readInto (g : Graph) (text source : String) : Option Failure × Graph :=
  let (result, s) := Reader.document.run { cursor := ⟨[], text.toList, 1, 1⟩, graph := g }
  match result with
  | .ok () => (none, s.graph)
  | .error cause => (some ⟨source, s.cursor.line, s.cursor.column, cause⟩, s.graph)

/-- Reads a document into a new graph. -/
def read (text source : String) : Except Failure Graph :=
  match readInto ∅ text source with
  | (none, g) => .ok g
  | (some e, _) => .error e

end RepoAudit.Rdf.Turtle
