import RepoAudit.Text.Blank
import RepoAudit.Text.Search
import RepoAudit.Text.Split

/-!
# Imports of source files

What a file says it imports, as it is written there. The look at the text is shallow: it tells
which file speaks of which, and does not know what a compiler would find.
-/

namespace RepoAudit.Source

open Text

/-! ### Parts of an import -/

def isGap (c : Char) : Bool := c == ' ' || c == '\t'

def skipGap (cs : List Char) : List Char := cs.dropWhile isGap

/-- Skips blanks of a line, of which there is at least one. -/
def gap? (cs : List Char) : Option (List Char) :=
  if (cs.head?.any isGap) then some (skipGap cs) else none

/-- A word and a gap behind it. -/
def wordGap? (word : String) (cs : List Char) : Option (List Char) :=
  (dropStart? word.toList cs).bind gap?

/-- A non-empty stretch of characters that satisfy `p`. -/
def stretch? (p : Char → Bool) (cs : List Char) : Option (List Char × List Char) :=
  let found := cs.takeWhile p
  if found.isEmpty then none else some (found, cs.dropWhile p)

def isDotted (c : Char) : Bool := isWord c || c == '.'

/-- What stands between quotes; `isQuote` tells which characters close it. -/
def quoted? (isQuote : Char → Bool) : List Char → Option (List Char × List Char)
  | [] => none
  | q :: cs =>
    if !isQuote q then none
    else do
      let (body, rest) ← stretch? (!isQuote ·) cs
      if rest.isEmpty then none else some (body, rest.drop 1)

def isAnyQuote (c : Char) : Bool := c == '"' || c == '\''

def isDoubleQuote (c : Char) : Bool := c == '"'

/-- A step at the beginnings of lines, behind the gap there. -/
def atLine {α : Type} (f : List Char → Option (α × List Char)) : Step α := fun before cs =>
  if beginsLine before then f (skipGap cs) else none

/-! ### Python -/

/-- Further names behind commas. -/
def moreNames : Nat → List Char → List (List Char) × List Char
  | 0, cs => ([], cs)
  | n + 1, cs => match skipGap cs with
    | ',' :: rest => match stretch? isDotted (skipGap rest) with
      | some (name, rest) =>
        let (names, rest) := moreNames n rest
        (name :: names, rest)
      | none => ([], cs)
    | _ => ([], cs)

/-- `import a, b`. -/
def pythonImport (cs : List Char) : Option (List (List Char) × List Char) := do
  let cs ← wordGap? "import" cs
  let (name, cs) ← stretch? isDotted cs
  let (names, cs) := moreNames cs.length cs
  some (name :: names, cs)

/-- `from a import`. -/
def pythonFrom (cs : List Char) : Option (List Char × List Char) := do
  let cs ← wordGap? "from" cs
  let name := cs.takeWhile isDotted
  let cs ← gap? (cs.dropWhile isDotted)
  let rest ← dropStart? "import".toList cs
  if noWord rest.head? then some (name, rest) else none

def pythonImports (cs : List Char) : List (List Char) :=
  (finds (atLine pythonImport) cs).flatten ++ finds (atLine pythonFrom) cs

/-! ### JavaScript and TypeScript -/

/-- `import … "a"` and `export … "a"`, also over several lines. -/
def scriptImport (cs : List Char) : Option (List Char × List Char) := do
  let rest ← (dropStart? "import".toList cs).or (dropStart? "export".toList cs)
  if !noWord rest.head? then none
  else quoted? isAnyQuote (rest.dropWhile fun c => !isAnyQuote c && c != ';')

/-- `require("a")` and `import("a")`. -/
def scriptCall : Step (List Char) := fun before cs => do
  if !noWord before then none
  else
    let rest ← (dropStart? "require(".toList cs).or (dropStart? "import(".toList cs)
    let (name, rest) ← quoted? isAnyQuote (trimStart rest)
    match trimStart rest with
    | ')' :: rest => some (name, rest)
    | _ => none

def scriptImports (cs : List Char) : List (List Char) :=
  finds (atLine scriptImport) cs ++ finds scriptCall cs

/-! ### Rust -/

/-- Skips `pub` or `pub(…)` and a gap. -/
def skipVisibility (cs : List Char) : List Char :=
  let skipped := do
    let rest ← dropStart? "pub".toList cs
    match rest with
    | '(' :: inner => match inner.dropWhile (· != ')') with
      | _ :: rest => gap? rest
      | [] => none
    | rest => gap? rest
  skipped.getD cs

/-- `mod a;`. -/
def rustMod (cs : List Char) : Option (List Char × List Char) := do
  let cs ← wordGap? "mod" (skipVisibility cs)
  let (name, cs) ← stretch? isWord cs
  match skipGap cs with
  | ';' :: rest => some ("mod ".toList ++ name, rest)
  | _ => none

/-- Further names behind double colons. -/
def moreSegments : Nat → List Char → List Char × List Char
  | 0, cs => ([], cs)
  | n + 1, cs => match cs with
    | ':' :: ':' :: rest => match stretch? isWord rest with
      | some (name, rest) =>
        let (names, rest) := moreSegments n rest
        (':' :: ':' :: (name ++ names), rest)
      | none => ([], cs)
    | _ => ([], cs)

/-- `use a::b`. -/
def rustUse (cs : List Char) : Option (List Char × List Char) := do
  let cs ← wordGap? "use" (skipVisibility cs)
  let (name, cs) ← stretch? isWord cs
  let (names, cs) := moreSegments cs.length cs
  some (name ++ names, cs)

def rustImports (cs : List Char) : List (List Char) :=
  finds (atLine rustMod) cs ++ finds (atLine rustUse) cs

/-! ### Go -/

/-- `import "a"`, also with a name in front. -/
def goImport (cs : List Char) : Option (List Char × List Char) := do
  let cs ← wordGap? "import" cs
  let cs := match stretch? isDotted cs with
    | some (_, rest) => (gap? rest).getD cs
    | none => cs
  quoted? isDoubleQuote cs

/-- What stands between the brackets of `import (…)`. -/
def goBlock : Step (List Char) := fun before cs => do
  if !noWord before then none
  else
    let rest ← dropStart? "import".toList cs
    match skipGap rest with
    | '(' :: inner => match inner.dropWhile (· != ')') with
      | _ :: rest => some (inner.takeWhile (· != ')'), rest)
      | [] => none
    | _ => none

def goImports (cs : List Char) : List (List Char) :=
  finds (atLine goImport) cs ++
    (finds goBlock cs).flatMap (finds fun _ cs => quoted? isDoubleQuote cs)

/-! ### Java -/

/-- A dotted name, perhaps with a star, up to a semicolon. -/
def javaName (cs : List Char) : Option (List Char × List Char) := do
  let (name, cs) ← stretch? isDotted cs
  let (name, cs) := match cs with
    | '*' :: rest => if name.getLast? = some '.' && name.length > 1 then (name ++ ['*'], rest)
      else (name, cs)
    | _ => (name, cs)
  match skipGap cs with
  | ';' :: rest => some (name, rest)
  | _ => none

/-- `import a;` and `import static a;`. -/
def javaImport (cs : List Char) : Option (List Char × List Char) := do
  let cs ← wordGap? "import" cs
  ((wordGap? "static" cs).bind javaName).or (javaName cs)

/-! ### All languages -/

/-- The imports of a text in a language, as they are found. -/
def foundImports (language : String) (cs : List Char) : List (List Char) :=
  if language == "python" then pythonImports cs
  else if language == "javascript" || language == "typescript" then scriptImports cs
  else if language == "rust" then rustImports cs
  else if language == "go" then goImports cs
  else if language == "java" then finds (atLine javaImport) cs
  else []

/-- The imports of a text, each once, without blanks around them. -/
def imports (language content : String) : List String :=
  let found := (foundImports language content.toList).map trim
  ((found.filter (!·.isEmpty)).map String.ofList).eraseDups

end RepoAudit.Source
