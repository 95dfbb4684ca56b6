import RepoAudit.Text.CodePoints

/-!
# Blank characters

White space as the Unicode property defines it, and the texts that remain when it is cut off.
-/

namespace RepoAudit.Text

/-- The characters with the property White_Space. -/
def blanks : List Stretch := stretches "9-D 20 85 A0 1680 2000-200A 2028-2029 202F 205F 3000"

def isBlank (c : Char) : Bool := Stretch.hasChar blanks c

def trimStart (cs : List Char) : List Char := cs.dropWhile isBlank

def trimEnd (cs : List Char) : List Char := (cs.reverse.dropWhile isBlank).reverse

def trim (cs : List Char) : List Char := trimEnd (trimStart cs)

/-- The words of a text: its longest stretches without a blank. -/
def words (cs : List Char) : List (List Char) :=
  let (last, before) := cs.foldr (fun c (word, rest) =>
    if isBlank c then ([], if word.isEmpty then rest else word :: rest) else (c :: word, rest))
    ([], [])
  if last.isEmpty then before else last :: before

/-- Removes the blanks at both ends. -/
def trimmed (s : String) : String := String.ofList (trim s.toList)

end RepoAudit.Text
