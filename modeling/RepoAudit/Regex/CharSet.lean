import RepoAudit.Text.Blank
import RepoAudit.Text.Folding
import RepoAudit.Text.Letter
import RepoAudit.Text.Script

/-!
# Sets of characters in patterns

A set is built from stretches and character properties by the set operations. Folding a set adds
every character that differs in case only from one of its members.
-/

namespace RepoAudit.Regex

/-- The properties by which a pattern can name characters. -/
inductive Property where
  | any
  | assigned
  | ascii
  /-- All general categories whose names begin so. -/
  | category (group : String)
  | unassigned
  /-- Controls, formats, private use and unassigned. -/
  | other
  | script (name : List Char)
  | alphabetic
  | blank
  | upper
  | lower
  | cased
  | caseIgnorable
  | hexDigit
  | asciiHexDigit
  | word
  | decimalDigit
deriving DecidableEq, Repr

namespace Property

open Text

/-- Characters that count as capitals but are no capital letters. -/
def otherUpper : List Stretch := stretches "2160-216F 24B6-24CF 1F130-1F149 1F150-1F169 1F170-1F189"

/-- Characters that count as small but are no small letters. -/
def otherLower : List Stretch := stretches "
  AA BA 2B0-2B8 2C0-2C1 2E0-2E4 345 37A 10FC 1D2C-1D6A 1D78 1D9B-1DBF 2071 207F 2090-209C
  2170-217F 24D0-24E9 2C7C-2C7D A69C-A69D A770 A7F2-A7F4 A7F8-A7F9 AB5C-AB5F AB69 10780
  10783-10785 10787-107B0 107B2-107BA 1E030-1E06D"

def hexDigits : List Stretch := stretches "30-39 41-46 61-66 FF10-FF19 FF21-FF26 FF41-FF46"

def isAssigned (c : Char) : Bool := Category.all.any fun e => Stretch.hasChar e.2 c

def has : Property → Char → Bool
  | .any, _ => true
  | .assigned, c => isAssigned c
  | .ascii, c => c.toNat < 0x80
  | .category group, c => Category.all.any fun e =>
      group.toList.isPrefixOf e.1.toList && Stretch.hasChar e.2 c
  | .unassigned, c => !isAssigned c
  | .other, c => !isAssigned c || Stretch.hasChar (Category.members "C") c
  | .script name, c => Script.all.any fun e => e.1.contains name && Stretch.hasChar e.2 c
  | .alphabetic, c => isAlphabetic c
  | .blank, c => isBlank c
  | .upper, c => Stretch.hasChar Category.lu c || Stretch.hasChar otherUpper c
  | .lower, c => Stretch.hasChar Category.ll c || Stretch.hasChar otherLower c
  | .cased, c => Stretch.hasChar Text.cased c
  | .caseIgnorable, c => Stretch.hasChar Text.caseIgnorable c
  | .hexDigit, c => Stretch.hasChar hexDigits c
  | .asciiHexDigit, c => (hexDigit? c).isSome
  | .word, c => isWord c
  | .decimalDigit, c => isDecimalDigit c

end Property

inductive CharSet where
  | stretch (first last : Nat)
  | property (p : Property)
  | union (a b : CharSet)
  | inter (a b : CharSet)
  | diff (a b : CharSet)
  | symmetricDiff (a b : CharSet)
  | complement (a : CharSet)
  /-- Closed under changes of case. -/
  | folded (a : CharSet)
  /-- Closed under changes of case among the letters of ASCII. -/
  | asciiFolded (a : CharSet)
deriving DecidableEq, Repr

namespace CharSet

/-- No character at all. -/
def empty : CharSet := .stretch 1 0

def single (c : Char) : CharSet := .stretch c.toNat c.toNat

def has : CharSet → Char → Bool
  | .stretch first last, c => first ≤ c.toNat && c.toNat ≤ last
  | .property p, c => p.has c
  | .union a b, c => a.has c || b.has c
  | .inter a b, c => a.has c && b.has c
  | .diff a b, c => a.has c && !b.has c
  | .symmetricDiff a b, c => a.has c != b.has c
  | .complement a, c => !a.has c
  | .folded a, c => (Text.caseVariants c).any a.has
  | .asciiFolded a, c => a.has c || a.has c.toLower || a.has c.toUpper

end CharSet
end RepoAudit.Regex
