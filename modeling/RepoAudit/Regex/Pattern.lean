import RepoAudit.Regex.CharSet

/-!
# Patterns and what they match

A pattern matches a text if it describes some stretch of it. Matching keeps the list of patterns
that may still describe what follows: the partial derivatives of the pattern by the characters
read so far.
-/

namespace RepoAudit.Regex

/-- Where a pattern may require to be, without taking a character. -/
inductive Assertion where
  | textStart
  | textEnd
  | lineStart
  | lineEnd
  /-- As `lineStart`, where a carriage return and a line feed end a line together. -/
  | crlfLineStart
  | crlfLineEnd
  | boundary (ascii : Bool)
  | noBoundary (ascii : Bool)
  | wordStart (ascii : Bool)
  | wordEnd (ascii : Bool)
  | wordStartHalf (ascii : Bool)
  | wordEndHalf (ascii : Bool)
deriving DecidableEq, Repr

/-- A place in a text, known by the characters on both sides of it. -/
structure Place where
  before : Option Char
  after : Option Char
deriving DecidableEq, Repr

namespace Assertion

/-- Whether there is a word character on a side of a place. -/
def isWordAt (ascii : Bool) : Option Char → Bool
  | some c => if ascii then c.isAlphanum || c == '_' else Text.isWord c
  | none => false

def holds (p : Place) : Assertion → Bool
  | .textStart => p.before.isNone
  | .textEnd => p.after.isNone
  | .lineStart => p.before.isNone || p.before = some '\n'
  | .lineEnd => p.after.isNone || p.after = some '\n'
  | .crlfLineStart =>
    p.before.isNone || p.before = some '\n' || (p.before = some '\r' && p.after != some '\n')
  | .crlfLineEnd =>
    p.after.isNone || p.after = some '\r' || (p.after = some '\n' && p.before != some '\r')
  | .boundary ascii => isWordAt ascii p.before != isWordAt ascii p.after
  | .noBoundary ascii => isWordAt ascii p.before == isWordAt ascii p.after
  | .wordStart ascii => !isWordAt ascii p.before && isWordAt ascii p.after
  | .wordEnd ascii => isWordAt ascii p.before && !isWordAt ascii p.after
  | .wordStartHalf ascii => !isWordAt ascii p.before
  | .wordEndHalf ascii => !isWordAt ascii p.after

end Assertion

inductive Pattern where
  | empty
  | set (s : CharSet)
  | assertion (a : Assertion)
  | seq (first second : Pattern)
  | either (first second : Pattern)
  /-- At least `min` times, and at most `max` times if that is given. -/
  | times (p : Pattern) (min : Nat) (max : Option Nat)
deriving DecidableEq, Repr

namespace Pattern

/-- Whether a pattern describes the empty text at a place. -/
def nullable (at' : Place) : Pattern → Bool
  | .empty => true
  | .set _ => false
  | .assertion a => a.holds at'
  | .seq p q => p.nullable at' && q.nullable at'
  | .either p q => p.nullable at' || q.nullable at'
  | .times p min _ => min == 0 || p.nullable at'

/-- `p` and then `q`. -/
def andThen (p q : Pattern) : Pattern :=
  match p with
  | .empty => q
  | _ => .seq p q

/-- What remains to be described once `c` has been read at a place. A repeated pattern that also
describes the empty text there has all the repetitions it needs. -/
def steps (at' : Place) (c : Char) : Pattern → List Pattern
  | .empty => []
  | .assertion _ => []
  | .set s => if s.has c then [.empty] else []
  | .seq p q => (p.steps at' c).map (·.andThen q) ++ if p.nullable at' then q.steps at' c else []
  | .either p q => p.steps at' c ++ q.steps at' c
  | .times p min max =>
    if max = some 0 then []
    else
      let min := if p.nullable at' then 0 else min - 1
      (p.steps at' c).map (·.andThen (.times p min (max.map (· - 1))))

/-- Whether `start`, beginning here or later, or one of `open'` describes a stretch of the text. -/
def search (start : Pattern) (before : Option Char) (open' : List Pattern) : List Char → Bool
  | [] => (start :: open').any (·.nullable ⟨before, none⟩)
  | c :: rest =>
    let at' : Place := ⟨before, some c⟩
    let all := start :: open'
    all.any (·.nullable at') ||
      search start (some c) (all.flatMap (·.steps at' c)).eraseDups rest

/-- Whether the pattern describes some stretch of the text. -/
def isMatch (p : Pattern) (text : List Char) : Bool := p.search none [] text

end Pattern
end RepoAudit.Regex
