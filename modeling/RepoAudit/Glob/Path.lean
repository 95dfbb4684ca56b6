import RepoAudit.Text.Split

/-!
# Patterns for paths

Within a name a star stands for any characters and a question mark for one; a star in the pattern
that meets a star in the text stands for that star only. Paths are matched name by name; a double
star stands for any number of names. A pattern without a slash matches a name anywhere in a path,
and one that ends in a slash matches a directory and everything below it.
-/

namespace RepoAudit.Glob

/-! ### Wildcards within a name -/

/-- How far a pattern follows a text. -/
inductive Progress where
  | done (matched : Bool)
  /-- A star was met, with the rest of the pattern behind it and the rest of the text. -/
  | star (pattern text : List Char)
  | mismatch
deriving DecidableEq, Repr

/-- Follows a text up to the first star of the pattern. -/
def follow : List Char → List Char → Progress
  | p, [] => .done (p.all (· == '*'))
  | [], _ :: _ => .mismatch
  | p :: ps, t :: ts =>
    if p == '?' || p == t then follow ps ts
    else if p == '*' then .star ps (t :: ts)
    else .mismatch

theorem length_of_follow_star {p t p' t' : List Char} (h : follow p t = .star p' t') :
    p'.length < p.length ∧ t'.length ≤ t.length := by
  induction p generalizing t with
  | nil => cases t <;> simp [follow] at h
  | cons a ps ih =>
    cases t with
    | nil => simp [follow] at h
    | cons b ts =>
      unfold follow at h
      split at h
      · have := ih h
        simp only [List.length_cons]
        omega
      · split at h
        · injection h with hp ht
          subst hp ht
          simp
        · simp at h

/-- Matches what follows a star: the star takes one character more at each mismatch. A later star
is never given up for an earlier one. -/
def afterStar (p t : List Char) : Bool :=
  match _h : follow p t with
  | .done b => b
  | .star p' t' => afterStar p' t'
  | .mismatch => match t with
    | [] => false
    | _ :: ts => afterStar p ts
termination_by p.length + t.length
decreasing_by
  · have := length_of_follow_star _h
    omega
  · simp

/-- Whether a pattern matches a whole name. -/
def matchesSegment (p t : List Char) : Bool :=
  match follow p t with
  | .done b => b
  | .star p' t' => afterStar p' t'
  | .mismatch => false

/-! ### Patterns for paths -/

/-- Whether names match patterns for them. -/
def matchesSegments : List (List Char) → List (List Char) → Bool
  | [], segs => segs.isEmpty
  | p :: ps, segs =>
    if p == ['*', '*'] then
      (List.range (segs.length + 1)).any fun skip => matchesSegments ps (segs.drop skip)
    else match segs with
      | [] => false
      | s :: rest => matchesSegment p s && matchesSegments ps rest

def matchesPath (pattern path : List Char) : Bool :=
  if !pattern.contains '/' then (Text.fields '/' path).any (matchesSegment pattern)
  else match Text.dropEnd? ['/'] pattern with
    | some dir =>
      if dir.contains '*' || dir.contains '?' then
        matchesSegments (Text.fields '/' (dir ++ "/**".toList)) (Text.fields '/' path)
      else path == dir || pattern.isPrefixOf path
    | none => matchesSegments (Text.fields '/' pattern) (Text.fields '/' path)

/-- Whether a path matches a pattern. -/
def isMatch (pattern path : String) : Bool := matchesPath pattern.toList path.toList

/-- Whether a path matches one of several patterns. -/
def isExcluded (path : String) (patterns : List String) : Bool := patterns.any (isMatch · path)

/-- Patterns for vendored and generated files. -/
def defaultPatterns : List String :=
  ["**/.git/**", "**/vendor/**", "**/node_modules/**", "**/third_party/**", "**/dist/**",
   "**/target/**", "**/__pycache__/**", "**/*.min.js", "**/*.min.css"]

end RepoAudit.Glob
