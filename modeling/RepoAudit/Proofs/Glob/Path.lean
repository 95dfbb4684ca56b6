import RepoAudit.Proofs.Glob.Segment
import RepoAudit.Proofs.Text.Fields

/-!
# Patterns for paths, name by name

Patterns without a slash and patterns for directories have ways of their own to be matched.
`isMatch_agrees` shows that they are short for patterns with double stars.
-/

namespace RepoAudit.Glob

open Text

/-- The pattern for any number of names. -/
def doubleStar : List Char := ['*', '*']

/-- A text without wildcards. -/
def Plain (p : List Char) : Prop := '*' ∉ p ∧ '?' ∉ p

theorem plain_fields {sep : Char} {d : List Char} (plain : Plain d) : ∀ f ∈ fields sep d, Plain f :=
  fun _ field => ⟨mt (mem_of_mem_fields field) plain.1, mt (mem_of_mem_fields field) plain.2⟩

theorem matchesSegment_plain {p : List Char} (plain : Plain p) (t : List Char) :
    matchesSegment p t = true ↔ p = t := by
  rw [matchesSegment_iff_accepts]
  constructor
  · intro accepted
    induction accepted with
    | nil => rfl
    | star => exact absurd List.mem_cons_self plain.1
    | any => exact absurd List.mem_cons_self plain.2
    | same _ ih => rw [ih ⟨mt (.tail _) plain.1, mt (.tail _) plain.2⟩]
  · rintro rfl
    simpa using (accepts_append p [] []).mpr .nil

/-! ### Double stars -/

theorem matchesSegments_doubleStar (ps segs : List (List Char)) :
    matchesSegments (doubleStar :: ps) segs = true ↔
      ∃ rest, rest <:+ segs ∧ matchesSegments ps rest = true := by
  rw [matchesSegments.eq_def]
  dsimp only
  rw [if_pos (by decide), List.any_eq_true]
  constructor
  · rintro ⟨skip, -, matched⟩
    exact ⟨segs.drop skip, List.drop_suffix skip segs, matched⟩
  · rintro ⟨rest, ⟨skipped, rfl⟩, matched⟩
    have small : skipped.length < (skipped ++ rest).length + 1 := by
      rw [List.length_append]
      omega
    exact ⟨skipped.length, List.mem_range.mpr small, by simpa using matched⟩

theorem matchesSegments_all (segs : List (List Char)) :
    matchesSegments [doubleStar] segs = true := by
  rw [matchesSegments_doubleStar]
  exact ⟨[], List.nil_suffix, rfl⟩

theorem matchesSegments_cons {p : List Char} (single : p ≠ doubleStar) (ps : List (List Char))
    (s : List Char) (rest : List (List Char)) : matchesSegments (p :: ps) (s :: rest) = true ↔
      matchesSegment p s = true ∧ matchesSegments ps rest = true := by
  rw [matchesSegments, if_neg (by simpa [doubleStar] using single), Bool.and_eq_true]

theorem matchesSegments_cons_nil {p : List Char} (single : p ≠ doubleStar) (ps : List (List Char)) :
    matchesSegments (p :: ps) [] = false := by
  rw [matchesSegments, if_neg (by simpa [doubleStar] using single)]

/-- A pattern between double stars matches a name anywhere. -/
theorem matchesSegments_anywhere {p : List Char} (single : p ≠ doubleStar)
    (segs : List (List Char)) :
    matchesSegments [doubleStar, p, doubleStar] segs = segs.any (matchesSegment p) := by
  rw [Bool.eq_iff_iff, matchesSegments_doubleStar, List.any_eq_true]
  constructor
  · rintro ⟨rest, ends, matched⟩
    cases rest with
    | nil => rw [matchesSegments_cons_nil single] at matched; cases matched
    | cons s rest =>
      exact ⟨s, ends.mem List.mem_cons_self, ((matchesSegments_cons single _ s rest).mp matched).1⟩
  · rintro ⟨s, member, matched⟩
    obtain ⟨before, rest, rfl⟩ := List.append_of_mem member
    refine ⟨s :: rest, List.suffix_append before _, ?_⟩
    exact (matchesSegments_cons single _ s rest).mpr ⟨matched, matchesSegments_all rest⟩

/-- Names without wildcards before a double star match the paths that begin with them. -/
theorem matchesSegments_below {ds : List (List Char)} (plain : ∀ d ∈ ds, Plain d)
    (segs : List (List Char)) : matchesSegments (ds ++ [doubleStar]) segs = true ↔ ds <+: segs := by
  induction ds generalizing segs with
  | nil => simp [matchesSegments_all]
  | cons d ds ih =>
    obtain ⟨head, tail⟩ := List.forall_mem_cons.mp plain
    have single : d ≠ doubleStar := by
      rintro rfl
      exact head.1 List.mem_cons_self
    cases segs with
    | nil => simp [matchesSegments_cons_nil single]
    | cons s rest =>
      rw [List.cons_append, matchesSegments_cons single, matchesSegment_plain head, ih tail,
        List.cons_prefix_cons]

/-! ### Paths -/

theorem matchesPath_name {x : List Char} (slashless : '/' ∉ x) (path : List Char) :
    matchesPath x path = (fields '/' path).any (matchesSegment x) := by
  rw [matchesPath, if_pos (by simpa using slashless)]

theorem matchesPath_anywhere {x : List Char} (slashless : '/' ∉ x) (path : List Char) :
    matchesPath ("**/".toList ++ x ++ "/**".toList) path =
      matchesSegments [doubleStar, x, doubleStar] (fields '/' path) := by
  have segments : fields '/' ("**/".toList ++ x ++ "/**".toList) = [doubleStar, x, doubleStar] := by
    calc fields '/' ("**/".toList ++ x ++ "/**".toList)
        = fields '/' (doubleStar ++ '/' :: (x ++ '/' :: doubleStar)) := by simp [doubleStar]
      _ = fields '/' doubleStar ++ (fields '/' x ++ fields '/' doubleStar) := by
        rw [fields_append_cons, fields_append_cons]
      _ = [doubleStar, x, doubleStar] := by
        rw [fields_of_not_mem slashless]
        rfl
  have last : "**/".toList ++ x ++ "/**".toList = ("**/".toList ++ x ++ "/*".toList) ++ ['*'] := by
    simp
  rw [matchesPath, if_neg (by simp), last, dropEnd?_concat (by decide), ← last, segments]

/-- A pattern for a directory stands for the directory and all that is below it. -/
theorem matchesPath_directory (d path : List Char) :
    matchesPath (d ++ ['/']) path =
      matchesSegments (fields '/' d ++ [doubleStar]) (fields '/' path) := by
  have segments : fields '/' (d ++ "/**".toList) = fields '/' d ++ [doubleStar] := by
    exact fields_append_cons d doubleStar
  rw [matchesPath, if_neg (by simp), dropEnd?_append]
  dsimp only
  split
  · rw [segments]
  · rename_i wildcards
    have plain : Plain d := by simpa [Plain] using wildcards
    rw [Bool.eq_iff_iff, matchesSegments_below (plain_fields plain), fields_prefix_iff,
      Bool.or_eq_true, beq_iff_eq, List.isPrefixOf_iff_prefix, eq_comm]

/-- A pattern without a slash matches as it does between double stars, one for a directory as if a
double star followed; without wildcards that is whatever begins with the names of the directory. -/
theorem isMatch_agrees (path : String) :
    (∀ x : String, '/' ∉ x.toList → x ≠ "**" → isMatch x path = isMatch ("**/" ++ x ++ "/**") path) ∧
    (∀ d : String, isMatch (d ++ "/") path =
      matchesSegments (fields '/' d.toList ++ [doubleStar]) (fields '/' path.toList)) ∧
    (∀ d : String, '*' ∉ d.toList → '?' ∉ d.toList → (isMatch (d ++ "/") path = true ↔
      fields '/' d.toList <+: fields '/' path.toList)) := by
  have directory (d : String) : isMatch (d ++ "/") path =
      matchesSegments (fields '/' d.toList ++ [doubleStar]) (fields '/' path.toList) := by
    rw [isMatch, String.toList_append]
    exact matchesPath_directory d.toList path.toList
  refine ⟨fun x slashless single => ?_, directory, fun d noStar noMark => ?_⟩
  · have single : x.toList ≠ doubleStar := fun same => single (String.toList_injective same)
    rw [isMatch, isMatch, String.toList_append, String.toList_append, matchesPath_name slashless,
      matchesPath_anywhere slashless, matchesSegments_anywhere single]
  · rw [directory]
    exact matchesSegments_below (plain_fields ⟨noStar, noMark⟩) _

theorem isMatch_vendor : isMatch ("**/" ++ "vendor" ++ "/**") "src/vendor/x.py" = true ∧
    isMatch ("src/vendor" ++ "/") "src/vendor/x.py" = true ∧
    isMatch ("vendor" ++ "/") "src/vendor/x.py" = false := by
  obtain ⟨anywhere, -, below⟩ := isMatch_agrees "src/vendor/x.py"
  refine ⟨?_, ?_, ?_⟩
  · rw [← anywhere "vendor" (by decide) (by decide)]
    decide +kernel
  · exact (below "src/vendor" (by decide) (by decide)).mpr (by decide)
  · rw [Bool.eq_false_iff, ne_eq, below "vendor" (by decide) (by decide)]
    decide

end RepoAudit.Glob
