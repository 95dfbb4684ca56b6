/-!
# Splitting texts

Fields between separators, lines, and the first or last place where a text can be cut.
-/

namespace RepoAudit.Text

/-- The fields between the characters that satisfy `sep`; there is always at least one. -/
def fieldsBy (sep : Char → Bool) : List Char → List (List Char)
  | [] => [[]]
  | c :: rest => match fieldsBy sep rest with
    | first :: others => if sep c then [] :: first :: others else (c :: first) :: others
    | [] => [[c]]

theorem fieldsBy_eq_splitOnP (sep : Char → Bool) (cs : List Char) :
    fieldsBy sep cs = cs.splitOnP sep := by
  induction cs with
  | nil => rfl
  | cons c rest ih =>
    rw [fieldsBy, List.splitOnP_cons_eq_if_modifyHead, ih]
    cases split : rest.splitOnP sep with
    | nil => exact absurd split (List.splitOnP_ne_nil sep rest)
    | cons first others => rfl

/-- The fields between the occurrences of `sep`. -/
def fields (sep : Char) (cs : List Char) : List (List Char) := fieldsBy (· == sep) cs

theorem fields_eq_splitOn (sep : Char) (cs : List Char) : fields sep cs = cs.splitOn sep :=
  fieldsBy_eq_splitOnP (· == sep) cs

/-- Removes one carriage return at the end. -/
def dropReturn (line : List Char) : List Char :=
  if line.getLast? = some '\r' then line.dropLast else line

/-- The lines of a text. A line feed ends a line and is not part of it, nor is a carriage return
before it; what follows the last line feed is a line unless it is empty. -/
def lines : List Char → List (List Char)
  | [] => []
  | cs => match (fields '\n' cs).reverse with
    | [] => []
    | last :: before =>
      (before.map dropReturn).reverse ++ (if last.isEmpty then [] else [last])

/-- Joins fields with a separator between them. -/
def join (sep : List Char) (fs : List (List Char)) : List Char := sep.intercalate fs

/-- Cuts a text at the first occurrence of a character. -/
def cut? (sep : Char) : List Char → Option (List Char × List Char)
  | [] => none
  | c :: rest =>
    if c == sep then some ([], rest) else (cut? sep rest).map fun (a, b) => (c :: a, b)

theorem eq_of_cut? {sep : Char} : ∀ {cs a b : List Char}, cut? sep cs = some (a, b) →
    cs = a ++ sep :: b
  | [], _, _, found => by simp [cut?] at found
  | c :: rest, a, b, found => by
    unfold cut? at found
    split at found
    · rename_i same
      obtain ⟨rfl, rfl⟩ := Prod.mk.inj (Option.some.inj found)
      rw [eq_of_beq same, List.nil_append]
    · obtain ⟨⟨a', b'⟩, later, same⟩ := Option.map_eq_some_iff.mp found
      obtain ⟨rfl, rfl⟩ := Prod.mk.inj same
      rw [eq_of_cut? later, List.cons_append]

/-- Cuts a text at the last occurrence of a character. -/
def cutLast? (sep : Char) : List Char → Option (List Char × List Char)
  | [] => none
  | c :: rest => match cutLast? sep rest with
    | some (a, b) => some (c :: a, b)
    | none => if c == sep then some ([], rest) else none

/-- Removes `word` from the start of a text. -/
def dropStart? (word : List Char) (cs : List Char) : Option (List Char) :=
  if word.isPrefixOf cs then some (cs.drop word.length) else none

theorem eq_of_dropStart? {word cs rest : List Char} (found : dropStart? word cs = some rest) :
    cs = word ++ rest := by
  unfold dropStart? at found
  split at found
  · rename_i begins
    obtain ⟨after, rfl⟩ := List.isPrefixOf_iff_prefix.mp begins
    rw [← Option.some.inj found, List.drop_left]
  · cases found

/-- Removes `word` from the end of a text. -/
def dropEnd? (word : List Char) (cs : List Char) : Option (List Char) :=
  (dropStart? word.reverse cs.reverse).map List.reverse

/-- Cuts a text at the first occurrence of a word. -/
def cutWord? (word : List Char) : List Char → Option (List Char × List Char)
  | [] => if word.isEmpty then some ([], []) else none
  | c :: rest => match dropStart? word (c :: rest) with
    | some after => some ([], after)
    | none => (cutWord? word rest).map fun (a, b) => (c :: a, b)

/-- Removes every repetition of a non-empty word at the start. -/
def dropAllStart (word : List Char) (cs : List Char) : List Char :=
  if _h : word ≠ [] ∧ word.isPrefixOf cs = true then dropAllStart word (cs.drop word.length) else cs
termination_by cs.length
decreasing_by
  have := List.length_pos_iff.mpr _h.1
  have := (List.isPrefixOf_iff_prefix.mp _h.2).length_le
  simp only [List.length_drop]
  omega

/-- Removes every repetition of a word at the end. -/
def dropAllEnd (word : List Char) (cs : List Char) : List Char :=
  (dropAllStart word.reverse cs.reverse).reverse

/-- Whether `word` occurs in a text. -/
def occurs (word : List Char) (cs : List Char) : Bool := (cutWord? word cs).isSome

/-- Puts `image` in place of every occurrence of a character. -/
def replaceChar (c : Char) (image : List Char) (cs : List Char) : List Char :=
  cs.flatMap fun d => if d == c then image else [d]

theorem replaceChar_of_not_mem {c : Char} {cs : List Char} (image : List Char) (absent : c ∉ cs) :
    replaceChar c image cs = cs := by
  induction cs with
  | nil => rfl
  | cons d rest ih =>
    obtain ⟨differs, later⟩ := not_or.mp (mt List.mem_cons.mpr absent)
    have kept : (if d == c then image else [d]) = [d] := by simp [Ne.symm differs]
    rw [replaceChar, List.flatMap_cons, kept, ← replaceChar, ih later, List.singleton_append]

/-- Puts `image` in place of the occurrences of a word that do not overlap, from the left; the first
`skip` characters are dropped. -/
def replaceFrom (word image : List Char) : Nat → List Char → List Char
  | _, [] => []
  | skip + 1, _ :: rest => replaceFrom word image skip rest
  | 0, c :: rest =>
    if word.isPrefixOf (c :: rest) then image ++ replaceFrom word image (word.length - 1) rest
    else c :: replaceFrom word image 0 rest

/-- Puts `image` in place of every occurrence of a non-empty word. -/
def replaceWord (word image cs : List Char) : List Char := replaceFrom word image 0 cs

/-- At most `n` fields, of which the last keeps further separators. -/
def fieldsAtMost (sep : Char) : Nat → List Char → List (List Char)
  | 0, _ => []
  | 1, cs => [cs]
  | n + 2, cs => match cut? sep cs with
    | some (first, rest) => first :: fieldsAtMost sep (n + 1) rest
    | none => [cs]

end RepoAudit.Text
