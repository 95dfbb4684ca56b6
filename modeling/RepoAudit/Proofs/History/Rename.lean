import Mathlib.Data.List.TakeWhile
import RepoAudit.History.Log
import RepoAudit.Proofs.Text.Words

/-!
# Renamings and their texts

A renaming is listed as a text from which the new path is to be read off. Braces are ordinary
characters of a path as well, and the reader takes the first ones for those of the notation.
`newPath_text_iff` tells from which texts the new path is read off all the same.
-/

namespace RepoAudit.History

open Text

/-! ### Arrows -/

/-- An old name that ends like an arrow makes an arrow with the blank behind it. -/
def EndsLikeArrow (old : List Char) : Prop := [' ', '=', '>'] <:+ old

instance (old : List Char) : Decidable (EndsLikeArrow old) :=
  inferInstanceAs (Decidable (_ <:+ _))

theorem arrow_infix_append_iff {old : List Char} :
    arrow <:+: old ++ arrow.dropLast ↔ arrow <:+: old ∨ EndsLikeArrow old := by
  have last (cs : List Char) (c : Char) : arrow <:+ cs ++ [c] ↔ c = ' ' ∧ EndsLikeArrow cs := by
    rw [EndsLikeArrow, ← List.reverse_prefix, ← List.reverse_prefix]
    simp [arrow, eq_comm]
  have split : old ++ arrow.dropLast = old ++ [' '] ++ ['='] ++ ['>'] := by simp [arrow]
  rw [split, List.infix_concat_iff, List.infix_concat_iff, List.infix_concat_iff, last, last, last]
  simp [or_comm]

/-- What is read as the new name, if it is not the new name. -/
theorem afterArrow_cases {old new : List Char} (plain : ¬ arrow <:+: old)
    (plain' : ¬ arrow <:+: new) :
    ¬ EndsLikeArrow old ∧ afterArrow (old ++ (arrow ++ new)) = new ∨
    EndsLikeArrow old ∧ (afterArrow (old ++ (arrow ++ new)) = ['=', '>', ' '] ++ new ∨
      ∃ rest, new = ['=', '>', ' '] ++ rest ∧ afterArrow (old ++ (arrow ++ new)) = ['=', '>']) := by
  have filled : arrow ≠ [] := by decide
  by_cases ends : EndsLikeArrow old
  · obtain ⟨a, rfl⟩ := ends
    have cut : cutWord? arrow (a ++ (arrow ++ (['=', '>', ' '] ++ new))) =
        some (a, ['=', '>', ' '] ++ new) := cutWord?_append filled plain
    have same : a ++ [' ', '=', '>'] ++ (arrow ++ new) = a ++ (arrow ++ (['=', '>', ' '] ++ new)) := by
      simp [arrow]
    refine .inr ⟨⟨a, rfl⟩, ?_⟩
    rw [same, afterArrow, cut]
    dsimp only
    by_cases begins : ['=', '>', ' '] <+: new
    · obtain ⟨rest, rfl⟩ := begins
      have again : cutWord? arrow (['=', '>'] ++ (arrow ++ rest)) = some (['=', '>'], rest) :=
        cutWord?_append filled (by decide)
      have same : ['=', '>', ' '] ++ (['=', '>', ' '] ++ rest) = ['=', '>'] ++ (arrow ++ rest) := rfl
      exact .inr ⟨rest, rfl, by rw [same, again]⟩
    · have none : cutWord? arrow (['=', '>', ' '] ++ new) = none := by
        rw [cutWord?_eq_none]
        simpa [List.infix_cons_iff, arrow] using ⟨begins, plain'⟩
      exact .inl (by rw [none])
  · refine .inl ⟨ends, ?_⟩
    have first : ¬ arrow <:+: old ++ arrow.dropLast :=
      fun within => (arrow_infix_append_iff.mp within).elim plain ends
    rw [afterArrow, cutWord?_append filled first]
    dsimp only
    rw [cutWord?_eq_none.mpr plain']

theorem afterArrow_of_plain {cs : List Char} (plain : ¬ arrow <:+: cs) : afterArrow cs = cs := by
  rw [afterArrow, cutWord?_eq_none.mpr plain]

theorem count_afterArrow_le {old new : List Char} (plain : ¬ arrow <:+: old)
    (plain' : ¬ arrow <:+: new) {c : Char} (other : c ∉ arrow) :
    (afterArrow (old ++ (arrow ++ new))).count c ≤ new.count c := by
  rcases afterArrow_cases plain plain' with ⟨-, read⟩ | ⟨-, read | ⟨rest, rfl, read⟩⟩
  · rw [read]
  · rw [read, List.count_append, List.count_eq_zero_of_not_mem, Nat.zero_add]
    exact fun inside => other (by revert inside; simp [arrow]; tauto)
  · rw [read, List.count_eq_zero_of_not_mem]
    · exact Nat.zero_le _
    · exact fun inside => other (by revert inside; simp [arrow]; tauto)

/-! ### Braces -/

/-- An opening brace stands before the first closing one. -/
def Bracketed (cs : List Char) : Prop := '}' ∈ cs ∧ '{' ∈ cs.takeWhile (· ≠ '}')

instance (cs : List Char) : Decidable (Bracketed cs) := inferInstanceAs (Decidable (_ ∧ _))

theorem braced?_eq_some_iff {cs before inner after : List Char} :
    braced? cs = some (before, inner, after) ↔
      cs = before ++ '{' :: (inner ++ '}' :: after) ∧ '{' ∉ before ∧ '}' ∉ before ∧ '}' ∉ inner := by
  unfold braced?
  constructor
  · intro found
    obtain ⟨⟨p, rest⟩, opened, found⟩ := Option.bind_eq_some_iff.mp found
    dsimp only at found
    split at found
    · cases found
    · rename_i closed
      obtain ⟨⟨i, s⟩, closing, same⟩ := Option.bind_eq_some_iff.mp found
      obtain ⟨rfl, rfl, rfl⟩ : p = before ∧ i = inner ∧ s = after := by simpa using same
      obtain ⟨rfl, unopened⟩ := cut?_eq_some_iff.mp opened
      obtain ⟨rfl, unclosed⟩ := cut?_eq_some_iff.mp closing
      exact ⟨rfl, unopened, by simpa using closed, unclosed⟩
  · rintro ⟨rfl, unopened, closed, unclosed⟩
    rw [cut?_append unopened]
    simp [closed, cut?_append unclosed]

theorem takeWhile_closed {start rest : List Char} (unclosed : '}' ∉ start) :
    (start ++ '}' :: rest).takeWhile (· ≠ '}') = start := by
  rw [List.takeWhile_append_of_pos]
  · simp
  · simpa using fun c inside => ne_of_mem_of_not_mem inside unclosed

theorem dropWhile_closed {start rest : List Char} (unclosed : '}' ∉ start) :
    (start ++ '}' :: rest).dropWhile (· ≠ '}') = '}' :: rest := by
  rw [List.dropWhile_append_of_pos]
  · simp
  · simpa using fun c inside => ne_of_mem_of_not_mem inside unclosed

theorem bracketed_iff {cs : List Char} : Bracketed cs ↔
    ∃ before inner after, braced? cs = some (before, inner, after) := by
  simp only [braced?_eq_some_iff]
  constructor
  · rintro ⟨closing, opening⟩
    obtain ⟨start, after, rfl, unclosed⟩ := List.eq_append_cons_of_mem closing
    rw [takeWhile_closed unclosed] at opening
    obtain ⟨before, inner, rfl, unopened⟩ := List.eq_append_cons_of_mem opening
    have ⟨closed, unclosed⟩ : '}' ∉ before ∧ '}' ∉ inner := by simpa using unclosed
    exact ⟨before, inner, after, by simp, unopened, closed, unclosed⟩
  · rintro ⟨before, inner, after, rfl, -, closed, unclosed⟩
    have whole : before ++ '{' :: (inner ++ '}' :: after) =
        (before ++ '{' :: inner) ++ '}' :: after := by simp
    rw [Bracketed, whole, takeWhile_closed (by simp [closed, unclosed])]
    simp

theorem newPathOf_of_bracketed {before inner after : List Char} (unopened : '{' ∉ before)
    (closed : '}' ∉ before) (unclosed : '}' ∉ inner)
    (renamed : arrow <:+: before ++ '{' :: (inner ++ '}' :: after)) :
    newPathOf (before ++ '{' :: (inner ++ '}' :: after)) =
      squeezed (before ++ afterArrow inner ++ after) := by
  rw [newPathOf, occurs_iff.mpr renamed, braced?_eq_some_iff.mpr ⟨rfl, unopened, closed, unclosed⟩]
  exact replaceWord_slashes _

theorem newPathOf_of_not_bracketed {cs : List Char} (renamed : arrow <:+: cs)
    (free : ¬ Bracketed cs) : newPathOf cs = afterArrow cs := by
  have none : braced? cs = none :=
    Option.eq_none_iff_forall_ne_some.mpr fun (p, i, s) found => free (bracketed_iff.mpr ⟨p, i, s, found⟩)
  rw [newPathOf, occurs_iff.mpr renamed, none]
  rfl

/-- Nothing is taken away but braces and slashes if there is no arrow in the braces. -/
theorem count_of_plain_inner {before inner after : List Char} (unopened : '{' ∉ before)
    (closed : '}' ∉ before) (unclosed : '}' ∉ inner)
    (renamed : arrow <:+: before ++ '{' :: (inner ++ '}' :: after)) (plain : ¬ arrow <:+: inner) :
    (newPathOf (before ++ '{' :: (inner ++ '}' :: after))).count '>' =
      (before ++ '{' :: (inner ++ '}' :: after)).count '>' := by
  rw [newPathOf_of_bracketed unopened closed unclosed renamed, afterArrow_of_plain plain,
    count_squeezed (by decide)]
  simp

/-! ### Renamings -/

/-- A renaming as it is listed: by both paths, or by the names that differ between the parts of the
paths that are the same. -/
inductive Rename where
  | whole (old new : List Char)
  | within (before old new after : List Char)

namespace Rename

def text : Rename → List Char
  | whole old new => old ++ (arrow ++ new)
  | within before old new after => before ++ '{' :: (old ++ (arrow ++ (new ++ '}' :: after)))

/-- The path with a name between two parts; of the slashes at the sides of no name one is left. -/
def path (before name after : List Char) : List Char :=
  if name = [] ∧ after ≠ [] then before.dropLast ++ after else before ++ name ++ after

def oldPath : Rename → List Char
  | whole old _ => old
  | within before old _ after => path before old after

def newPath : Rename → List Char
  | whole _ new => new
  | within before _ new after => path before new after

/-- Whether the parts in common end and begin with slashes. -/
def Slashed : Rename → Prop
  | whole _ _ => True
  | within before _ new after =>
    (before = [] ∨ before.getLast? = some '/') ∧ (after = [] ∨ after.head? = some '/') ∧
      (new = [] → before ≠ [])

/-- The renamings that are listed: no path has an arrow or an empty name of a directory. -/
structure Listed (r : Rename) : Prop where
  slashed : r.Slashed
  oldPath : ¬ arrow <:+: r.oldPath
  newPath : ¬ arrow <:+: r.newPath
  directories : ¬ ['/', '/'] <:+: r.newPath

/-- The renamings that can be told from their texts. In the last case the braces are overlooked, and
the path is right by chance. -/
def Clear : Rename → Prop
  | whole old new => ¬ EndsLikeArrow old ∧ ¬ Bracketed (old ++ (arrow ++ new))
  | within before old new after =>
    ¬ EndsLikeArrow old ∧ '{' ∉ before ∧ '}' ∉ before ∧ '}' ∉ old ∧
        (∀ c ∈ new.dropWhile (· ≠ '}'), c = '}') ∨
      new = [] ∧ after ≠ [] ∧ before = (if EndsLikeArrow old then ['=', '>', ' '] else []) ++ ['}', '/']

theorem arrow_infix_text (r : Rename) : arrow <:+: r.text := by
  cases r with
  | whole old new => exact ⟨old, new, List.append_assoc ..⟩
  | within before old new after =>
    exact ⟨before ++ '{' :: old, new ++ '}' :: after, by simp [text]⟩

/-! ### Paths and their parts -/

section Paths

variable {before name after : List Char}

theorem count_path (slashed : before = [] ∨ before.getLast? = some '/') {c : Char}
    (other : c ≠ '/') :
    (path before name after).count c = before.count c + name.count c + after.count c := by
  unfold path
  split
  · rename_i unnamed
    rcases slashed with rfl | slash
    · simp [unnamed.1]
    · obtain ⟨start, rfl⟩ := List.getLast?_eq_some_iff.mp slash
      simp [unnamed.1, other.symm]
  · simp [Nat.add_assoc]

theorem plain_of_path (slashed : before = [] ∨ before.getLast? = some '/') {word : List Char}
    (filled : word ≠ []) (apart : '/' ∉ word) (plain : ¬ word <:+: path before name after) :
    ¬ word <:+: before ∧ ¬ word <:+: name ∧ ¬ word <:+: after := by
  unfold path at plain
  split at plain
  · rename_i unnamed
    refine ⟨fun inside => ?_, fun inside => ?_, fun inside => ?_⟩
    · rcases slashed with rfl | slash
      · exact filled (List.infix_nil.mp inside)
      · obtain ⟨start, rfl⟩ := List.getLast?_eq_some_iff.mp slash
        rw [infix_append_cons_iff apart filled, List.infix_nil] at inside
        rw [List.dropLast_concat] at plain
        exact plain ((inside.resolve_right filled).trans (List.prefix_append ..).isInfix)
    · rw [unnamed.1] at inside
      exact filled (List.infix_nil.mp inside)
    · exact plain (inside.trans (List.suffix_append ..).isInfix)
  · refine ⟨fun inside => ?_, fun inside => ?_, fun inside => ?_⟩
    · exact plain (inside.trans ⟨[], name ++ after, by simp⟩)
    · exact plain (inside.trans ⟨before, after, rfl⟩)
    · exact plain (inside.trans (List.suffix_append ..).isInfix)

end Paths

/-- The text has one arrow more than the new path, so that a path is wrong that keeps them all. -/
theorem count_newPath_lt {r : Rename} (slashed : r.Slashed) :
    r.newPath.count '>' < r.text.count '>' := by
  cases r with
  | whole old new =>
    simp [newPath, text, arrow]
    omega
  | within before old new after =>
    rw [newPath, count_path slashed.1 (by decide)]
    simp [text, arrow]
    omega

end Rename

/-! ### The braces that are read -/

/-- The braces that are opened first are closed before the arrow, or they have the arrow in them. -/
theorem newPathOf_opened {before old new : List Char} (unopened : '{' ∉ before)
    (closed : '}' ∉ before) (plain : ¬ arrow <:+: old) (closing : '}' ∈ old ++ (arrow ++ new)) :
    '}' ∈ old ∧ (newPathOf (before ++ '{' :: (old ++ (arrow ++ new)))).count '>' =
        (before ++ '{' :: (old ++ (arrow ++ new))).count '>' ∨
    '}' ∉ old ∧ ∃ start after, new = start ++ '}' :: after ∧ '}' ∉ start ∧
      newPathOf (before ++ '{' :: (old ++ (arrow ++ new))) =
        squeezed (before ++ afterArrow (old ++ (arrow ++ start)) ++ after) := by
  have renamed : arrow <:+: before ++ '{' :: (old ++ (arrow ++ new)) :=
    ⟨before ++ '{' :: old, new, by simp⟩
  by_cases early : '}' ∈ old
  · obtain ⟨inner, rest, rfl, unclosed⟩ := List.eq_append_cons_of_mem early
    have split : inner ++ '}' :: rest ++ (arrow ++ new) = inner ++ '}' :: (rest ++ (arrow ++ new)) := by
      simp
    rw [split] at renamed ⊢
    refine .inl ⟨early, count_of_plain_inner unopened closed unclosed renamed fun inside => ?_⟩
    exact plain (inside.trans (List.prefix_append ..).isInfix)
  · have late : '}' ∈ new := by simpa [early, arrow] using closing
    obtain ⟨start, after, rfl, unclosed⟩ := List.eq_append_cons_of_mem late
    have split : old ++ (arrow ++ (start ++ '}' :: after)) =
        (old ++ (arrow ++ start)) ++ '}' :: after := by simp
    refine .inr ⟨early, start, after, rfl, unclosed, ?_⟩
    rw [split] at renamed ⊢
    exact newPathOf_of_bracketed unopened closed (by simp [early, unclosed, arrow]) renamed

/-! ### Renamings by both paths -/

theorem newPathOf_ne_of_bracketed {old new : List Char} (plain : ¬ arrow <:+: old)
    (plain' : ¬ arrow <:+: new) (bracketed : Bracketed (old ++ (arrow ++ new))) :
    newPathOf (old ++ (arrow ++ new)) ≠ new := by
  intro right
  have renamed : arrow <:+: old ++ (arrow ++ new) := (Rename.whole old new).arrow_infix_text
  have fewer : new.count '>' < (old ++ (arrow ++ new)).count '>' :=
    Rename.count_newPath_lt (r := .whole old new) trivial
  obtain ⟨before, inner, after, found⟩ := bracketed_iff.mp bracketed
  obtain ⟨split, unopened, closed, unclosed⟩ := braced?_eq_some_iff.mp found
  by_cases opening : '{' ∈ old
  · obtain ⟨start, rest, rfl, unopened'⟩ := List.eq_append_cons_of_mem opening
    rw [List.append_assoc, List.cons_append] at right fewer split
    obtain ⟨rfl, same⟩ := (append_cons_eq_iff unopened' unopened).mp split
    have plainRest : ¬ arrow <:+: rest :=
      fun inside => plain (inside.trans ⟨start ++ ['{'], [], by simp⟩)
    have closing : '}' ∈ rest ++ (arrow ++ new) := same ▸ by simp
    rcases newPathOf_opened unopened closed plainRest closing with
      ⟨-, kept⟩ | ⟨-, within, more, rfl, unclosed', read⟩
    · rw [right] at kept
      omega
    · -- the first closing brace of the new path is lost
      have plainWithin : ¬ arrow <:+: within :=
        fun inside => plain' (inside.trans (List.prefix_append ..).isInfix)
      have none := count_afterArrow_le plainRest plainWithin (c := '}') (by decide)
      have kept := congrArg (List.count '}') (read.symm.trans right)
      rw [count_squeezed (by decide)] at kept
      simp only [List.count_append, List.count_cons_self, List.count_eq_zero_of_not_mem closed,
        List.count_eq_zero_of_not_mem unclosed'] at kept none
      omega
  · have opening' : '{' ∈ new := by
      have inside : '{' ∈ old ++ (arrow ++ new) := split ▸ by simp
      simpa [opening, arrow] using inside
    obtain ⟨start, rest, rfl, unopened'⟩ := List.eq_append_cons_of_mem opening'
    have apart : '{' ∉ old ++ (arrow ++ start) := by simp [opening, unopened', arrow]
    have regroup : old ++ (arrow ++ (start ++ '{' :: rest)) =
        (old ++ (arrow ++ start)) ++ '{' :: rest := by simp
    rw [regroup] at split right fewer renamed
    obtain ⟨rfl, rfl⟩ := (append_cons_eq_iff apart unopened).mp split
    have plainInner : ¬ arrow <:+: inner :=
      fun inside => plain' (inside.trans ⟨start ++ ['{'], '}' :: after, by simp⟩)
    have kept := count_of_plain_inner unopened closed unclosed renamed plainInner
    rw [right] at kept
    omega

theorem newPathOf_whole_iff {old new : List Char} (plain : ¬ arrow <:+: old)
    (plain' : ¬ arrow <:+: new) :
    newPathOf (old ++ (arrow ++ new)) = new ↔ (Rename.whole old new).Clear := by
  have renamed : arrow <:+: old ++ (arrow ++ new) := (Rename.whole old new).arrow_infix_text
  by_cases bracketed : Bracketed (old ++ (arrow ++ new))
  · exact iff_of_false (newPathOf_ne_of_bracketed plain plain' bracketed) fun clear => clear.2 bracketed
  · rw [newPathOf_of_not_bracketed renamed bracketed]
    rcases afterArrow_cases plain plain' with ⟨plainEnd, read⟩ | ⟨ends, read⟩
    · exact iff_of_true read ⟨plainEnd, bracketed⟩
    · refine iff_of_false (fun right => ?_) fun clear => clear.1 ends
      rcases read with read | ⟨rest, rfl, read⟩
      all_goals
        have lengths := congrArg List.length (read.symm.trans right)
        simp only [List.length_append, List.length_cons, List.length_nil] at lengths
        omega

/-! ### Renamings with parts in common -/

section Within

variable {before old new after : List Char}

theorem Rename.Listed.plain_parts (listed : (Rename.within before old new after).Listed) :
    ¬ arrow <:+: before ∧ ¬ arrow <:+: old ∧ ¬ arrow <:+: new ∧ ¬ arrow <:+: after := by
  have filled : arrow ≠ [] := by decide
  obtain ⟨-, plainOld, -⟩ := plain_of_path listed.slashed.1 filled (by decide) listed.oldPath
  obtain ⟨plain, plainNew, plainAfter⟩ :=
    plain_of_path listed.slashed.1 filled (by decide) listed.newPath
  exact ⟨plain, plainOld, plainNew, plainAfter⟩

theorem plain_of_closed (plain : ¬ arrow <:+: new) (plain' : ¬ arrow <:+: after) :
    ¬ arrow <:+: new ++ '}' :: after := by
  rw [infix_append_cons_iff (by decide) (by decide), not_or]
  exact ⟨plain, plain'⟩

/-- If braces are opened in what comes first, they are taken for those around the names. -/
theorem newPathOf_ne_of_opened (listed : (Rename.within before old new after).Listed)
    {start rest : List Char} (split : before = start ++ '{' :: rest) (unopened : '{' ∉ start)
    (closed : '}' ∉ start) :
    newPathOf (Rename.within before old new after).text ≠ Rename.path before new after := by
  intro right
  obtain ⟨plain, plainOld, plainNew, plainAfter⟩ := listed.plain_parts
  have plainRight := plain_of_closed plainNew plainAfter
  have plainLeft : ¬ arrow <:+: rest ++ '{' :: old := by
    rw [infix_append_cons_iff (by decide) (by decide), not_or]
    exact ⟨fun inside => plain (split ▸ inside.trans ⟨start ++ ['{'], [], by simp⟩), plainOld⟩
  have fewer := Rename.count_newPath_lt listed.slashed
  have whole : (Rename.path before new after).count '{' =
      before.count '{' + new.count '{' + after.count '{' :=
    Rename.count_path listed.slashed.1 (by decide)
  have regroup : (Rename.within before old new after).text =
      start ++ '{' :: ((rest ++ '{' :: old) ++ (arrow ++ (new ++ '}' :: after))) := by
    simp [Rename.text, split]
  rw [regroup] at right fewer
  have closing : '}' ∈ rest ++ '{' :: old ++ (arrow ++ (new ++ '}' :: after)) := by simp
  rcases newPathOf_opened unopened closed plainLeft closing with
    ⟨-, kept⟩ | ⟨-, within, more, same, -, read⟩
  · rw [right] at kept
    exact fewer.ne kept
  · -- an opening brace of the new path is lost
    have plainWithin : ¬ arrow <:+: within :=
      fun inside => plainRight (same ▸ inside.trans (List.prefix_append ..).isInfix)
    have some := count_afterArrow_le plainLeft plainWithin (c := '{') (by decide)
    have kept := congrArg (List.count '{') (read.symm.trans right)
    have rests := congrArg (List.count '{') same
    rw [count_squeezed (by decide), whole, split] at kept
    simp [List.count_eq_zero_of_not_mem unopened] at kept rests some
    omega

/-- If braces are closed first in what comes first, then all braces are overlooked. -/
theorem newPathOf_iff_of_closed (listed : (Rename.within before old new after).Listed)
    {start rest : List Char} (split : before = start ++ '}' :: rest) (unopened : '{' ∉ start)
    (closed : '}' ∉ start) :
    newPathOf (Rename.within before old new after).text = Rename.path before new after ↔
      new = [] ∧ after ≠ [] ∧
        before = (if EndsLikeArrow old then ['=', '>', ' '] else []) ++ ['}', '/'] := by
  obtain ⟨plain, plainOld, plainNew, plainAfter⟩ := listed.plain_parts
  have plainLeft : ¬ arrow <:+: before ++ '{' :: old := by
    rw [infix_append_cons_iff (by decide) (by decide), not_or]
    exact ⟨plain, plainOld⟩
  have free : ¬ Bracketed (Rename.within before old new after).text := by
    rintro ⟨-, opening⟩
    rw [Rename.text, split, List.append_assoc, List.cons_append, takeWhile_closed closed] at opening
    exact unopened opening
  have regroup : (Rename.within before old new after).text =
      (before ++ '{' :: old) ++ (arrow ++ (new ++ '}' :: after)) := by
    simp [Rename.text]
  have ends : EndsLikeArrow (before ++ '{' :: old) ↔ EndsLikeArrow old :=
    suffix_append_cons_iff (by decide)
  have read := afterArrow_cases plainLeft (plain_of_closed plainNew plainAfter)
  rw [ends] at read
  rw [newPathOf_of_not_bracketed (Rename.arrow_infix_text _) free, regroup]
  obtain ⟨head, rfl⟩ : ∃ head, before = head ++ ['/'] := by
    refine List.getLast?_eq_some_iff.mp (listed.slashed.1.resolve_left ?_)
    simp [split]
  by_cases unnamed : new = [] ∧ after ≠ []
  · obtain ⟨rfl, more⟩ := unnamed
    have chance (lead : List Char) : lead ++ '}' :: after = head ++ after ↔
        head ++ ['/'] = lead ++ ['}', '/'] := by
      rw [List.append_cons lead '}' after, List.append_left_inj, List.append_cons lead '}' ['/'],
        List.append_left_inj, eq_comm]
    rw [Rename.path, if_pos ⟨rfl, more⟩, List.dropLast_concat]
    rcases read with ⟨plainEnd, read⟩ | ⟨ending, read | ⟨_, impossible, -⟩⟩
    · rw [read, if_neg plainEnd]
      simpa [more] using chance []
    · rw [read, if_pos ending]
      simpa [more] using chance ['=', '>', ' ']
    · cases impossible
  · rw [Rename.path, if_neg unnamed]
    refine iff_of_false (fun right => ?_) fun chance => unnamed ⟨chance.1, chance.2.1⟩
    rcases read with ⟨-, read⟩ | ⟨-, read | ⟨_, -, read⟩⟩
    all_goals
      have slashes := congrArg (List.count '/') (read.symm.trans right)
      simp at slashes
    all_goals omega

/-- A text that grows by one character at either end alike is made of this character. -/
theorem forall_mem_eq_of_concat {cs : List Char} {c : Char} : cs ++ [c] = c :: cs ↔ ∀ d ∈ cs, d = c := by
  induction cs with
  | nil => simp
  | cons d rest ih =>
    rw [List.cons_append, List.cons.injEq, List.forall_mem_cons, ← ih]
    refine and_congr_right ?_
    rintro rfl
    rfl

/-- Of the slashes at the sides of no name one is left. -/
theorem squeezed_eq_path (listed : (Rename.within before old new after).Listed) :
    squeezed (before ++ new ++ after) = Rename.path before new after := by
  have directories : ¬ ['/', '/'] <:+: Rename.path before new after := listed.directories
  by_cases unnamed : new = [] ∧ after ≠ []
  · obtain ⟨rfl, more⟩ := unnamed
    obtain ⟨head, rfl⟩ :=
      List.getLast?_eq_some_iff.mp (listed.slashed.1.resolve_left (listed.slashed.2.2 rfl))
    obtain ⟨tail, rfl⟩ : ∃ tail, after = '/' :: tail :=
      List.head?_eq_some_iff.mp (listed.slashed.2.1.resolve_left more)
    rw [Rename.path, if_pos ⟨rfl, more⟩, List.dropLast_concat] at directories ⊢
    simpa using squeezed_double directories
  · rw [Rename.path, if_neg unnamed] at directories ⊢
    exact squeezed_of_plain directories

/-- What is left without one closing brace is the new path if the new name has closing braces at its
end only, since then it does not matter which of them is gone. -/
theorem squeezed_eq_path_iff (listed : (Rename.within before old new after).Listed)
    {start more : List Char} (same : new ++ '}' :: after = start ++ '}' :: more)
    (unclosed : '}' ∉ start) :
    squeezed (before ++ start ++ more) = Rename.path before new after ↔
      ∀ c ∈ new.dropWhile (· ≠ '}'), c = '}' := by
  by_cases closing : '}' ∈ new
  · obtain ⟨name, ending, rfl, unclosed'⟩ := List.eq_append_cons_of_mem closing
    rw [List.append_assoc, List.cons_append] at same
    obtain ⟨rfl, rfl⟩ := (append_cons_eq_iff unclosed' unclosed).mp same
    have path : Rename.path before (name ++ '}' :: ending) after =
        before ++ name ++ ('}' :: ending ++ after) := by
      simp [Rename.path]
    have directories : ¬ ['/', '/'] <:+: before ++ name ++ ('}' :: ending ++ after) :=
      path ▸ listed.directories
    have moved : ending ++ '}' :: after = '}' :: ending ++ after ↔ ∀ c ∈ '}' :: ending, c = '}' := by
      rw [List.append_cons, List.append_left_inj, forall_mem_eq_of_concat]
      simp
    rw [path, dropWhile_closed unclosed', ← moved]
    constructor
    · intro right
      -- a doubled slash would have made the path shorter
      have plain : ¬ ['/', '/'] <:+: before ++ name ++ (ending ++ '}' :: after) := by
        intro doubled
        have shorter := length_squeezed_lt doubled
        rw [right] at shorter
        simp at shorter
        omega
      rw [squeezed_of_plain plain] at right
      exact List.append_cancel_left right
    · intro kept
      rw [kept, squeezed_of_plain directories]
  · obtain ⟨rfl, rfl⟩ := (append_cons_eq_iff closing unclosed).mp same
    have none : new.dropWhile (· ≠ '}') = [] := by
      simpa using fun c inside => ne_of_mem_of_not_mem inside closing
    rw [none]
    exact iff_of_true (squeezed_eq_path listed) (List.forall_mem_nil _)

theorem newPathOf_iff_of_plain (listed : (Rename.within before old new after).Listed)
    (unopened : '{' ∉ before) (closed : '}' ∉ before) :
    newPathOf (Rename.within before old new after).text = Rename.path before new after ↔
      ¬ EndsLikeArrow old ∧ '}' ∉ old ∧ ∀ c ∈ new.dropWhile (· ≠ '}'), c = '}' := by
  obtain ⟨plain, plainOld, plainNew, plainAfter⟩ := listed.plain_parts
  have fewer := Rename.count_newPath_lt listed.slashed
  have whole {c : Char} (other : c ≠ '/') : (Rename.path before new after).count c =
      before.count c + new.count c + after.count c :=
    Rename.count_path listed.slashed.1 other
  rw [Rename.text] at fewer ⊢
  have closing : '}' ∈ old ++ (arrow ++ (new ++ '}' :: after)) := by simp
  rcases newPathOf_opened unopened closed plainOld closing with
    ⟨early, kept⟩ | ⟨late, start, more, same, unclosed, read⟩
  · refine iff_of_false (fun right => ?_) fun clear => clear.2.1 early
    rw [right] at kept
    exact fewer.ne kept
  have plainStart : ¬ arrow <:+: start := fun inside =>
    plain_of_closed plainNew plainAfter (same ▸ inside.trans (List.prefix_append ..).isInfix)
  have rests (c : Char) := congrArg (List.count c) same
  rw [read]
  rcases afterArrow_cases plainOld plainStart with ⟨plainEnd, name⟩ | ⟨ends, name | ⟨rest, begins, name⟩⟩
  · rw [name, squeezed_eq_path_iff listed same unclosed]
    exact ⟨fun ending => ⟨plainEnd, late, ending⟩, fun clear => clear.2.2⟩
  · refine iff_of_false (fun right => ?_) fun clear => clear.1 ends
    have kept := congrArg (List.count '>') right
    have rests := rests '>'
    rw [count_squeezed (by decide), whole (by decide), name] at kept
    simp at kept rests
    omega
  · refine iff_of_false (fun right => ?_) fun clear => clear.1 ends
    have kept := congrArg (List.count ' ') right
    have rests := rests ' '
    rw [count_squeezed (by decide), whole (by decide), name] at kept
    simp [begins] at kept rests
    omega

end Within

theorem newPathOf_text_iff (r : Rename) (listed : r.Listed) :
    newPathOf r.text = r.newPath ↔ r.Clear := by
  cases r with
  | whole old new => exact newPathOf_whole_iff listed.oldPath listed.newPath
  | within before old new after =>
    by_cases closing : '}' ∈ before
    · obtain ⟨start, rest, split, closed⟩ := List.eq_append_cons_of_mem closing
      by_cases opening : '{' ∈ start
      · obtain ⟨first, second, rfl, unopened⟩ := List.eq_append_cons_of_mem opening
        have split : before = first ++ '{' :: (second ++ '}' :: rest) := by simp [split]
        have closed : '}' ∉ first := fun inside => closed (List.mem_append_left _ inside)
        refine iff_of_false (newPathOf_ne_of_opened listed split unopened closed) ?_
        rintro (⟨-, -, unclosed, -⟩ | ⟨-, -, chance⟩)
        · exact unclosed closing
        · have inside : '{' ∈ before := split ▸ by simp
          rw [chance] at inside
          revert inside
          split_ifs <;> simp
      · refine (newPathOf_iff_of_closed listed split opening closed).trans ⟨.inr, ?_⟩
        rintro (⟨-, -, unclosed, -⟩ | chance)
        · exact absurd closing unclosed
        · exact chance
    · by_cases opening : '{' ∈ before
      · obtain ⟨start, rest, split, unopened⟩ := List.eq_append_cons_of_mem opening
        have closed : '}' ∉ start := fun inside => closing (split ▸ List.mem_append_left _ inside)
        refine iff_of_false (newPathOf_ne_of_opened listed split unopened closed) ?_
        rintro (⟨-, unopened, -⟩ | ⟨-, -, chance⟩)
        · exact unopened opening
        · exact closing (chance ▸ by simp)
      · refine (newPathOf_iff_of_plain listed opening closing).trans ⟨fun clear => ?_, ?_⟩
        · exact .inl ⟨clear.1, opening, closing, clear.2⟩
        · rintro (⟨plainEnd, -, -, clear⟩ | ⟨-, -, chance⟩)
          · exact ⟨plainEnd, clear⟩
          · exact absurd (chance ▸ by simp) closing

/-- The new path of a renaming is read off its text exactly if the renaming is clear. -/
theorem newPath_text_iff (r : Rename) (listed : r.Listed) :
    newPath (.ofList r.text) = .ofList r.newPath ↔ r.Clear := by
  rw [newPath, String.toList_ofList, String.ofList_inj]
  exact newPathOf_text_iff r listed

/-- A file is moved to a directory below its own, both with braces in their names. -/
def moved : Rename := .within "src/".toList [] "sub\x7d".toList "/\x7bx\x7d.rs".toList

theorem newPath_moved : moved.Listed ∧ moved.Clear ∧
    newPath "src/\x7b => sub\x7d\x7d/\x7bx\x7d.rs" = "src/sub\x7d/\x7bx\x7d.rs" := by
  have listed : moved.Listed :=
    ⟨⟨.inr (by decide), .inr (by decide), by decide⟩, by decide, by decide, by decide⟩
  have rest : "sub\x7d".toList.dropWhile (· ≠ '}') = ['}'] := by decide
  have clear : moved.Clear := .inl ⟨by decide, by decide, by decide, by decide, fun c member =>
    List.mem_singleton.mp (rest ▸ member)⟩
  have text : String.ofList moved.text = "src/\x7b => sub\x7d\x7d/\x7bx\x7d.rs" := by decide
  have path : String.ofList moved.newPath = "src/sub\x7d/\x7bx\x7d.rs" := by decide
  have right := (newPath_text_iff moved listed).mpr clear
  rw [text, path] at right
  exact ⟨listed, clear, right⟩

/-- A file is renamed in a directory of templates. -/
def template : Rename :=
  .within "\x7b\x7bname\x7d\x7d/".toList "a.py".toList "b.py".toList []

theorem newPath_template : template.Listed ∧
    String.ofList template.text = "\x7b\x7bname\x7d\x7d/\x7ba.py => b.py\x7d" ∧
    String.ofList template.newPath = "\x7b\x7bname\x7d\x7d/b.py" ∧
    newPath (.ofList template.text) = "\x7bname\x7d/\x7ba.py => b.py\x7d" ∧
    newPath (.ofList template.text) ≠ .ofList template.newPath :=
  ⟨⟨⟨.inr (by decide), .inl rfl, by decide⟩, by decide, by decide, by decide⟩, by decide, by decide,
    by decide, by decide⟩

end RepoAudit.History
