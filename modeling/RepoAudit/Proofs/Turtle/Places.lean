import Mathlib.Data.List.Basic
import RepoAudit.Rdf.Turtle.Cursor

/-!
# The place of a cursor

A cursor that has read a text from its beginning knows the line and the column of its place. Giving
characters back that are on its line undoes reading them, so that it then stands where it would
stand had it never read them.
-/

namespace RepoAudit.Rdf.Turtle

/-- The line of the place behind some characters. -/
def lineOf (passed : List Char) : Nat := passed.count '\n' + 1

/-- The column of the place behind some characters: those of the last line count. -/
def columnOf (passed : List Char) : Nat := (passed.reverse.takeWhile (· != '\n')).length + 1

theorem lineOf_concat (passed : List Char) (x : Char) :
    lineOf (passed ++ [x]) = if x == '\n' then lineOf passed + 1 else lineOf passed := by
  rw [lineOf, lineOf, List.count_append, List.count_singleton]
  split <;> omega

theorem columnOf_concat (passed : List Char) (x : Char) :
    columnOf (passed ++ [x]) = if x == '\n' then 1 else columnOf passed + 1 := by
  rw [columnOf, columnOf, List.reverse_concat, List.takeWhile_cons]
  by_cases line : x = '\n' <;> simp [line]

namespace Cursor

variable {c : Cursor} {x : Char} {rest : List Char}

/-- The beginning of a text. -/
def start (text : List Char) : Cursor := ⟨[], text, 1, 1⟩

/-- The cursor stands behind the first `n` characters of a text and knows their line and column. -/
structure At (text : List Char) (n : Nat) (c : Cursor) : Prop where
  inside : n ≤ text.length
  before : c.before = (text.take n).reverse
  rest : c.rest = text.drop n
  line : c.line = lineOf (text.take n)
  column : c.column = columnOf (text.take n)

/-! ### Forwards -/

theorem next_cons (ahead : c.rest = x :: rest) : c.next =
    if x == '\n' then ⟨x :: c.before, rest, c.line + 1, 1⟩
    else ⟨x :: c.before, rest, c.line, c.column + 1⟩ := by
  rw [next, ahead]

theorem next_nil (ended : c.rest = []) : c.next = c := by
  rw [next, ended]

theorem advance_add (c : Cursor) : ∀ m n, c.advance (m + n) = (c.advance m).advance n
  | 0, n => by rw [Nat.zero_add, advance]
  | m + 1, n => by rw [Nat.succ_add, advance, advance_add, advance]

/-- Behind its end a text has no characters to read. -/
theorem advance_min (c : Cursor) : ∀ n, c.advance (min n c.rest.length) = c.advance n
  | 0 => by rw [Nat.zero_min]
  | n + 1 => by
    cases ahead : c.rest with
    | nil =>
      rw [List.length_nil, Nat.min_zero, advance, advance, next_nil ahead]
      have stays := advance_min c n
      rwa [ahead, List.length_nil, Nat.min_zero, advance] at stays
    | cons x rest =>
      have more : c.next.rest.length = rest.length := by rw [rest_next, ahead, List.tail_cons]
      rw [List.length_cons, Nat.succ_min_succ, advance, advance, ← more, advance_min]

theorem at_start (text : List Char) : At text 0 (start text) :=
  ⟨Nat.zero_le _, rfl, rfl, rfl, rfl⟩

theorem At.next {text : List Char} {n : Nat} (place : At text n c) (more : n < text.length) :
    At text (n + 1) c.next := by
  have ahead : c.rest = text[n] :: text.drop (n + 1) := by
    rw [place.rest, List.drop_eq_getElem_cons more]
  have passed : text.take (n + 1) = text.take n ++ [text[n]] :=
    List.take_succ_eq_append_getElem more
  rw [next_cons ahead, place.before, place.line, place.column]
  refine ⟨more, ?_, ?_, ?_, ?_⟩
  · rw [passed, List.reverse_concat]
    split <;> rfl
  · split <;> rfl
  · rw [passed, lineOf_concat]
    split <;> rfl
  · rw [passed, columnOf_concat]
    split <;> rfl

/-- Reading on from a place leads to a place. -/
theorem At.advance {text : List Char} : ∀ {k n : Nat} {c : Cursor}, At text n c →
    n + k ≤ text.length → At text (n + k) (c.advance k)
  | 0, _, _, place, _ => place
  | k + 1, n, c, place, more => by
    have onward := (place.next (by omega)).advance (k := k) (by omega)
    rwa [Nat.add_right_comm] at onward

theorem At.exists_advance {text : List Char} {n : Nat} (place : At text n c) (k : Nat) :
    ∃ m, At text m (c.advance k) := by
  have fits : n + min k c.rest.length ≤ text.length := by
    have inside := place.inside
    rw [place.rest, List.length_drop]
    omega
  have onward := place.advance fits
  rw [advance_min] at onward
  exact ⟨_, onward⟩

/-! ### Backwards -/

theorem back_next (ahead : c.rest = x :: rest) (inLine : x ≠ '\n') (k : Nat) :
    c.next.back (k + 1) = c.back k := by
  rw [next_cons ahead, if_neg (by simpa using inLine)]
  obtain ⟨before, _, line, column⟩ := c
  obtain rfl := ahead
  rfl

/-- Characters that are not ends of lines are given back as if they had not been read. -/
theorem back_advance {n : Nat} (fits : n ≤ c.rest.length) : ∀ {k : Nat}, k ≤ n →
    (∀ x ∈ (c.rest.take n).drop (n - k), x ≠ '\n') → (c.advance n).back k = c.advance (n - k)
  | 0, _, _ => rfl
  | k + 1, less, inLine => by
    obtain ⟨n, rfl⟩ : ∃ m, n = m + 1 := ⟨n - 1, by omega⟩
    have ahead : (c.advance n).rest = c.rest[n] :: c.rest.drop (n + 1) := by
      rw [rest_advance, List.drop_eq_getElem_cons fits]
    have split : (c.rest.take (n + 1)).drop (n + 1 - (k + 1)) =
        (c.rest.take n).drop (n - k) ++ [c.rest[n]] := by
      rw [List.take_succ_eq_append_getElem fits, Nat.add_sub_add_right,
        List.drop_append_of_le_length (by rw [List.length_take]; omega)]
    rw [split] at inLine
    have last : c.rest[n] ≠ '\n' := inLine _ (List.mem_append_right _ (.head _))
    rw [advance_add, advance, advance, back_next ahead last, Nat.add_sub_add_right]
    exact back_advance (by omega) (by omega) fun x member =>
      inLine x (List.mem_append_left _ member)

theorem before_advance (c : Cursor) :
    ∀ n, (c.advance n).before = (c.rest.take n).reverse ++ c.before
  | 0 => rfl
  | n + 1 => by
    rw [advance, before_advance, rest_next]
    cases ahead : c.rest with
    | nil => rw [next_nil ahead, List.tail_nil, List.take_nil, List.take_nil]
    | cons x rest =>
      rw [next_cons ahead, List.tail_cons, List.take_succ_cons, List.reverse_cons,
        List.append_assoc]
      split <;> rfl

/-- The last characters that were read are there, and on one line. -/
structure Returnable (c : Cursor) (n : Nat) : Prop where
  there : n ≤ c.before.length
  inLine : ∀ x ∈ c.before.take n, x ≠ '\n'

theorem rest_back (c : Cursor) : ∀ {n : Nat}, n ≤ c.before.length →
    (c.back n).rest.length = c.rest.length + n
  | 0, _ => rfl
  | n + 1, there => by
    obtain ⟨before, rest, line, column⟩ := c
    cases before with
    | nil => cases there
    | cons x before =>
      rw [back, rest_back _ (Nat.le_of_succ_le_succ there), List.length_cons]
      omega

/-- One character before a place there is a place, which is on the same line if it was not ended. -/
theorem At.previous {text before : List Char} {n line column : Nat}
    (place : At text n ⟨x :: before, rest, line, column⟩) (inLine : x ≠ '\n') :
    At text (n - 1) ⟨before, x :: rest, line, column - 1⟩ := by
  obtain ⟨inside, passed, ahead, lines, columns⟩ := place
  cases n with
  | zero => cases passed
  | succ n =>
    have last : text.take (n + 1) = text.take n ++ [text[n]] :=
      List.take_succ_eq_append_getElem inside
    simp only [last, List.reverse_concat, List.cons.injEq] at passed
    obtain ⟨rfl, passed⟩ := passed
    refine ⟨Nat.le_of_succ_le inside, passed, ?_, ?_, ?_⟩
    · exact (List.drop_eq_getElem_cons inside).trans (congrArg _ ahead.symm) |>.symm
    · rw [last, lineOf_concat, if_neg (by simpa using inLine)] at lines
      exact lines
    · rw [last, columnOf_concat, if_neg (by simpa using inLine)] at columns
      exact congrArg (· - 1) columns

/-- Giving back what is on the line of a place leads to a place. -/
theorem At.back {text : List Char} : ∀ {k n : Nat} {c : Cursor}, At text n c → c.Returnable k →
    At text (n - k) (c.back k)
  | 0, _, _, place, _ => place
  | k + 1, n, ⟨before, rest, line, column⟩, place, returnable => by
    cases before with
    | nil => cases returnable.there
    | cons x before =>
      have previous := place.previous (returnable.inLine x (.head _))
      have there : k ≤ before.length := Nat.le_of_succ_le_succ returnable.there
      have inLine : ∀ y ∈ before.take k, y ≠ '\n' := fun y member =>
        returnable.inLine y (.tail _ member)
      have onward := previous.back (k := k) ⟨there, inLine⟩
      rwa [Nat.sub_sub, Nat.add_comm] at onward

end Cursor
end RepoAudit.Rdf.Turtle
