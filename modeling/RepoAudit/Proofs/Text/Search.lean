import Mathlib.Data.List.TakeWhile
import RepoAudit.Text.Search

/-!
# What a search finds

A search that finds nothing has found nothing at any place. Where no find reaches from one text into
the next, the finds of both together are those of the first and then those of the second.
-/

namespace RepoAudit.Text

variable {α : Type} {step : Step α} {xs ys : List Char}

theorem getLast?_cons_or (c : Char) (cs : List Char) (before : Option Char) :
    (c :: cs).getLast?.or before = cs.getLast?.or (some c) := by
  rw [List.getLast?_cons]
  cases cs.getLast? <;> rfl

/-- Goes on with `ys` behind a find. -/
def followedBy (ys : List Char) (found : α × List Char) : α × List Char :=
  (found.1, found.2 ++ ys)

/-- What a step finds within `xs` does not depend on what comes behind `xs`. -/
def Step.Within (step : Step α) (xs ys : List Char) : Prop :=
  ∀ zs, zs ≠ [] → zs <:+ xs →
    ∀ before, step before (zs ++ ys) = (step before zs).map (followedBy ys)

theorem Step.Within.tail {c : Char} (within : step.Within (c :: xs) ys) : step.Within xs ys :=
  fun zs filled ends => within zs filled (ends.trans (List.suffix_cons c xs))

theorem findAll_append (within : step.Within xs ys) {skip : Nat} (short : skip ≤ xs.length)
    (before : Option Char) : findAll step skip before (xs ++ ys) =
      findAll step skip before xs ++ findAll step 0 (xs.getLast?.or before) ys := by
  induction xs generalizing skip before with
  | nil =>
    obtain rfl := Nat.le_zero.mp short
    rfl
  | cons c xs ih =>
    rw [getLast?_cons_or, List.cons_append]
    cases skip with
    | succ skip => exact ih within.tail (Nat.le_of_succ_le_succ short) (some c)
    | zero =>
      have here := within (c :: xs) (List.cons_ne_nil c xs) (List.suffix_refl _) before
      rw [List.cons_append] at here
      rw [findAll, here, findAll]
      cases step before (c :: xs) with
      | none => exact ih within.tail (Nat.zero_le _) (some c)
      | some found =>
        have skipped : (xs ++ ys).length - (found.2 ++ ys).length = xs.length - found.2.length := by
          simp only [List.length_append]
          omega
        simp only [Option.map_some, followedBy, skipped, List.cons_append]
        rw [ih within.tail (Nat.sub_le _ _) (some c)]

/-- The finds of two texts, if a step finds the same at the start of the second text as behind the
first. -/
theorem finds_append (within : step.Within xs ys) (begins : step xs.getLast? ys = step none ys) :
    finds step (xs ++ ys) = finds step xs ++ finds step ys := by
  rw [finds, findAll_append within (Nat.zero_le _), Option.or_none]
  cases ys with
  | nil => rfl
  | cons c ys => simp only [finds, findAll, begins]

theorem findAll_eq_nil_iff {before : Option Char} : findAll step 0 before xs = [] ↔
    ∀ as c bs, xs = as ++ c :: bs → step (as.getLast?.or before) (c :: bs) = none := by
  induction xs generalizing before with
  | nil => simp [findAll]
  | cons c xs ih =>
    rw [findAll]
    cases here : step before (c :: xs) with
    | some found =>
      refine iff_of_false (List.cons_ne_nil _ _) fun never => ?_
      have absent := never [] c xs rfl
      rw [List.getLast?_nil, Option.none_or, here] at absent
      cases absent
    | none =>
      refine ih.trans ⟨fun later as d bs split => ?_, fun never as d bs split => ?_⟩
      · cases as with
        | nil =>
          obtain ⟨rfl, rfl⟩ := List.cons.inj split
          exact here
        | cons e as =>
          obtain ⟨rfl, rfl⟩ := List.cons.inj split
          rw [getLast?_cons_or]
          exact later as d bs rfl
      · rw [← getLast?_cons_or]
        exact never (c :: as) d bs (congrArg (c :: ·) split)

/-! ### Words -/

/-- A word is found where one begins, and all of it. -/
theorem wordAt_eq_some_iff {before : Option Char} {cs word rest : List Char} :
    wordAt before cs = some (word, rest) ↔ noWord before = true ∧ word ≠ [] ∧
      (∀ c ∈ word, isWord c = true) ∧ noWord rest.head? = true ∧ cs = word ++ rest := by
  unfold wordAt
  dsimp only
  constructor
  · intro found
    split at found
    · rename_i begins
      obtain ⟨rfl, rfl⟩ := Prod.mk.inj (Option.some.inj found)
      obtain ⟨apart, filled⟩ := Bool.and_eq_true_iff.mp begins
      refine ⟨apart, by simpa using filled, fun c => List.mem_takeWhile_imp, ?_,
        List.takeWhile_append_dropWhile.symm⟩
      have ends := List.head?_dropWhile_not isWord cs
      cases head : (cs.dropWhile isWord).head? with
      | none => rfl
      | some c => simpa [head, noWord] using ends
    · cases found
  · rintro ⟨begins, filled, all, ends, rfl⟩
    have stops : rest.takeWhile isWord = [] ∧ rest.dropWhile isWord = rest := by
      cases rest with
      | nil => exact ⟨rfl, rfl⟩
      | cons c rest =>
        have other : isWord c = false := by simpa [noWord] using ends
        exact ⟨List.takeWhile_cons_of_neg (by simp [other]),
          List.dropWhile_cons_of_neg (by simp [other])⟩
    rw [List.takeWhile_append_of_pos all, List.dropWhile_append_of_pos all, stops.1, stops.2,
      List.append_nil, begins]
    simp [filled]

/-- A word ends before the first character that belongs to none. -/
theorem wordAt_append {c : Char} (apart : isWord c = false) (member : c ∈ xs)
    (before : Option Char) :
    wordAt before (xs ++ ys) = (wordAt before xs).map (followedBy ys) := by
  have stops : ¬ ∀ d ∈ xs, isWord d = true := fun all => by simp [all c member] at apart
  have word : (xs ++ ys).takeWhile isWord = xs.takeWhile isWord := by
    rw [List.takeWhile_append, if_neg]
    exact fun whole => stops (List.takeWhile_eq_self_iff.mp
      ((List.takeWhile_prefix isWord).eq_of_length whole))
  have rest : (xs ++ ys).dropWhile isWord = xs.dropWhile isWord ++ ys := by
    rw [List.dropWhile_append, if_neg]
    rwa [List.isEmpty_iff, List.dropWhile_eq_nil_iff]
  rw [wordAt, wordAt, word, rest]
  split <;> rfl

end RepoAudit.Text
