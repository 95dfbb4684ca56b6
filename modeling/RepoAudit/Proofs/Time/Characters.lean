import Mathlib.Data.List.TakeWhile
import RepoAudit.Time.Reader

/-!
# The characters of times

A text that is read in the form of RFC 3339 has no characters but digits, signs and the marks
between the parts, so it can stand between separators.
-/

namespace RepoAudit.Time

def isTimeChar (c : Char) : Bool :=
  c.isDigit || ['-', '+', '\u2212', ':', '.', 'T', 't', 'Z', 'z', ' '].contains c

/-- Only characters of times stand before what is left of a text. -/
def Taken (cs rest : List Char) : Prop :=
  ∃ used, cs = used ++ rest ∧ ∀ c ∈ used, isTimeChar c = true

theorem taken_refl (cs : List Char) : Taken cs cs := ⟨[], rfl, by simp⟩

theorem Taken.trans {cs more rest : List Char} (first : Taken cs more) (second : Taken more rest) :
    Taken cs rest := by
  obtain ⟨used, rfl, plain⟩ := first
  obtain ⟨used', rfl, plain'⟩ := second
  exact ⟨used ++ used', (List.append_assoc ..).symm, List.forall_mem_append.mpr ⟨plain, plain'⟩⟩

theorem Taken.cons {c : Char} {cs rest : List Char} (plain : isTimeChar c = true)
    (taken : Taken cs rest) : Taken (c :: cs) rest := by
  obtain ⟨used, rfl, plain'⟩ := taken
  exact ⟨c :: used, rfl, List.forall_mem_cons.mpr ⟨plain, plain'⟩⟩

theorem taken_dropWhile (cs : List Char) : Taken cs (cs.dropWhile Char.isDigit) := by
  refine ⟨cs.takeWhile Char.isDigit, List.takeWhile_append_dropWhile.symm, fun c inside => ?_⟩
  rw [isTimeChar, List.mem_takeWhile_imp inside, Bool.true_or]

namespace Read

variable {α β : Type}

/-- A step that reads no other characters. -/
def Takes (r : Read α) : Prop := ∀ cs a rest, r.run cs = some (a, rest) → Taken cs rest

theorem takes_pure (a : α) : Takes (pure a) := by
  intro cs b rest read
  obtain ⟨rfl, rfl⟩ := Prod.mk.inj (Option.some.inj read)
  exact taken_refl cs

theorem takes_fail : Takes (fail : Read α) := by
  intro cs a rest read
  cases read

theorem Takes.bind {r : Read α} {f : α → Read β} (first : Takes r) (later : ∀ a, Takes (f a)) :
    Takes (r >>= f) := by
  intro cs b rest read
  rw [StateT.run_bind] at read
  obtain ⟨⟨a, more⟩, ran, read⟩ := Option.bind_eq_some_iff.mp read
  exact (first cs a more ran).trans (later a more b rest read)

theorem Takes.ite {p : Prop} [Decidable p] {r r' : Read α} (first : Takes r) (second : Takes r') :
    Takes (if p then r else r') := by
  split
  · exact first
  · exact second

theorem takes_get {f : List Char → Read β}
    (later : ∀ cs b rest, (f cs).run cs = some (b, rest) → Taken cs rest) : Takes (get >>= f) :=
  fun cs b rest read => later cs b rest read

theorem Takes.set {c : Char} {more rest : List Char} {r : Read α} {a : α} (later : Takes r)
    (plain : isTimeChar c = true) (read : (do set more; r).run (c :: more) = some (a, rest)) :
    Taken (c :: more) rest :=
  (later more a rest read).cons plain

theorem takes_digits (least most : Nat) : Takes (digits least most) := by
  refine takes_get fun cs ds rest read => ?_
  have front : (cs.take most).takeWhile Char.isDigit <+: cs :=
    (List.takeWhile_prefix _).trans (List.take_prefix most cs)
  dsimp only at read
  split at read
  · cases read
  · obtain ⟨rfl, rfl⟩ := Prod.mk.inj (Option.some.inj read)
    refine ⟨_, (List.prefix_iff_eq_append.mp front).symm, fun c inside => ?_⟩
    rw [isTimeChar, List.mem_takeWhile_imp inside, Bool.true_or]

theorem takes_number (least most : Nat) : Takes (number least most) :=
  (takes_digits least most).bind fun _ => takes_pure _

theorem takes_char {c : Char} (plain : isTimeChar c = true) : Takes (char c) := by
  refine takes_get fun cs a rest read => ?_
  cases cs with
  | nil => cases read
  | cons d more =>
    dsimp only at read
    split at read
    · rename_i same
      obtain rfl := beq_iff_eq.mp same
      exact Takes.set (takes_pure ()) plain read
    · cases read

theorem takes_dateTimeMark : Takes dateTimeMark := by
  refine takes_get fun cs a rest read => ?_
  cases cs with
  | nil => cases read
  | cons d more =>
    dsimp only at read
    split at read
    · rename_i mark
      simp only [Bool.or_eq_true, beq_iff_eq] at mark
      refine Takes.set (takes_pure ()) ?_ read
      obtain (rfl | rfl) | rfl := mark <;> rfl
    · cases read

theorem takes_fraction : Takes fraction := by
  have skipped : Takes (modify fun cs => cs.dropWhile Char.isDigit) := by
    intro cs a rest read
    obtain ⟨-, rfl⟩ := Prod.mk.inj (Option.some.inj read)
    exact taken_dropWhile cs
  refine takes_get fun cs a rest read => ?_
  split at read
  · exact Takes.set ((takes_digits 1 9).bind fun _ => skipped.bind fun _ => takes_pure _) rfl read
  · exact takes_pure 0 cs a rest read

theorem takes_offset {separator : Read Unit} (plain : Takes separator) :
    Takes (offset separator) := by
  refine takes_get fun cs a rest read => ?_
  cases cs with
  | nil => cases read
  | cons d more =>
    dsimp only at read
    split at read
    · rename_i zulu
      simp only [Bool.or_eq_true, beq_iff_eq] at zulu
      refine Takes.set (takes_pure 0) ?_ read
      obtain rfl | rfl := zulu <;> rfl
    have checked (size : Int) (a : Int) : Takes (if size ≥ 24 * 60 then do fail; pure a
        else pure a) := .ite (takes_fail.bind fun _ => takes_pure a) (takes_pure a)
    split at read
    · rename_i sign
      simp only [Bool.or_eq_true, beq_iff_eq] at sign
      refine Takes.set (?_ : Takes _) ?_ read
      · exact (takes_number 2 2).bind fun _ => plain.bind fun _ => (takes_number 2 2).bind fun _ =>
          .ite (takes_fail.bind fun _ => checked _ _) (checked _ _)
      · obtain (rfl | rfl) | rfl := sign <;> rfl
    · cases read

theorem takes_strictInstant : Takes strictInstant :=
  (takes_number 4 4).bind fun _ => (takes_char rfl).bind fun _ =>
  (takes_number 2 2).bind fun _ => (takes_char rfl).bind fun _ =>
  (takes_number 2 2).bind fun _ => takes_dateTimeMark.bind fun _ =>
  (takes_number 2 2).bind fun _ => (takes_char rfl).bind fun _ =>
  (takes_number 2 2).bind fun _ => (takes_char rfl).bind fun _ =>
  (takes_number 2 2).bind fun _ => takes_fraction.bind fun _ =>
  (takes_offset (takes_char rfl)).bind fun _ => takes_pure _

end Read

theorem isTimeChar_of_rfc3339? {cs : List Char} {t : Instant} (read : rfc3339? cs = some t) :
    ∀ c ∈ cs, isTimeChar c = true := by
  obtain ⟨⟨found, rest⟩, ran, ended⟩ :=
    Option.bind_eq_some_iff.mp (Option.join_eq_some_iff.mp read)
  obtain ⟨used, rfl, plain⟩ := Read.takes_strictInstant cs found rest ran
  dsimp only at ended
  split at ended
  · rename_i nothing
    rw [List.isEmpty_iff.mp nothing, List.append_nil]
    exact plain
  · cases ended

end RepoAudit.Time
