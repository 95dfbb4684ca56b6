import RepoAudit.Proofs.Turtle.Places
import RepoAudit.Proofs.Turtle.Steps

/-!
# The way of a reader

A reader passes a state after each of its steps, and what it comes to is told by what its parts come
to, one after another. What is told of the readers of Turtle is how many characters they take and
how many steps that needs: each character that is taken pays for some steps, and steps that take
none are paid from what earlier ones have left.
-/

namespace RepoAudit.Rdf.Turtle

/-- The number of characters that have not been read. -/
def State.ahead (s : State) : Nat := s.cursor.rest.length

theorem State.ahead_advance (s : State) (n : Nat) :
    (s.at (s.cursor.advance n)).ahead = s.ahead - n := by
  rw [ahead, State.at, Cursor.rest_advance, List.length_drop]
  rfl

theorem State.ahead_at {s : State} {text : List Char} {n : Nat} (place : s.cursor.At text n) :
    s.ahead = text.length - n := by
  rw [ahead, place.rest, List.length_drop]

theorem State.ahead_of_head? {s : State} {c : Char} (found : s.cursor.rest.head? = some c) :
    1 ≤ s.ahead := by
  rw [ahead]
  cases ahead : s.cursor.rest with
  | nil =>
    rw [ahead] at found
    cases found
  | cons => exact Nat.succ_pos _

theorem State.ahead_of_rest {s : State} {k : Nat} {c : Char} {more : List Char}
    (found : s.cursor.rest.drop k = c :: more) : k + 1 ≤ s.ahead := by
  have some : (s.cursor.rest.drop k).length = more.length + 1 := congrArg List.length found
  rw [List.length_drop] at some
  unfold ahead
  omega

theorem length_of_startsWithKeyword {keyword cs : List Char}
    (found : startsWithKeyword keyword cs = true) : keyword.length ≤ cs.length := by
  have same := eq_of_beq (Bool.and_eq_true_iff.mp found).1
  have lengths := congrArg List.length same
  rw [List.length_map, List.length_take] at lengths
  omega

namespace Reader

variable {α β : Type} {m : Reader α} {f : α → Reader β} {s t : State} {n : Nat}

/-! ### Step by step -/

/-- The states that are passed, one after each step. -/
def states : Reader α → State → List State
  | finish _, _ => []
  | fail _, _ => []
  | look next, s => s :: (next s).states s
  | move n next, s => s.at (s.cursor.advance n) :: next.states (s.at (s.cursor.advance n))
  | back n next, s => s.at (s.cursor.back n) :: next.states (s.at (s.cursor.back n))
  | learn change next, s => (change s).at s.cursor :: next.states ((change s).at s.cursor)

/-- What a reader comes to from a state on, after `n` steps, if on the way it only gives back what
it may. -/
def Ends (Q : Except SyntaxError α → State → Nat → Prop) : Reader α → State → Nat → Prop
  | finish a, s, n => Q (.ok a) s n
  | fail e, s, n => Q (.error e) s n
  | look next, s, n => (next s).Ends Q s (n + 1)
  | move k next, s, n => next.Ends Q (s.at (s.cursor.advance k)) (n + 1)
  | back k next, s, n => s.cursor.Returnable k ∧ next.Ends Q (s.at (s.cursor.back k)) (n + 1)
  | learn change next, s, n => next.Ends Q ((change s).at s.cursor) (n + 1)

section

variable {Q : Except SyntaxError α → State → Nat → Prop}
  {R : Except SyntaxError β → State → Nat → Prop}

theorem Ends.bind (ends : m.Ends Q s n) (next : ∀ a t k, Q (.ok a) t k → (f a).Ends R t k)
    (failed : ∀ e t k, Q (.error e) t k → R (.error e) t k) : (m >>= f).Ends R s n := by
  change (m.bind f).Ends R s n
  induction m generalizing s n with
  | finish a => exact next a s n ends
  | fail e => exact failed e s n ends
  | look _ ih => exact ih s ends
  | move _ _ ih | learn _ _ ih => exact ih ends
  | back _ _ ih => exact ⟨ends.1, ih ends.2⟩

theorem Ends.mono {Q' : Except SyntaxError α → State → Nat → Prop} (ends : m.Ends Q s n)
    (weaker : ∀ r t k, Q r t k → Q' r t k) : m.Ends Q' s n := by
  induction m generalizing s n with
  | finish a => exact weaker (.ok a) s n ends
  | fail e => exact weaker (.error e) s n ends
  | look _ ih => exact ih s ends
  | move _ _ ih | learn _ _ ih => exact ih ends
  | back _ _ ih => exact ⟨ends.1, ih ends.2⟩

/-- What a reader comes to is found after as many steps as it passes states. -/
theorem Ends.run (ends : m.Ends Q s n) :
    Q (m.run s).1 (m.run s).2 (n + (m.states s).length) := by
  induction m generalizing s n with
  | finish a | fail e => exact ends
  | look next ih =>
    have after := ih s ends
    rwa [Nat.add_right_comm] at after
  | move _ next ih | learn _ next ih =>
    have after := ih ends
    rwa [Nat.add_right_comm] at after
  | back k next ih =>
    have after := ih ends.2
    rwa [Nat.add_right_comm] at after

/-- All states on the way stand at places of the text. -/
theorem Ends.places (ends : m.Ends Q s n) {text : List Char} {k : Nat}
    (place : s.cursor.At text k) : ∀ t ∈ s :: m.states s, ∃ k, t.cursor.At text k := by
  induction m generalizing s n k with
  | finish a | fail e => exact List.forall_mem_singleton.mpr ⟨k, place⟩
  | look next ih => exact List.forall_mem_cons.mpr ⟨⟨k, place⟩, ih s ends place⟩
  | move j next ih =>
    obtain ⟨_, place'⟩ := place.exists_advance j
    exact List.forall_mem_cons.mpr ⟨⟨k, place⟩, ih ends place'⟩
  | back j next ih => exact List.forall_mem_cons.mpr ⟨⟨k, place⟩, ih ends.2 (place.back ends.1)⟩
  | learn change next ih => exact List.forall_mem_cons.mpr ⟨⟨k, place⟩, ih ends place⟩

/-- The last state that is passed is the one that is left behind. -/
theorem getLast_states (m : Reader α) (s : State) :
    (s :: m.states s).getLast (List.cons_ne_nil _ _) = (m.run s).2 := by
  induction m generalizing s with
  | finish a | fail e => rfl
  | look next ih => exact ih s s
  | move k next ih | back k next ih | learn change next ih => exact ih _

end

theorem left_mem_states (m : Reader α) (s : State) :
    (m.run s).2 ∈ s :: m.states s := by
  rw [← getLast_states]
  exact List.getLast_mem _

/-! ### What reading costs -/

/-- A reader that succeeds has taken at least `gain` characters, and 32 steps for each of them would
be `credit` more than it has needed. A reader that fails has needed at most `room` more steps than
that; and it has not met with too deep a nesting if there was enough fuel. -/
def Fares {α : Type} (gain : Nat) (credit room : Int) (enough : Prop) (s : State) (n : Nat) :
    Except SyntaxError α → State → Nat → Prop
  | .ok _, t, m => t.ahead + gain ≤ s.ahead ∧ m + 32 * t.ahead + credit ≤ n + 32 * s.ahead
  | .error e, t, m => m + 32 * t.ahead ≤ n + 32 * s.ahead + room ∧ (enough → e ≠ .tooDeep)

variable {gain gain' : Nat} {credit credit' room room' : Int} {enough enough' : Prop} {n' : Nat}
  {s' : State}

theorem Ends.then (first : m.Ends (Fares gain credit room enough s n) s n)
    (more : n + 32 * s.ahead + room ≤ n' + 32 * s'.ahead + room') (fuel : enough' → enough)
    (next : ∀ a t, ∀ k : Nat, t.ahead + gain ≤ s.ahead →
      k + 32 * t.ahead + credit ≤ n + 32 * s.ahead →
      (f a).Ends (Fares gain' credit' room' enough' s' n') t k) :
    (m >>= f).Ends (Fares gain' credit' room' enough' s' n') s n :=
  first.bind (fun a t k fares => next a t k fares.1 fares.2) fun _ _ _ fares =>
    ⟨fares.1.trans more, fun less => fares.2 (fuel less)⟩

theorem Ends.last (first : m.Ends (Fares gain credit room enough s n) s n)
    (more : n + 32 * s.ahead + room ≤ n' + 32 * s'.ahead + room') (fuel : enough' → enough)
    (gained : s.ahead + gain' ≤ s'.ahead + gain)
    (paid : n + 32 * s.ahead + credit' ≤ n' + 32 * s'.ahead + credit) :
    m.Ends (Fares gain' credit' room' enough' s' n') s n := by
  refine first.mono fun r t k fares => ?_
  cases r with
  | ok a => exact ⟨by have := fares.1; omega, by have := fares.2; omega⟩
  | error e => exact ⟨fares.1.trans more, fun less => fares.2 (fuel less)⟩

theorem Ends.map {g : α → β} (first : m.Ends (Fares gain credit room enough s n) s n)
    (more : n + 32 * s.ahead + room ≤ n' + 32 * s'.ahead + room') (fuel : enough' → enough)
    (gained : s.ahead + gain' ≤ s'.ahead + gain)
    (paid : n + 32 * s.ahead + credit' ≤ n' + 32 * s'.ahead + credit) :
    (m >>= fun a => pure (g a)).Ends (Fares gain' credit' room' enough' s' n') s n :=
  first.then more fuel fun _ _ _ _ _ => ⟨by omega, by omega⟩

section

variable {Q : Except SyntaxError β → State → Nat → Prop}

theorem ends_rest {f : List Char → Reader β} (next : (f s.cursor.rest).Ends Q s (n + 1)) :
    (rest >>= f).Ends Q s n := next

theorem ends_peek {f : Option Char → Reader β} (next : (f s.cursor.rest.head?).Ends Q s (n + 1)) :
    (peek >>= f).Ends Q s n := next

theorem ends_know {f : State → Reader β} (next : (f s).Ends Q s (n + 1)) :
    (know >>= f).Ends Q s n := next

theorem ends_giveBack {k : Nat} {f : Unit → Reader β} (returnable : s.cursor.Returnable k)
    (next : ∀ t, t.ahead = s.ahead + k → (f ()).Ends Q t (n + 1)) : (giveBack k >>= f).Ends Q s n :=
  ⟨returnable, next _ (s.cursor.rest_back returnable.there)⟩

theorem ends_take {k : Nat} {f : Unit → Reader β}
    (next : ∀ t, t.ahead = s.ahead - k → (f ()).Ends Q t (n + 1)) : (take k >>= f).Ends Q s n :=
  next _ (s.ahead_advance k)

theorem ends_learned {change : State → State} {f : Unit → Reader β}
    (next : ∀ t, t.ahead = s.ahead → (f ()).Ends Q t (n + 1)) : (learned change >>= f).Ends Q s n :=
  next _ rfl

theorem ends_atKeyword {keyword : String} {f : Bool → Reader β}
    (next : (f (startsWithKeyword keyword.toList s.cursor.rest)).Ends Q s (n + 1)) :
    (atKeyword keyword >>= f).Ends Q s n := next

theorem ends_skipSpace {f : Unit → Reader β}
    (next : ∀ t, t.ahead ≤ s.ahead → (f ()).Ends Q t (n + 2)) : (skipSpace >>= f).Ends Q s n :=
  next _ ((s.ahead_advance _).trans_le (Nat.sub_le _ _))

end

/-! ### Characters -/

variable (s n)

theorem ends_expect (c : Char) : (expect c).Ends (Fares 1 28 3 True s n) s n := by
  refine ends_skipSpace fun t less => ends_peek ?_
  split
  next found =>
    have there := State.ahead_of_head? found
    have taken := t.ahead_advance 1
    exact ⟨by omega, by omega⟩
  · exact ⟨by omega, nofun⟩

variable {s n}

theorem ends_scan (g : List Char → Scan α) : (scan g).Ends (fun r t m =>
    r = (g s.cursor.rest).result ∧ t = s.at (s.cursor.advance (g s.cursor.rest).taken) ∧
      m = n + 2) s n := by
  refine ends_rest ?_
  change (ofResult (g s.cursor.rest).result).Ends _
    (s.at (s.cursor.advance (g s.cursor.rest).taken)) (n + 2)
  cases (g s.cursor.rest).result <;> exact ⟨rfl, rfl, rfl⟩

theorem fares_scan {g : List Char → Scan α} (shallow : (g s.cursor.rest).Shallow) {k : Nat}
    (takes : ∀ a, (g s.cursor.rest).result = .ok a →
      s.ahead - (g s.cursor.rest).taken + k ≤ s.ahead) :
    (scan g).Ends (Fares k (32 * k - 2) 2 True s n) s n := by
  refine (ends_scan g).mono fun r t m => ?_
  rintro ⟨rfl, rfl, rfl⟩
  have taken := s.ahead_advance (g s.cursor.rest).taken
  cases result : (g s.cursor.rest).result with
  | ok a =>
    have gained := takes a result
    exact ⟨by omega, by omega⟩
  | error e => exact ⟨by omega, fun _ same => shallow (result.trans (congrArg _ same))⟩

end Reader
end RepoAudit.Rdf.Turtle
