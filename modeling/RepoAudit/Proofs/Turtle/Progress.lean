import RepoAudit.Proofs.Turtle.LocalNames
import RepoAudit.Proofs.Turtle.Outcomes

/-!
# Reading makes progress

Whatever is read takes at least one character, dots that are given back or not, and no more steps
than its characters pay for. So a text is read, or found faulty, in a number of steps that its
length bounds, and all the time the reader knows the line and the column of its place.
-/

namespace RepoAudit.Rdf.Turtle
namespace Reader

variable {α β : Type} {s : State} {n : Nat}

/-! ### Terms without parts -/

variable (s n)

theorem ends_iriRef : iriRef.Ends (Fares 1 25 3 True s n) s n := by
  refine (ends_expect s n '<').then (Int.le_refl _) id fun _ t m gained paid => ?_
  refine (fares_scan (shallow_scanIri _) (k := 0) fun _ _ => Nat.sub_le _ _).then (by omega) id
    fun _ u k gained' paid' => ?_
  exact ends_know ⟨by omega, by omega⟩

theorem ends_freshBlank : freshBlank.Ends (Fares 0 (-2) 0 True s n) s n :=
  ends_know (ends_learned fun t same => ⟨by omega, by omega⟩)

theorem ends_number : number.Ends (Fares 1 30 2 True s n) s n := by
  refine (fares_scan (shallow_scanNumber _) (k := 1) fun a found => ?_).then (by omega) id
    fun _ t m gained paid => ⟨by omega, by omega⟩
  obtain ⟨some, takes⟩ := scanNumber_takes found
  have := List.length_pos_iff.mpr some
  unfold State.ahead
  omega

/-- The local part of a name does not end before it begins, though its dots are given back. -/
theorem ends_local {Q : Except SyntaxError β → State → Nat → Prop} {f : List Char → Reader β}
    (found : ∀ part t, t.ahead ≤ s.ahead → (f part).Ends Q t (n + 3))
    (failed : ∀ e t, t.ahead ≤ s.ahead → e ≠ .tooDeep → Q (.error e) t (n + 2)) :
    (scan scanLocal >>= fun part =>
      giveBack (trailingDots part) >>= fun _ => f part).Ends Q s n := by
  have taken := s.ahead_advance (scanLocal s.cursor.rest).taken
  refine (ends_scan scanLocal).bind (fun part t m => ?_) fun e t m => ?_
  · rintro ⟨result, rfl, rfl⟩
    obtain ⟨text, left, ahead, spells, length⟩ := exists_spells result.symm
    have fits := spells.trailing.1
    have more : text.length ≤ s.ahead := by
      rw [State.ahead, ahead, List.length_append]
      exact Nat.le_add_right _ _
    rw [length] at taken ⊢
    exact ends_giveBack (spells.returnable ahead) fun t back => found part t (by omega)
  · rintro ⟨result, rfl, rfl⟩
    refine failed e _ (by omega) fun same => ?_
    exact shallow_scanLocal _ (result.symm.trans (congrArg _ same))

theorem ends_prefixedName : prefixedName.Ends (Fares 1 25 2 True s n) s n := by
  refine ends_rest ?_
  refine ends_take fun t taken => ?_
  split
  next => exact ⟨by omega, fun _ same => by cases same⟩
  next colon =>
    split
    · exact ⟨by omega, fun _ same => by cases same⟩
    · have there := State.ahead_of_rest colon
      refine ends_take fun u taken' => ends_local u _ (fun part v less => ends_know ?_)
        fun e v less other => ⟨by omega, fun _ => other⟩
      split
      · exact ⟨by omega, by omega⟩
      · exact ⟨by omega, fun _ same => by cases same⟩

theorem ends_blankLabel (two : 2 ≤ s.ahead) : blankLabel.Ends (Fares 2 25 0 True s n) s n := by
  refine ends_take fun t taken => ends_rest ?_
  have named : ∀ c ∈ t.cursor.rest.takeWhile isNameChar, isNameChar c = true :=
    fun c member => List.mem_takeWhile_imp member
  have fits := trailingDots_le (t.cursor.rest.takeWhile isNameChar)
  have less : (t.cursor.rest.takeWhile isNameChar).length ≤ t.ahead :=
    (List.takeWhile_sublist _).length_le
  have taken' := t.ahead_advance (t.cursor.rest.takeWhile isNameChar).length
  refine ends_giveBack ((spells_self named).returnable
    (List.takeWhile_append_dropWhile (p := isNameChar)).symm) fun u back => ends_know ?_
  split
  · exact ⟨by omega, by omega⟩
  · refine (ends_freshBlank u _).then (by omega) id fun _ v k gained paid => ?_
    exact ends_learned fun w same => ⟨by omega, by omega⟩

theorem ends_literal : literal.Ends (Fares 1 25 2 True s n) s n := by
  refine (fares_scan (shallow_scanQuoted _) (k := 1) fun a found => ?_).then (by omega) id
    fun _ t m gained paid => ends_rest ?_
  · obtain ⟨some, takes⟩ := scanQuoted_takes found
    have := List.length_pos_iff.mpr some
    unfold State.ahead
    omega
  split
  · refine ends_take fun u taken => ?_
    exact (fares_scan (shallow_scanLang _) (k := 0) fun _ _ => Nat.sub_le _ _).map (by omega) id
      (by omega) (by omega)
  · refine ends_take fun u taken => ends_peek ?_
    split
    · exact (ends_iriRef u _).map (by omega) id (by omega) (by omega)
    · exact (ends_prefixedName u _).map (by omega) id (by omega) (by omega)
  · exact ⟨by omega, by omega⟩

theorem ends_verb : verb.Ends (Fares 1 22 6 True s n) s n := by
  refine ends_skipSpace fun t less => ends_rest ?_
  split
  next type =>
    have there := State.ahead_of_rest (k := 0) type
    split
    · exact ends_take fun u taken => ⟨by omega, by omega⟩
    · exact (ends_prefixedName t _).map (by omega) id (by omega) (by omega)
  · exact (ends_iriRef t _).map (by omega) id (by omega) (by omega)
  · exact ⟨by omega, nofun⟩
  · exact (ends_prefixedName t _).map (by omega) id (by omega) (by omega)

/-! ### Terms and statements with parts -/

theorem ends_skipSemicolons : ∀ k s n, (skipSemicolons k).Ends (Fares 0 (-1) 0 True s n) s n
  | 0, _, _ => ⟨by omega, by omega⟩
  | k + 1, s, n => by
    refine ends_peek ?_
    split
    next found =>
      have there := State.ahead_of_head? found
      refine ends_take fun t taken => ends_skipSpace fun u less => ?_
      exact (ends_skipSemicolons k u _).last (by omega) id (by omega) (by omega)
    · exact ⟨by omega, by omega⟩

/-- What the mutual productions cost with some fuel. -/
structure Paid (fuel : Nat) : Prop where
  object : ∀ s n, (object fuel).Ends (Fares 1 19 12 (4 * s.ahead + 2 ≤ fuel) s n) s n
  node : ∀ s n, (blankNodePropertyList fuel).Ends (Fares 1 22 8 (4 * s.ahead + 1 ≤ fuel) s n) s n
  collection : ∀ s n, (collection fuel).Ends (Fares 1 22 8 (4 * s.ahead + 1 ≤ fuel) s n) s n
  items : ∀ s n, (collectionItems fuel).Ends (Fares 1 0 16 (4 * s.ahead + 3 ≤ fuel) s n) s n
  properties : ∀ x s n,
    (predicateObjectList fuel x).Ends (Fares 1 0 8 (4 * s.ahead + 1 ≤ fuel) s n) s n
  objects : ∀ x y s n, (objectList fuel x y).Ends (Fares 1 15 12 (4 * s.ahead + 3 ≤ fuel) s n) s n

section

variable {fuel : Nat} (paid : Paid fuel)

include paid

theorem ends_object :
    (object (fuel + 1)).Ends (Fares 1 19 12 (4 * s.ahead + 2 ≤ fuel + 1) s n) s n := by
  refine ends_skipSpace fun t less => ends_rest ?_
  split
  · exact ⟨by omega, nofun⟩
  next label =>
    have two := State.ahead_of_rest (k := 1) (congrArg (List.drop 1) label)
    exact (ends_blankLabel t _ two).last (by omega) (fun _ => trivial) (by omega) (by omega)
  next other =>
    split
    · exact (ends_iriRef t _).map (by omega) (fun _ => trivial) (by omega) (by omega)
    split
    · exact (paid.node t _).last (by omega) (by omega) (by omega) (by omega)
    split
    · exact (paid.collection t _).last (by omega) (by omega) (by omega) (by omega)
    split
    · exact (ends_literal t _).last (by omega) (fun _ => trivial) (by omega) (by omega)
    split
    · exact (ends_number t _).last (by omega) (fun _ => trivial) (by omega) (by omega)
    refine ends_atKeyword ?_
    split
    next found =>
      have four : 4 ≤ t.ahead := length_of_startsWithKeyword found
      exact ends_take fun u taken => ⟨by omega, by omega⟩
    refine ends_atKeyword ?_
    split
    next found =>
      have five : 5 ≤ t.ahead := length_of_startsWithKeyword found
      exact ends_take fun u taken => ⟨by omega, by omega⟩
    · exact (ends_prefixedName t _).map (by omega) (fun _ => trivial) (by omega) (by omega)

theorem ends_node : (blankNodePropertyList (fuel + 1)).Ends
    (Fares 1 22 8 (4 * s.ahead + 1 ≤ fuel + 1) s n) s n := by
  refine (ends_expect s n '[').then (by omega) (fun _ => trivial) fun _ t m gained cost => ?_
  refine (ends_freshBlank t m).then (by omega) (fun _ => trivial) fun node u k gained' cost' => ?_
  refine ends_skipSpace fun v less => ends_peek ?_
  have last (w : State) (l : Nat) (gone : w.ahead ≤ v.ahead)
      (cost : l + 32 * w.ahead ≤ k + 3 + 32 * v.ahead) :
      (expect ']' >>= fun _ => pure node).Ends
        (Fares 1 22 8 (4 * s.ahead + 1 ≤ fuel + 1) s n) w l :=
    (ends_expect w l ']').map (by omega) (fun _ => trivial) (by omega) (by omega)
  split
  · exact (paid.properties node v _).then (by omega) (by omega) fun _ w l gained'' cost'' =>
      last w l (by omega) (by omega)
  · exact last v _ (by omega) (by omega)

theorem ends_collection : (collection (fuel + 1)).Ends
    (Fares 1 22 8 (4 * s.ahead + 1 ≤ fuel + 1) s n) s n := by
  refine (ends_expect s n '(').then (by omega) (fun _ => trivial) fun _ t m gained cost => ?_
  refine (paid.items t m).then (by omega) (by omega) fun _ u k gained' cost' => ?_
  exact ends_know (ends_learned fun v same => ⟨by omega, by omega⟩)

theorem ends_items : (collectionItems (fuel + 1)).Ends
    (Fares 1 0 16 (4 * s.ahead + 3 ≤ fuel + 1) s n) s n := by
  refine ends_skipSpace fun t less => ends_peek ?_
  split
  · exact ⟨by omega, nofun⟩
  next found =>
    have there := State.ahead_of_head? found
    split
    · exact ends_take fun u taken => ⟨by omega, by omega⟩
    · refine (paid.object t _).then (by omega) (by omega) fun _ u k gained cost => ?_
      exact (paid.items u k).map (by omega) (by omega) (by omega) (by omega)

theorem ends_properties (x : Term) : (predicateObjectList (fuel + 1) x).Ends
    (Fares 1 0 8 (4 * s.ahead + 1 ≤ fuel + 1) s n) s n := by
  refine (ends_verb s n).then (by omega) (fun _ => trivial) fun _ t m gained cost => ?_
  refine (paid.objects x _ t m).then (by omega) (by omega) fun _ u k gained' cost' => ?_
  refine ends_skipSpace fun v less => ends_peek ?_
  split
  · refine ends_rest ((ends_skipSemicolons _ v _).then (by omega) (fun _ => trivial)
      fun _ w l gained'' cost'' => ends_peek ?_)
    split
    · exact ⟨by omega, by omega⟩
    · split
      · exact (paid.properties x w _).last (by omega) (by omega) (by omega) (by omega)
      · exact ⟨by omega, by omega⟩
  · exact ⟨by omega, by omega⟩

theorem ends_objects (x y : Term) : (objectList (fuel + 1) x y).Ends
    (Fares 1 15 12 (4 * s.ahead + 3 ≤ fuel + 1) s n) s n := by
  refine (paid.object s n).then (by omega) (by omega) fun _ t m gained cost => ?_
  refine ends_learned fun u same => ends_skipSpace fun v less => ends_peek ?_
  split
  next found =>
    have there := State.ahead_of_head? found
    refine ends_take fun w taken => ?_
    exact (paid.objects x y w _).last (by omega) (by omega) (by omega) (by omega)
  · exact ⟨by omega, by omega⟩

end

/-- Whatever the fuel is, it is only missed where it is too little. -/
theorem paid : ∀ fuel, Paid fuel
  | 0 => by
    constructor
    all_goals
      intros
      exact ⟨by omega, by omega⟩
  | fuel + 1 =>
    ⟨fun s n => ends_object s n (paid fuel), fun s n => ends_node s n (paid fuel),
      fun s n => ends_collection s n (paid fuel), fun s n => ends_items s n (paid fuel),
      fun x s n => ends_properties s n (paid fuel) x,
      fun x y s n => ends_objects s n (paid fuel) x y⟩

variable (fuel : Nat)

theorem ends_subject : (subject fuel).Ends (Fares 1 19 12 (4 * s.ahead + 1 ≤ fuel) s n) s n := by
  refine ends_skipSpace fun t less => ends_rest ?_
  split
  · exact ⟨by omega, nofun⟩
  next label =>
    have two := State.ahead_of_rest (k := 1) (congrArg (List.drop 1) label)
    exact (ends_blankLabel t _ two).last (by omega) (fun _ => trivial) (by omega) (by omega)
  next other =>
    split
    · exact (ends_iriRef t _).map (by omega) (fun _ => trivial) (by omega) (by omega)
    split
    · exact ((paid fuel).collection t _).last (by omega) (by omega) (by omega) (by omega)
    · exact (ends_prefixedName t _).map (by omega) (fun _ => trivial) (by omega) (by omega)

theorem ends_triples : (triples fuel).Ends (Fares 1 16 16 (4 * s.ahead + 1 ≤ fuel) s n) s n := by
  refine ends_skipSpace fun t less => ends_peek ?_
  split
  · refine ((paid fuel).node t _).then (by omega) (by omega) fun node u m gained cost => ?_
    refine ends_skipSpace fun v less' => ends_peek ?_
    split
    · exact ((paid fuel).properties node v _).last (by omega) (by omega) (by omega) (by omega)
    · exact ⟨by omega, by omega⟩
  · refine (ends_subject t _ fuel).then (by omega) (by omega) fun x u m gained cost => ?_
    exact ((paid fuel).properties x u m).last (by omega) (by omega) (by omega) (by omega)

/-! ### Documents -/

theorem ends_prefixDecl : prefixDecl.Ends (Fares 1 16 16 True s n) s n := by
  refine ends_skipSpace fun t less => ends_rest (ends_take fun u taken => ?_)
  have onward (change : String → State → State) :
      (expect ':' >>= fun _ => skipSpace >>= fun _ => iriRef >>= fun iri =>
        learned (change iri)).Ends (Fares 1 16 16 True s n) u (n + 2 + 1 + 1) := by
    refine (ends_expect u _ ':').then (by omega) id fun _ v m gained cost => ?_
    refine ends_skipSpace fun w less' => ?_
    refine (ends_iriRef w _).then (by omega) id fun iri x k gained' cost' => ?_
    exact ends_learned fun y same => ⟨by omega, by omega⟩
  cases t.cursor.rest.drop (t.cursor.rest.takeWhile isNameChar).length with
  | nil => exact onward _
  | cons c more =>
    dsimp only
    split
    · exact ⟨by omega, fun _ same => by cases same⟩
    · exact onward _

theorem ends_baseDecl : baseDecl.Ends (Fares 1 16 16 True s n) s n := by
  refine ends_skipSpace fun t less => ?_
  refine (ends_iriRef t _).then (by omega) id fun _ u m gained cost => ?_
  exact ends_learned fun v same => ⟨by omega, by omega⟩

theorem ends_statement :
    (statement fuel).Ends (Fares 1 3 24 (4 * s.ahead + 1 ≤ fuel) s n) s n := by
  refine ends_atKeyword ?_
  split
  · refine ends_take fun t taken => ?_
    refine (ends_prefixDecl t _).then (by omega) (fun _ => trivial) fun _ u m gained cost => ?_
    exact (ends_expect u m '.').last (by omega) (fun _ => trivial) (by omega) (by omega)
  refine ends_atKeyword ?_
  split
  · refine ends_take fun t taken => ?_
    refine (ends_baseDecl t _).then (by omega) (fun _ => trivial) fun _ u m gained cost => ?_
    exact (ends_expect u m '.').last (by omega) (fun _ => trivial) (by omega) (by omega)
  refine ends_atKeyword ?_
  split
  · refine ends_take fun t taken => ?_
    exact (ends_prefixDecl t _).last (by omega) (fun _ => trivial) (by omega) (by omega)
  refine ends_atKeyword ?_
  split
  · refine ends_take fun t taken => ?_
    exact (ends_baseDecl t _).last (by omega) (fun _ => trivial) (by omega) (by omega)
  · refine (ends_triples s _ fuel).then (by omega) id fun _ t m gained cost => ?_
    exact (ends_expect t m '.').last (by omega) (fun _ => trivial) (by omega) (by omega)

theorem ends_statements : ∀ k s n,
    (statements fuel k).Ends (Fares 0 (-3) 32 (4 * s.ahead + 1 ≤ fuel) s n) s n
  | 0, _, _ => ⟨by omega, by omega⟩
  | k + 1, s, n => by
    refine ends_skipSpace fun t less => ends_peek ?_
    split
    · refine (ends_statement t _ fuel).then (by omega) (by omega) fun _ u m gained cost => ?_
      exact (ends_statements k u m).last (by omega) (by omega) (by omega) (by omega)
    · exact ⟨by omega, by omega⟩

theorem ends_document : document.Ends (Fares 0 (-4) 33 True s n) s n := by
  refine ends_rest ((ends_statements _ _ s _).last (by omega) (fun _ => ?_) (by omega) (by omega))
  exact Nat.add_le_add_left (by omega) _

/-- Statements that are read without fault reach up to the end of the text, if as many are allowed
as there are characters. -/
theorem statements_whole : ∀ k s n, (statements fuel k).Ends
    (fun r t _ => r = .ok () → s.ahead < k → t.cursor.rest = []) s n
  | 0, _, _ => fun _ less => absurd less (Nat.not_lt_zero _)
  | k + 1, s, n => by
    refine ends_skipSpace fun t less => ends_peek ?_
    split
    · refine (ends_statement t _ fuel).bind (fun _ u m fares => ?_) fun _ _ _ _ => nofun
      refine (statements_whole k u m).mono fun r v _ whole ok more => whole ok ?_
      have gained := fares.1
      omega
    next ended =>
      rw [Option.isSome_iff_ne_none, not_not, List.head?_eq_none_iff] at ended
      exact fun _ _ => ended

theorem document_whole : document.Ends (fun r t _ => r = .ok () → t.cursor.rest = []) s n :=
  ends_rest ((statements_whole _ _ s _).mono fun _ _ _ whole ok => whole ok (Nat.lt_succ_self _))

/-! ### The way through a text -/

/-- A reader that succeeds has moved on in the text. -/
def Consumes (m : Reader α) : Prop :=
  ∀ text n s, s.cursor.At text n → ∀ a t, m.run s = (.ok a, t) → ∃ k, n < k ∧ t.cursor.At text k

theorem consumes {m : Reader α} {credit room : Int} {enough : State → Prop}
    (ends : ∀ s n, m.Ends (Fares 1 credit room (enough s) s n) s n) : m.Consumes := by
  intro text n s place a t ran
  have fares := (ends s 0).run
  have passed := left_mem_states m s
  rw [ran] at fares passed
  obtain ⟨k, place'⟩ := (ends s 0).places place t passed
  have gained := fares.1
  rw [State.ahead_at place, State.ahead_at place'] at gained
  exact ⟨k, by omega, place'⟩

end Reader

/-- About to read a text into a graph. -/
def State.start (g : Graph) (text : String) : State where
  cursor := .start text.toList
  graph := g

/-- The states on the way through a text, one after each step. -/
def passed (g : Graph) (text : String) : List State :=
  .start g text :: Reader.document.states (.start g text)

theorem run_document (g : Graph) (text : String) : ∃ result last,
    Reader.document.run (.start g text) = (result, last) ∧
    (passed g text).getLast? = some last ∧ (passed g text).length ≤ 32 * text.length + 34 ∧
    (result = .ok () → last.cursor.rest = []) ∧ result ≠ .error .tooDeep := by
  have fares := (Reader.ends_document (.start g text) 0).run
  have whole := (Reader.document_whole (.start g text) 0).run
  have last := Reader.getLast_states Reader.document (.start g text)
  have all : (State.start g text).ahead = text.length := String.length_toList
  cases ran : Reader.document.run (.start g text) with
  | mk result left =>
    rw [ran] at fares whole last
    refine ⟨result, left, rfl, ?_, ?_, whole, ?_⟩
    · rw [passed, List.getLast?_eq_some_getLast (List.cons_ne_nil _ _), last]
    · rw [passed, List.length_cons]
      cases result with
      | ok a =>
        have paid := fares.2
        omega
      | error e =>
        have paid := fares.1
        omega
    · rintro rfl
      exact fares.2 trivial rfl

/-- On its way through a text, also between the characters that are read in one step, the reader
always knows the line and the column of its place, which is where it finds a fault, if there is any.
The way is at most as long as the text allows: each time one of the main parts is read, characters
are taken. -/
theorem readInto_walks (g : Graph) (text source : String) :
    (∀ s ∈ passed g text, ∀ k, ∃ n, (s.cursor.advance k).At text.toList n) ∧
    (passed g text).length ≤ 32 * text.length + 34 ∧
    (∃ last n, (passed g text).getLast? = some last ∧ last.cursor.At text.toList n ∧
      (readInto g text source = (none, last.graph) ∧ n = text.length ∨
        ∃ cause, cause ≠ .tooDeep ∧ readInto g text source =
          (some ⟨source, last.cursor.line, last.cursor.column, cause⟩, last.graph))) ∧
    Reader.verb.Consumes ∧ ∀ fuel, (Reader.subject fuel).Consumes ∧ (Reader.object fuel).Consumes ∧
      (Reader.collection fuel).Consumes ∧ (Reader.blankNodePropertyList fuel).Consumes := by
  have places : ∀ s ∈ passed g text, ∃ n, s.cursor.At text.toList n :=
    (Reader.ends_document (.start g text) 0).places (Cursor.at_start _)
  obtain ⟨result, last, ran, final, short, whole, shallow⟩ := run_document g text
  obtain ⟨n, place⟩ := places last (List.mem_of_getLast? final)
  have between : ∀ s ∈ passed g text, ∀ k, ∃ n, (s.cursor.advance k).At text.toList n := by
    intro s member k
    obtain ⟨_, place⟩ := places s member
    exact place.exists_advance k
  refine ⟨between, short, ⟨last, n, final, place, ?_⟩, Reader.consumes Reader.ends_verb,
    fun fuel => ?_⟩
  · rw [State.start, Cursor.start] at ran
    rw [readInto, ran]
    cases result with
    | ok a =>
      have ended := place.rest.symm.trans (whole rfl)
      have inside := place.inside
      rw [List.drop_eq_nil_iff, String.length_toList] at ended
      rw [String.length_toList] at inside
      exact .inl ⟨rfl, by omega⟩
    | error cause => exact .inr ⟨cause, fun same => shallow (congrArg _ same), rfl⟩
  · have paid := Reader.paid fuel
    exact ⟨Reader.consumes fun s n => Reader.ends_subject s n fuel, Reader.consumes paid.object,
      Reader.consumes paid.collection, Reader.consumes paid.node⟩

/-- A name with two dots behind it, of which only one ends the statement. -/
def dotted : String := "@prefix ex: <urn:> .\nex:a ex:p ex:b.. \n"

theorem readInto_walks_dotted : (readInto ∅ dotted "dotted").1 =
      some ⟨"dotted", 2, 17, .unexpected ' '⟩ ∧
    ∃ n, lineOf (dotted.toList.take n) = 2 ∧ columnOf (dotted.toList.take n) = 17 := by
  have failed : (readInto ∅ dotted "dotted").1 = some ⟨"dotted", 2, 17, .unexpected ' '⟩ := by
    decide +kernel
  obtain ⟨-, -, ⟨last, n, -, place, outcome⟩, -⟩ := readInto_walks ∅ dotted "dotted"
  rcases outcome with ⟨accepted, -⟩ | ⟨cause, -, refused⟩
  · rw [accepted] at failed
    cases failed
  · rw [refused] at failed
    obtain ⟨-, line, column, -⟩ := Failure.mk.inj (Option.some.inj failed)
    exact ⟨by rw [refused, failed], n, place.line.symm.trans line, place.column.symm.trans column⟩

end RepoAudit.Rdf.Turtle
