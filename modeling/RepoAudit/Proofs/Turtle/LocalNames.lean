import RepoAudit.Proofs.Turtle.Places
import RepoAudit.Proofs.Turtle.Steps

/-!
# Names behind a prefix

In the local part of a name any character can be written behind a backslash. Such a part is read as
the name that it spells, except for dots at its end: they are given back, one character for each,
and this is what happens to dots behind a backslash as well. A name is read as a whole exactly if it
does not end in a dot.
-/

namespace RepoAudit.Rdf.Turtle

/-! ### Spelling -/

/-- A character that stands for itself in a local part. -/
def IsBare (c : Char) : Prop := (isNameChar c || c == ':' || c == '%') = true

theorem IsBare.ne_backslash {c : Char} (bare : IsBare c) : c ≠ '\\' := by
  rintro rfl
  revert bare
  unfold IsBare
  decide

/-- A text spells a name: each character stands for itself, or behind a backslash. -/
inductive Spells : List Char → List Char → Prop where
  | nil : Spells [] []
  | bare {c : Char} {text name : List Char} (bare : IsBare c) (more : Spells text name) :
    Spells (c :: text) (c :: name)
  | escaped {text name : List Char} (c : Char) (more : Spells text name) :
    Spells ('\\' :: c :: text) (c :: name)

/-- No local part goes on in a text. -/
def EndsName (rest : List Char) : Prop := ∀ c ∈ rest.head?, c ≠ '\\' ∧ ¬ IsBare c

variable {text text' name name' rest cs : List Char}

theorem Spells.append (spells : Spells text name) (spells' : Spells text' name') :
    Spells (text ++ text') (name ++ name') := by
  induction spells with
  | nil => exact spells'
  | bare bare _ ih => exact .bare bare ih
  | escaped c _ ih => exact .escaped c ih

/-- A spelling can be cut wherever the name can. -/
theorem Spells.exists_split {front back : List Char} (spells : Spells text (front ++ back)) :
    ∃ first second, text = first ++ second ∧ Spells first front ∧ Spells second back := by
  induction front generalizing text with
  | nil => exact ⟨[], text, rfl, .nil, spells⟩
  | cons c front ih =>
    cases spells with
    | bare bare more =>
      obtain ⟨first, second, rfl, spells, spells'⟩ := ih more
      exact ⟨c :: first, second, rfl, .bare bare spells, spells'⟩
    | escaped _ more =>
      obtain ⟨first, second, rfl, spells, spells'⟩ := ih more
      exact ⟨'\\' :: c :: first, second, rfl, .escaped c spells, spells'⟩

theorem spells_dots (n : Nat) : Spells (List.replicate n '.') (List.replicate n '.') := by
  induction n with
  | zero => exact .nil
  | succ n ih => exact .bare (by unfold IsBare; decide) ih

/-- Dots are spelled by dots and backslashes. -/
theorem Spells.of_dots {n : Nat} (spells : Spells text (List.replicate n '.')) :
    n ≤ text.length ∧ ∀ c ∈ text, c = '.' ∨ c = '\\' := by
  induction n generalizing text with
  | zero =>
    cases spells
    exact ⟨Nat.le_refl _, nofun⟩
  | succ n ih =>
    cases spells with
    | bare _ more =>
      obtain ⟨fits, plain⟩ := ih more
      exact ⟨Nat.succ_le_succ fits, List.forall_mem_cons.mpr ⟨.inl rfl, plain⟩⟩
    | escaped _ more =>
      obtain ⟨fits, plain⟩ := ih more
      refine ⟨Nat.le_succ_of_le (Nat.succ_le_succ fits), ?_⟩
      exact List.forall_mem_cons.mpr ⟨.inr rfl, List.forall_mem_cons.mpr ⟨.inl rfl, plain⟩⟩

/-! ### Scanning a spelling -/

theorem scanLocal_bare {c : Char} (bare : IsBare c) (cs : List Char) :
    scanLocal (c :: cs) = (scanLocal cs).prepend 1 (c :: ·) :=
  (scanLocal_cons bare.ne_backslash cs).trans (if_pos bare)

theorem scanLocal_of_ends (ends : EndsName rest) : scanLocal rest = .found [] 0 := by
  cases rest with
  | nil => rfl
  | cons c more =>
    obtain ⟨slash, other⟩ := ends c rfl
    exact (scanLocal_cons slash more).trans (if_neg other)

/-- What is spelled is found, up to where no local part goes on. -/
theorem scanLocal_spells (spells : Spells text name) (ends : EndsName rest) :
    scanLocal (text ++ rest) = .found name text.length := by
  induction spells with
  | nil => exact scanLocal_of_ends ends
  | @bare c text name bare _ ih =>
    rw [List.cons_append, scanLocal_bare bare, ih]
    simp [Scan.prepend, Scan.found, Except.map, Nat.add_comm]
  | @escaped text name c _ ih =>
    rw [List.cons_append, List.cons_append, scanLocal, ih, List.length_cons, List.length_cons,
      Nat.add_assoc, Nat.add_comm]
    rfl

/-- What is found is spelled. -/
theorem exists_spells (found : (scanLocal cs).result = .ok name) : ∃ text rest,
    cs = text ++ rest ∧ Spells text name ∧ (scanLocal cs).taken = text.length := by
  fun_induction scanLocal cs generalizing name with
  | case1 =>
    cases found
    exact ⟨[], [], rfl, .nil, rfl⟩
  | case2 c rest ih =>
    obtain ⟨part, more, rfl⟩ := Scan.exists_of_prepend found
    obtain ⟨text, left, rfl, spells, taken⟩ := ih more
    refine ⟨'\\' :: c :: text, left, rfl, .escaped c spells, ?_⟩
    rw [Scan.prepend, taken, Nat.add_comm]
    rfl
  | case3 => cases found
  | case4 c rest _ _ bare ih =>
    obtain ⟨part, more, rfl⟩ := Scan.exists_of_prepend found
    obtain ⟨text, left, rfl, spells, taken⟩ := ih more
    refine ⟨c :: text, left, rfl, .bare bare spells, ?_⟩
    rw [Scan.prepend, taken, Nat.add_comm]
    rfl
  | case5 c rest =>
    cases found
    exact ⟨[], c :: rest, rfl, .nil, rfl⟩

/-! ### Dots at the end -/

theorem exists_front (name : List Char) : ∃ front, front.getLast? ≠ some '.' ∧
    name = front ++ List.replicate (trailingDots name) '.' := by
  refine ⟨(name.reverse.dropWhile (· == '.')).reverse, fun same => ?_, ?_⟩
  · rw [List.getLast?_reverse] at same
    have other := List.head?_dropWhile_not (· == '.') name.reverse
    rw [same] at other
    simp at other
  · have dots : name.reverse.takeWhile (· == '.') = List.replicate (trailingDots name) '.' :=
      List.eq_replicate_iff.mpr
        ⟨rfl, fun c member => eq_of_beq (List.mem_takeWhile_imp (p := (· == '.')) member)⟩
    have parts := congrArg List.reverse
      (List.takeWhile_append_dropWhile (p := (· == '.')) (l := name.reverse))
    rw [dots, List.reverse_append, List.reverse_replicate, List.reverse_reverse] at parts
    exact parts.symm

theorem trailingDots_eq_zero_iff : trailingDots name = 0 ↔ name.getLast? ≠ some '.' := by
  rw [trailingDots, ← List.head?_reverse, List.length_eq_zero_iff]
  cases name.reverse with
  | nil => simp
  | cons c more => by_cases dot : c = '.' <;> simp [dot]

theorem trailingDots_le (name : List Char) : trailingDots name ≤ name.length :=
  ((List.takeWhile_sublist _).length_le).trans_eq List.length_reverse

theorem trailingDots_append (name : List Char) (n : Nat) :
    trailingDots (name ++ List.replicate n '.') = trailingDots name + n := by
  rw [trailingDots, List.reverse_append, List.reverse_replicate, List.takeWhile_append_of_pos,
    List.length_append, List.length_replicate, trailingDots, Nat.add_comm]
  exact fun c member => beq_iff_eq.mpr (List.eq_of_mem_replicate member)

/-- The dots at the end of a name take at least a character each, and all on one line. -/
theorem Spells.trailing (spells : Spells text name) : trailingDots name ≤ text.length ∧
    ∀ c ∈ text.drop (text.length - trailingDots name), c ≠ '\n' := by
  obtain ⟨front, -, parts⟩ := exists_front name
  rw [parts] at spells
  obtain ⟨first, second, rfl, -, dots⟩ := spells.exists_split
  obtain ⟨fits, plain⟩ := dots.of_dots
  rw [List.length_append]
  refine ⟨by omega, fun c member => ?_⟩
  have inside : c ∈ second := by
    rw [List.drop_append, List.drop_eq_nil_of_le (by omega), List.nil_append] at member
    exact List.mem_of_mem_drop member
  rcases plain c inside with rfl | rfl <;> decide

/-- Behind a spelled name the cursor may give back one character for each dot at its end. -/
theorem Spells.returnable (spells : Spells text name) {c : Cursor} (ahead : c.rest = text ++ rest) :
    (c.advance text.length).Returnable (trailingDots name) := by
  obtain ⟨fits, inLine⟩ := spells.trailing
  have passed : (c.advance text.length).before = text.reverse ++ c.before := by
    rw [Cursor.before_advance, ahead, List.take_left]
  constructor
  · rw [passed, List.length_append, List.length_reverse]
    omega
  · intro x member
    rw [passed, List.take_append_of_le_length (by rwa [List.length_reverse]), List.take_reverse,
      List.mem_reverse] at member
    exact inLine x member

/-- A text of characters of names spells itself. -/
theorem spells_self : ∀ {name : List Char}, (∀ c ∈ name, isNameChar c = true) → Spells name name
  | [], _ => .nil
  | c :: _, named => by
    refine .bare ?_ (spells_self fun c member => named c (.tail _ member))
    unfold IsBare
    rw [named c (.head _)]
    rfl

/-! ### Reading a name behind a prefix -/

namespace Reader

variable {α β : Type}

/-- What follows a step that has succeeded. -/
theorem run_bind_ok {m : Reader α} {s t : State} {a : α} (ran : m.run s = (.ok a, t))
    (f : α → Reader β) : (m >>= f).run s = (f a).run t := by
  rw [run_bind, ran]

theorem run_know (s : State) (c : Cursor) : know.run (s.at c) = (.ok (s.at c), s.at c) := rfl

theorem run_rest (s : State) (c : Cursor) :
    Reader.rest.run (s.at c) = (.ok c.rest, s.at c) := rfl

theorem run_take (n : Nat) (s : State) (c : Cursor) :
    (take n).run (s.at c) = (.ok (), s.at (c.advance n)) := rfl

theorem run_giveBack (n : Nat) (s : State) (c : Cursor) :
    (giveBack n).run (s.at c) = (.ok (), s.at (c.back n)) := rfl

theorem run_scan {f : List Char → Scan α} {c : Cursor} {a : α} {n : Nat}
    (found : f c.rest = .found a n) (s : State) :
    (scan f).run (s.at c) = (.ok a, s.at (c.advance n)) := by
  rw [scan, run_bind_ok (run_rest s c), found, run_bind_ok (run_take _ s c)]
  rfl

variable {s : State} {c : Cursor} {pre part : List Char}

/-- A name is read as what its spelling spells, without the dots at the end. For each of them one
character of the spelling is given back. -/
theorem run_prefixedName (ahead : c.rest = pre ++ ':' :: (text ++ rest))
    (named : ∀ c ∈ pre, isNameChar c = true) (spells : Spells text part) (ends : EndsName rest) :
    prefixedName.run (s.at c) =
      (match s.prefixes.get? (String.ofList pre) with
        | some iri => .ok (iri ++ String.ofList (part.take (part.length - trailingDots part)))
        | none => .error (.undefinedPrefix (String.ofList pre)),
      s.at (c.advance (pre.length + 1 + text.length - trailingDots part))) := by
  obtain ⟨fits, inLine⟩ := spells.trailing
  have name : c.rest.takeWhile isNameChar = pre := by
    rw [ahead]
    exact takeWhile_stop named (by decide) _
  have colon : c.rest.drop pre.length = ':' :: (text ++ rest) := by
    rw [ahead, List.drop_left]
  have behind : ((c.advance pre.length).advance 1).rest = text ++ rest := by
    rw [Cursor.rest_advance, Cursor.rest_advance, colon, List.drop_succ_cons, List.drop_zero]
  have back : (((c.advance pre.length).advance 1).advance text.length).back (trailingDots part) =
      c.advance (pre.length + 1 + text.length - trailingDots part) := by
    have onward := Cursor.back_advance (c := (c.advance pre.length).advance 1) (n := text.length)
      (by rw [behind, List.length_append]; omega) fits (by rwa [behind, List.take_left])
    rw [onward, ← Cursor.advance_add c, ← Cursor.advance_add c, Nat.add_sub_assoc fits]
  rw [prefixedName, run_bind_ok (run_rest s c), name, run_bind_ok (run_take _ s c), colon]
  dsimp only
  have found := scanLocal_spells spells ends
  rw [← behind] at found
  rw [if_neg (by decide), run_bind_ok (run_take 1 s _), run_bind_ok (run_scan found s),
    run_bind_ok (run_giveBack _ s _), back, run_bind_ok (run_know s _)]
  dsimp only [State.at]
  cases s.prefixes.get? (String.ofList pre) <;> rfl

/-! ### Names behind backslashes -/

/-- A name with a backslash before each character that is no letter, digit or underscore. -/
def escapedName (name : List Char) : List Char :=
  name.flatMap fun c => if Text.isAlphanumeric c || c == '_' then [c] else ['\\', c]

theorem spells_escapedName : ∀ name, Spells (escapedName name) name
  | [] => .nil
  | c :: name => by
    rw [escapedName, List.flatMap_cons]
    split
    next plain =>
      refine .bare ?_ (spells_escapedName name)
      unfold IsBare isNameChar
      rw [plain]
      rfl
    next => exact .escaped c (spells_escapedName name)

/-- A name behind backslashes, perhaps with plain dots behind it, is read without the dots at its
end. Exactly if it has none it is read as a whole, and the reader stops right behind it. -/
theorem prefixedName_escaped {iri : String} {dots : Nat}
    (ahead : c.rest = pre ++ ':' :: (escapedName part ++ (List.replicate dots '.' ++ rest)))
    (named : ∀ c ∈ pre, isNameChar c = true)
    (bound : s.prefixes.get? (String.ofList pre) = some iri) (ends : EndsName rest) :
    prefixedName.run (s.at c) =
        (.ok (iri ++ String.ofList (part.take (part.length - trailingDots part))),
          s.at (c.advance (pre.length + 1 + (escapedName part).length - trailingDots part))) ∧
      (prefixedName.run (s.at c) = (.ok (iri ++ String.ofList part),
          s.at (c.advance (pre.length + 1 + (escapedName part).length))) ↔
        part.getLast? ≠ some '.') := by
  have spells := (spells_escapedName part).append (spells_dots dots)
  rw [← List.append_assoc] at ahead
  have less : trailingDots part ≤ part.length := trailingDots_le part
  have ran := run_prefixedName ahead named spells ends (s := s)
  rw [bound, trailingDots_append, List.length_append, List.length_append, List.length_replicate,
    Nat.add_sub_add_right, List.take_append_of_le_length (by omega), ← Nat.add_assoc,
    Nat.add_sub_add_right] at ran
  refine ⟨ran, ?_⟩
  rw [ran, ← trailingDots_eq_zero_iff]
  constructor
  · intro same
    have texts := congrArg String.toList (Except.ok.inj (Prod.mk.inj same).1)
    rw [String.toList_append, String.toList_append, String.toList_ofList,
      String.toList_ofList] at texts
    have lengths := congrArg List.length (List.append_cancel_left texts)
    rw [List.length_take] at lengths
    omega
  · intro none
    rw [none, Nat.sub_zero, Nat.sub_zero, List.take_length]

/-- A text ahead of a reader that knows one prefix. -/
def withPrefix (text : String) : State where
  cursor := .start text.toList
  prefixes := SortedMap.insert ∅ "ex" "http://example.org/"
  graph := ∅

theorem prefixedName_version : prefixedName.run (withPrefix "ex:v1\\.2 .") =
    (.ok ("http://example.org/" ++ String.ofList ['v', '1', '.', '2']),
      (withPrefix "ex:v1\\.2 .").at ((Cursor.start "ex:v1\\.2 .".toList).advance 8)) := by
  have ahead : (Cursor.start "ex:v1\\.2 .".toList).rest = ['e', 'x'] ++ ':' ::
      (escapedName ['v', '1', '.', '2'] ++ (List.replicate 0 '.' ++ [' ', '.'])) := by
    decide +kernel
  have named : ∀ c ∈ ['e', 'x'], isNameChar c = true :=
    List.forall_mem_cons.mpr ⟨isNameChar_of_plain (by decide),
      List.forall_mem_singleton.mpr (isNameChar_of_plain (by decide))⟩
  have ends : EndsName [' ', '.'] := by
    rintro c ⟨⟩
    unfold IsBare
    decide
  have bound : (withPrefix "ex:v1\\.2 .").prefixes.get? "ex" = some "http://example.org/" := by
    decide +kernel
  have last : ['v', '1', '.', '2'].getLast? ≠ some '.' := by decide
  exact (prefixedName_escaped ahead named bound ends).2.mpr last

/-- A dot behind a backslash is given back, and the reader stops behind the backslash. -/
theorem prefixedName_inc : escapedName "Inc.".toList = "Inc\\.".toList ∧
    (prefixedName.run (withPrefix "ex:Inc\\. .")).1.toOption = some "http://example.org/Inc" ∧
    (prefixedName.run (withPrefix "ex:Inc\\. .")).2.cursor =
      (Cursor.start "ex:Inc\\. .".toList).advance 7 := by
  decide +kernel

end Reader
end RepoAudit.Rdf.Turtle
