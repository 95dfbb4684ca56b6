import RepoAudit.Proofs.Turtle.Labels

/-!
# One text read into two graphs

A text is read into a graph with a past as it is read into the empty graph. Both readers stop at the
same places and make the same nodes in the same order, only that the numbers of the one continue
those of the graph it began with. `Follows` is what holds between them at every step; it also keeps
what every triple that was read looks like.
-/

namespace RepoAudit.Rdf.Turtle

/-! ### Nodes with numbers -/

/-- The label of the node that is made `k` nodes later. -/
def later (k : Nat) (label : String) : String :=
  match (Text.dropStart? ['b'] label.toList).bind fun digits => (String.ofList digits).toNat? with
  | some n => s!"b{k + n}"
  | none => label

theorem later_numbered (k n : Nat) : later k s!"b{n}" = s!"b{k + n}" := by
  have digits : Text.dropStart? ['b'] s!"b{n}".toList = some n.repr.toList := by
    simp [Text.dropStart?, toString]
  simp only [later, digits, Option.bind_some, String.ofList_toList, Nat.toNat?_repr]

/-- A term as it is read when `n` nodes have been made. -/
def ReadTerm (n : Nat) : Term → Prop
  | .iri _ => True
  | .blank label => ∃ i, 1 ≤ i ∧ i ≤ n ∧ label = s!"b{i}"
  | .literal l => ∀ tag ∈ l.lang,
    l.datatype = rdf "langString" ∧ tag.toList ≠ [] ∧ ∀ c ∈ tag.toList, isTagChar c = true

structure ReadTriple (n : Nat) (t : Triple) : Prop where
  subject : ReadTerm n t.subject
  notLiteral : t.subject.isLiteral = false
  predicate : ∃ iri, t.predicate = .iri iri
  object : ReadTerm n t.object

theorem ReadTerm.mono {m n : Nat} {u : Term} (read : ReadTerm m u) (more : m ≤ n) :
    ReadTerm n u := by
  cases u with
  | iri => trivial
  | literal => exact read
  | blank label =>
    obtain ⟨i, first, last, same⟩ := read
    exact ⟨i, first, last.trans more, same⟩

theorem ReadTriple.mono {m n : Nat} {t : Triple} (read : ReadTriple m t) (more : m ≤ n) :
    ReadTriple n t :=
  ⟨read.subject.mono more, read.notLiteral, read.predicate, read.object.mono more⟩

/-! ### Graphs that grow alike -/

/-- The second term is the first as the reader of the other graph has it. -/
def Moved (g : Graph) : Nat → Term → Term → Prop := fun n u v =>
  ReadTerm n u ∧ v = u.rename (later g.lastBlank)

/-- The terms can be subjects. -/
def MovedNode (g : Graph) : Nat → Term → Term → Prop := fun n u v =>
  Moved g n u v ∧ u.isLiteral = false

theorem Moved.mono {k n : Nat} {g : Graph} {u v : Term} (moved : Moved g k u v) (more : k ≤ n) :
    Moved g n u v :=
  ⟨moved.1.mono more, moved.2⟩

theorem MovedNode.mono {k n : Nat} {g : Graph} {u v : Term} (moved : MovedNode g k u v)
    (more : k ≤ n) : MovedNode g n u v :=
  ⟨moved.1.mono more, moved.2⟩

theorem movedNode_iri (g : Graph) (n : Nat) (iri : String) : MovedNode g n (.iri iri) (.iri iri) :=
  ⟨⟨trivial, rfl⟩, rfl⟩

/-- `k` grew from `g` by what `h` grew from nothing. -/
structure Continues (g h k : Graph) : Prop where
  count : k.lastBlank = g.lastBlank + h.lastBlank
  held : ∀ u, u ∈ k ↔ u ∈ g ∨ ∃ v ∈ h, u = v.rename (later g.lastBlank)
  read : ∀ u ∈ h, ReadTriple h.lastBlank u
  declared : ∀ name, k.prefixes.get? name = (h.prefixes.get? name).or (g.prefixes.get? name)

theorem continues_empty (g : Graph) : Continues g ∅ g where
  count := rfl
  held u := by simp
  read u member := absurd member (Graph.not_mem_empty u)
  declared name := by
    have none : (∅ : Graph).prefixes.get? name = none := rfl
    rw [none, Option.none_or]

section

variable {g h k : Graph}

theorem Continues.blank (continues : Continues g h k) : Continues g h.blank.2 k.blank.2 where
  count := congrArg (· + 1) continues.count
  held := continues.held
  read u member := (continues.read u member).mono (Nat.le_succ _)
  declared := continues.declared

theorem Continues.moved_blank (continues : Continues g h k) :
    MovedNode g h.blank.2.lastBlank h.blank.1 k.blank.1 := by
  refine ⟨⟨⟨h.lastBlank + 1, by omega, Nat.le_refl _, rfl⟩, ?_⟩, rfl⟩
  simp only [Graph.blank, Term.rename, later_numbered, continues.count, Nat.add_assoc]

theorem Continues.insert {u v o o' : Term} (continues : Continues g h k)
    (subject : MovedNode g h.lastBlank u v) (iri : String) (object : Moved g h.lastBlank o o') :
    Continues g (h.insert ⟨u, .iri iri, o⟩) (k.insert ⟨v, .iri iri, o'⟩) := by
  obtain ⟨⟨readSubject, rfl⟩, notLiteral⟩ := subject
  obtain ⟨readObject, rfl⟩ := object
  have renamed : (⟨u, .iri iri, o⟩ : Triple).rename (later g.lastBlank) =
      ⟨u.rename (later g.lastBlank), .iri iri, o.rename (later g.lastBlank)⟩ := rfl
  refine ⟨?_, fun w => ?_, ?_, ?_⟩
  · simpa only [Graph.lastBlank_insert] using continues.count
  · simp only [Graph.mem_insert, continues.held, ← renamed, or_and_right, exists_or,
      exists_eq_left]
    exact or_left_comm
  · simp only [Graph.lastBlank_insert, Graph.mem_insert]
    rintro w (rfl | member)
    · exact ⟨readSubject, notLiteral, ⟨iri, rfl⟩, readObject⟩
    · exact continues.read w member
  · simpa only [Graph.prefixes_insert] using continues.declared

theorem Continues.setPrefix (continues : Continues g h k) (name iri : String) :
    Continues g (h.setPrefix name iri) (k.setPrefix name iri) := by
  refine { continues with declared := fun other => ?_ }
  simp only [Graph.setPrefix, SortedMap.get?_insert, continues.declared]
  split <;> rfl

/-- Cells of a collection are made alike. -/
theorem Continues.addList {items items' : List Term} (continues : Continues g h k)
    (moved : List.Forall₂ (Moved g h.lastBlank) items items') :
    h.lastBlank ≤ (h.addList items).2.lastBlank ∧
    Continues g (h.addList items).2 (k.addList items').2 ∧
    MovedNode g (h.addList items).2.lastBlank (h.addList items).1 (k.addList items').1 := by
  induction moved with
  | nil => exact ⟨Nat.le_refl _, continues, movedNode_iri g _ _⟩
  | @cons item item' rest rest' moved _ ih =>
    obtain ⟨count, continues', tail⟩ := ih
    have more : (h.addList rest).2.lastBlank ≤ (h.addList rest).2.blank.2.lastBlank :=
      Nat.le_succ _
    have cell := continues'.moved_blank
    have first := continues'.blank.insert cell (rdf "first") (moved.mono (count.trans more))
    have second := first.insert (cell.mono (Graph.lastBlank_insert _).ge) (rdf "rest")
      (tail.1.mono (more.trans (Graph.lastBlank_insert _).ge))
    have grown : ((h.addList (item :: rest)).2).lastBlank = (h.addList rest).2.blank.2.lastBlank := by
      simp only [Graph.addList, Graph.add, Graph.lastBlank_insert]
    rw [grown]
    exact ⟨count.trans more, second, cell⟩

end

/-! ### What holds between the two readers -/

/-- `s` is reached from the empty graph where `t` is reached from `g`. -/
structure Follows (g : Graph) (s t : State) : Prop where
  cursor : t.cursor = s.cursor
  prefixes : t.prefixes = s.prefixes
  base : t.base = s.base
  labels : ∀ label, t.labels.get? label =
    (s.labels.get? label).map (·.rename (later g.lastBlank))
  nodes : ∀ label node, s.labels.get? label = some node →
    ReadTerm s.graph.lastBlank node ∧ node.isLiteral = false
  graph : Continues g s.graph t.graph

theorem follows_start (g : Graph) (c : Cursor) :
    Follows g { cursor := c, graph := ∅ } { cursor := c, graph := g } where
  cursor := rfl
  prefixes := rfl
  base := rfl
  labels := by simp
  nodes := by simp
  graph := continues_empty g

theorem Follows.withGraph {g h k : Graph} {s t : State} (follows : Follows g s t)
    (continues : Continues g h k) (more : s.graph.lastBlank ≤ h.lastBlank) :
    Follows g { s with graph := h } { t with graph := k } :=
  { follows with
    graph := continues
    nodes := fun label node known =>
      ⟨(follows.nodes label node known).1.mono more, (follows.nodes label node known).2⟩ }

theorem Follows.at {g : Graph} {s t : State} (follows : Follows g s t) {c d : Cursor}
    (same : d = c) : Follows g (s.at c) (t.at d) :=
  { follows with cursor := same }

theorem Follows.withLabel {g : Graph} {s t : State} {u v : Term} (follows : Follows g s t)
    (moved : MovedNode g s.graph.lastBlank u v) (label : String) :
    Follows g { s with labels := s.labels.insert label u }
      { t with labels := t.labels.insert label v } := by
  obtain ⟨⟨read, rfl⟩, notLiteral⟩ := moved
  refine { follows with labels := fun other => ?_, nodes := fun other node known => ?_ }
  · rw [SortedMap.get?_insert, SortedMap.get?_insert]
    split
    · rfl
    · exact follows.labels other
  · rw [SortedMap.get?_insert] at known
    split at known
    · obtain rfl := Option.some.inj known
      exact ⟨read, notLiteral⟩
    · exact follows.nodes other node known

/-- What two steps come to: the same error, or results that belong together. -/
inductive Alike {α : Type} (g : Graph) (n : Nat) (rel : Nat → α → α → Prop) :
    Except SyntaxError α × State → Except SyntaxError α × State → Prop
  | ok {a b : α} {s t : State} (follows : Follows g s t) (count : n ≤ s.graph.lastBlank)
      (related : rel s.graph.lastBlank a b) : Alike g n rel (.ok a, s) (.ok b, t)
  | error {e : SyntaxError} {s t : State} (follows : Follows g s t) :
      Alike g n rel (.error e, s) (.error e, t)

theorem Alike.mono {α : Type} {g : Graph} {m n : Nat} {rel : Nat → α → α → Prop}
    {x y : Except SyntaxError α × State} (alike : Alike g n rel x y) (fewer : m ≤ n) :
    Alike g m rel x y := by
  cases alike with
  | ok follows count related => exact .ok follows (fewer.trans count) related
  | error follows => exact .error follows

theorem Alike.imp {α : Type} {g : Graph} {n : Nat} {rel rel' : Nat → α → α → Prop}
    {x y : Except SyntaxError α × State} (alike : Alike g n rel x y)
    (weaker : ∀ k a b, rel k a b → rel' k a b) : Alike g n rel' x y := by
  cases alike with
  | ok follows count related => exact .ok follows count (weaker _ _ _ related)
  | error follows => exact .error follows

namespace Reader

variable {α β : Type} {n : Nat}

/-- The steps `m` and `m'` agree once `n` nodes have been made. -/
def Agrees (g : Graph) (n : Nat) (rel : Nat → α → α → Prop) (m m' : Reader α) : Prop :=
  ∀ s t, Follows g s t → n ≤ s.graph.lastBlank → Alike g n rel (m.run s) (m'.run t)

/-- Both steps give the same. -/
def Same : Nat → α → α → Prop := fun _ a b => a = b

/-- Both steps give the same IRI. -/
def SameIri : Nat → Term → Term → Prop := fun _ u v => v = u ∧ ∃ iri, u = .iri iri

/-! ### Sequences -/

variable {rel : Nat → α → α → Prop} {rel' : Nat → β → β → Prop} {m m' : Reader α}

theorem agrees_pure {a b : α} (related : ∀ k, n ≤ k → rel k a b) :
    Agrees g n rel (pure a) (pure b) :=
  fun s _ follows count => .ok follows count (related s.graph.lastBlank count)

theorem agrees_fail (e : SyntaxError) : Agrees g n rel (fail e) (fail e) :=
  fun _ _ follows _ => .error follows

theorem Agrees.imp {other : Nat → α → α → Prop} (agrees : Agrees g n rel m m')
    (weaker : ∀ k a b, rel k a b → other k a b) : Agrees g n other m m' :=
  fun s t follows count => (agrees s t follows count).imp weaker

theorem Agrees.bind {f f' : α → Reader β} (first : Agrees g n rel m m')
    (second : ∀ k a b, n ≤ k → rel k a b → Agrees g k rel' (f a) (f' b)) :
    Agrees g n rel' (m >>= f) (m' >>= f') := by
  intro s t follows count
  have ran := first s t follows count
  rw [run_bind, run_bind]
  generalize m.run s = x at ran ⊢
  generalize m'.run t = y at ran ⊢
  cases ran with
  | ok follows' count' related =>
    exact (second _ _ _ count' related _ _ follows' (Nat.le_refl _)).mono count'
  | error follows' => exact .error follows'

theorem Agrees.then {f f' : α → Reader β} (first : Agrees g n Same m m')
    (second : ∀ k a, n ≤ k → Agrees g k rel' (f a) (f' a)) :
    Agrees g n rel' (m >>= f) (m' >>= f') := by
  refine first.bind fun k a b more same => ?_
  obtain rfl : a = b := same
  exact second k a more

theorem agrees_ite {p : Prop} [Decidable p] {l l' : Reader α} (yes : p → Agrees g n rel m m')
    (no : ¬ p → Agrees g n rel l l') :
    Agrees g n rel (if p then m else l) (if p then m' else l') := by
  by_cases h : p
  · rw [if_pos h, if_pos h]
    exact yes h
  · rw [if_neg h, if_neg h]
    exact no h

/-- Looking at what the readers know. -/
theorem agrees_know {f f' : State → Reader β}
    (next : ∀ s t, Follows g s t → n ≤ s.graph.lastBlank →
      Agrees g s.graph.lastBlank rel' (f s) (f' t)) :
    Agrees g n rel' (know >>= f) (know >>= f') :=
  fun s t follows count => (next s t follows count s t follows (Nat.le_refl _)).mono count

/-! ### Characters -/

theorem agrees_rest : Agrees g n Same rest rest := by
  intro s t follows count
  have same : s.cursor.rest = t.cursor.rest := by rw [follows.cursor]
  exact .ok follows count same

theorem agrees_peek : Agrees g n Same peek peek :=
  agrees_rest.then fun _ _ _ => agrees_pure fun _ _ => rfl

theorem agrees_take (k : Nat) : Agrees g n Same (take k) (take k) :=
  fun _ _ follows count => .ok (follows.at (congrArg (·.advance k) follows.cursor)) count rfl

theorem agrees_giveBack (k : Nat) : Agrees g n Same (giveBack k) (giveBack k) :=
  fun _ _ follows count => .ok (follows.at (congrArg (·.back k) follows.cursor)) count rfl

theorem agrees_skipSpace : Agrees g n Same skipSpace skipSpace :=
  agrees_rest.then fun _ _ _ => agrees_take _

/-- What a scan finds has every property of what it can find. -/
theorem agrees_scan_of {f : List Char → Scan α} {P : α → Prop}
    (each : ∀ cs a, (f cs).result = .ok a → P a) :
    Agrees g n (fun _ a b => a = b ∧ P a) (scan f) (scan f) := by
  refine agrees_rest.then fun k cs _ => (agrees_take _).then fun k' _ _ => ?_
  cases found : (f cs).result with
  | ok a => exact agrees_pure fun _ _ => ⟨rfl, each cs a found⟩
  | error e => exact agrees_fail e

theorem agrees_scan (f : List Char → Scan α) : Agrees g n Same (scan f) (scan f) :=
  (agrees_scan_of (P := fun _ => True) fun _ _ _ => trivial).imp fun _ _ _ => And.left

theorem agrees_expect (c : Char) : Agrees g n Same (expect c) (expect c) := by
  refine agrees_skipSpace.then fun _ _ _ => agrees_peek.then fun _ found _ => ?_
  exact agrees_ite (fun _ => agrees_take 1) fun _ => agrees_fail _

theorem agrees_atKeyword (keyword : String) :
    Agrees g n Same (atKeyword keyword) (atKeyword keyword) :=
  agrees_rest.then fun _ _ _ => agrees_pure fun _ _ => rfl

/-! ### Terms without parts -/

theorem agrees_iriRef : Agrees g n Same iriRef iriRef := by
  refine (agrees_expect '<').then fun _ _ _ => (agrees_scan scanIri).then fun _ iri _ => ?_
  refine agrees_know fun s t follows _ => agrees_pure fun _ _ => ?_
  rw [follows.base]
  rfl

theorem agrees_prefixedName : Agrees g n Same prefixedName prefixedName := by
  refine agrees_rest.then fun _ cs _ => (agrees_take _).then fun _ _ _ => ?_
  cases cs.drop (cs.takeWhile isNameChar).length with
  | nil => exact agrees_fail _
  | cons c _ =>
    refine agrees_ite (fun _ => agrees_fail _) fun _ => (agrees_take 1).then fun _ _ _ => ?_
    refine (agrees_scan scanLocal).then fun _ part _ => (agrees_giveBack _).then fun _ _ _ => ?_
    refine agrees_know fun s t follows _ => ?_
    rw [follows.prefixes]
    cases s.prefixes.get? (String.ofList (cs.takeWhile isNameChar)) with
    | some iri => exact agrees_pure fun _ _ => rfl
    | none => exact agrees_fail _

theorem agrees_freshBlank : Agrees g n (MovedNode g) freshBlank freshBlank :=
  fun _ _ follows count => .ok (follows.withGraph follows.graph.blank (Nat.le_succ _))
    (Nat.le_succ_of_le count) follows.graph.moved_blank

theorem agrees_label {u v : Term} (moved : MovedNode g n u v) (label : String) :
    Agrees g n Same (learned fun s => { s with labels := s.labels.insert label u })
      (learned fun s => { s with labels := s.labels.insert label v }) :=
  fun _ _ follows count => .ok (follows.withLabel (moved.mono count) label) count rfl

theorem agrees_blankLabel : Agrees g n (MovedNode g) blankLabel blankLabel := by
  refine (agrees_take 2).then fun _ _ _ => agrees_rest.then fun _ cs _ => ?_
  refine (agrees_take _).then fun _ _ _ => (agrees_giveBack _).then fun _ _ _ => ?_
  refine agrees_know fun s t follows _ => ?_
  rw [follows.labels]
  cases known : s.labels.get? (String.ofList _) with
  | some node =>
    obtain ⟨read, notLiteral⟩ := follows.nodes _ node known
    exact agrees_pure fun k more => ⟨⟨read.mono more, rfl⟩, notLiteral⟩
  | none =>
    refine agrees_freshBlank.bind fun k u v _ moved => (agrees_label moved _).then fun k' _ more => ?_
    exact agrees_pure fun k'' more' => moved.mono (more.trans more')

theorem agrees_number : Agrees g n (Moved g) number number :=
  (agrees_scan scanNumber).then fun _ _ _ => agrees_pure fun _ _ => ⟨by rintro tag ⟨⟩, rfl⟩

theorem scanLang_result {cs tag : List Char} (found : (scanLang cs).result = .ok tag) :
    tag ≠ [] ∧ ∀ c ∈ tag, (c.isAlphanum || c == '-') = true := by
  unfold scanLang at found
  simp only at found
  split at found
  · cases found
  · rename_i filled
    obtain rfl := Except.ok.inj found
    exact ⟨by simpa using filled, fun c member =>
      List.mem_takeWhile_imp (p := fun c => c.isAlphanum || c == '-') member⟩

theorem moved_langString {tag : List Char} (filled : tag ≠ [])
    (plain : ∀ c ∈ tag, (c.isAlphanum || c == '-') = true) (lexical : String) :
    Moved g n (.langString lexical (String.ofList tag)) (.langString lexical (String.ofList tag)) := by
  obtain ⟨length, plain'⟩ := lowered_isTagChar plain
  refine ⟨?_, rfl⟩
  rintro _ ⟨rfl⟩
  refine ⟨rfl, fun empty => filled ?_, plain'⟩
  rw [empty] at length
  exact List.length_eq_zero_iff.mp length.symm

theorem agrees_literal : Agrees g n (Moved g) literal literal := by
  have plain {k : Nat} {lexical datatype : String} :
      Moved g k (.typed lexical datatype) (.typed lexical datatype) := ⟨by rintro tag ⟨⟩, rfl⟩
  refine (agrees_scan scanQuoted).then fun _ lexical _ => agrees_rest.then fun _ cs _ => ?_
  split
  · refine (agrees_take 1).then fun _ _ _ => ?_
    refine (agrees_scan_of fun _ _ => scanLang_result).bind fun _ tag _ _ found => ?_
    obtain ⟨rfl, filled, tagged⟩ := found
    exact agrees_pure fun _ _ => moved_langString filled tagged _
  · refine (agrees_take 2).then fun _ _ _ => agrees_peek.then fun _ c _ => ?_
    refine agrees_ite (fun _ => ?_) fun _ => ?_
    · exact agrees_iriRef.then fun _ _ _ => agrees_pure fun _ _ => plain
    · exact agrees_prefixedName.then fun _ _ _ => agrees_pure fun _ _ => plain
  · exact agrees_pure fun _ _ => plain

theorem agrees_verb : Agrees g n SameIri verb verb := by
  have named {k : Nat} {m : Reader String} (agrees : Agrees g k Same m m) :
      Agrees g k SameIri (do return .iri (← m)) (do return .iri (← m)) :=
    agrees.then fun _ iri _ => agrees_pure fun _ _ => ⟨rfl, iri, rfl⟩
  refine agrees_skipSpace.then fun _ _ _ => agrees_rest.then fun _ cs _ => ?_
  split
  · refine agrees_ite (fun _ => ?_) fun _ => named agrees_prefixedName
    exact (agrees_take 1).then fun _ _ _ => agrees_pure fun _ _ => ⟨rfl, _, rfl⟩
  · exact named agrees_iriRef
  · exact agrees_fail _
  · exact named agrees_prefixedName

/-! ### Terms and statements with parts -/

theorem agrees_skipSemicolons (m : Nat) :
    Agrees g n Same (skipSemicolons m) (skipSemicolons m) := by
  induction m generalizing n with
  | zero => exact agrees_pure fun _ _ => rfl
  | succ m ih =>
    refine agrees_peek.then fun _ found _ => agrees_ite (fun _ => ?_) fun _ => ?_
    · exact (agrees_take 1).then fun _ _ _ => agrees_skipSpace.then fun _ _ _ => ih
    · exact agrees_pure fun _ _ => rfl

theorem agrees_insert {u v p q o o' : Term} (subject : MovedNode g n u v)
    (predicate : SameIri n p q) (object : Moved g n o o') :
    Agrees g n Same (learned fun s => { s with graph := s.graph.insert ⟨u, p, o⟩ })
      (learned fun s => { s with graph := s.graph.insert ⟨v, q, o'⟩ }) := by
  obtain ⟨rfl, iri, rfl⟩ := predicate
  intro s t follows count
  have continues := follows.graph.insert (subject.mono count) iri (object.mono count)
  have kept := Graph.lastBlank_insert (g := s.graph) ⟨u, .iri iri, o⟩
  exact .ok (follows.withGraph continues kept.ge) (count.trans kept.ge) rfl

theorem agrees_named {m : Reader String} (agrees : Agrees g n Same m m) :
    Agrees g n (MovedNode g) (do return .iri (← m)) (do return .iri (← m)) := by
  refine agrees.then fun _ iri _ => agrees_pure fun k _ => ?_
  exact movedNode_iri g k iri

mutual

theorem agrees_object (fuel : Nat) {n : Nat} :
    Agrees g n (Moved g) (object fuel) (object fuel) := by
  have node {k : Nat} {m : Reader Term} (agrees : Agrees g k (MovedNode g) m m) :
      Agrees g k (Moved g) m m := agrees.imp fun _ _ _ => And.left
  have boolean {k : Nat} (b : Bool) : Moved g k (.boolean b) (.boolean b) :=
    ⟨by rintro tag ⟨⟩, rfl⟩
  cases fuel with
  | zero => exact agrees_fail _
  | succ fuel =>
    refine agrees_skipSpace.then fun _ _ _ => agrees_rest.then fun _ cs _ => ?_
    split
    · exact agrees_fail _
    · exact node agrees_blankLabel
    · refine agrees_ite (fun _ => node (agrees_named agrees_iriRef)) fun _ => ?_
      refine agrees_ite (fun _ => node (agrees_blankNodePropertyList fuel)) fun _ => ?_
      refine agrees_ite (fun _ => node (agrees_collection fuel)) fun _ => ?_
      refine agrees_ite (fun _ => agrees_literal) fun _ => ?_
      refine agrees_ite (fun _ => agrees_number) fun _ => ?_
      refine (agrees_atKeyword _).then fun _ found _ => agrees_ite (fun _ => ?_) fun _ => ?_
      · exact (agrees_take 4).then fun _ _ _ => agrees_pure fun _ _ => boolean true
      refine (agrees_atKeyword _).then fun _ found _ => agrees_ite (fun _ => ?_) fun _ => ?_
      · exact (agrees_take 5).then fun _ _ _ => agrees_pure fun _ _ => boolean false
      · exact node (agrees_named agrees_prefixedName)

theorem agrees_blankNodePropertyList (fuel : Nat) {n : Nat} :
    Agrees g n (MovedNode g) (blankNodePropertyList fuel) (blankNodePropertyList fuel) := by
  cases fuel with
  | zero => exact agrees_fail _
  | succ fuel =>
    refine (agrees_expect '[').then fun _ _ _ => agrees_freshBlank.bind fun k u v _ moved => ?_
    have closed {k' : Nat} (more : k ≤ k') : Agrees g k' (MovedNode g)
        (do expect ']'; return u) (do expect ']'; return v) :=
      (agrees_expect ']').then fun _ _ more' => agrees_pure fun _ more'' =>
        moved.mono (more.trans (more'.trans more''))
    refine agrees_skipSpace.then fun _ _ more => agrees_peek.then fun _ found more' => ?_
    refine agrees_ite (fun _ => ?_) fun _ => closed (more.trans more')
    refine (agrees_predicateObjectList fuel (moved.mono (more.trans more'))).then fun _ _ more'' => ?_
    exact closed (more.trans (more'.trans more''))

theorem agrees_collection (fuel : Nat) {n : Nat} :
    Agrees g n (MovedNode g) (collection fuel) (collection fuel) := by
  cases fuel with
  | zero => exact agrees_fail _
  | succ fuel =>
    refine (agrees_expect '(').then fun _ _ _ => ?_
    refine (agrees_collectionItems fuel).bind fun k items items' _ moved => ?_
    intro s t follows count
    obtain ⟨more, continues, head⟩ :=
      follows.graph.addList (moved.imp fun _ _ moved => moved.mono count)
    exact .ok (follows.withGraph continues more) (count.trans more) head

theorem agrees_collectionItems (fuel : Nat) {n : Nat} :
    Agrees g n (fun k => List.Forall₂ (Moved g k)) (collectionItems fuel) (collectionItems fuel) := by
  cases fuel with
  | zero => exact agrees_fail _
  | succ fuel =>
    refine agrees_skipSpace.then fun _ _ _ => agrees_peek.then fun _ found _ => ?_
    cases found with
    | none => exact agrees_fail _
    | some c =>
      refine agrees_ite (fun _ => ?_) fun _ => ?_
      · exact (agrees_take 1).then fun _ _ _ => agrees_pure fun _ _ => .nil
      · refine (agrees_object fuel).bind fun k item item' _ moved => ?_
        refine (agrees_collectionItems fuel).bind fun k' items items' more moved' => ?_
        refine agrees_pure fun k'' more' => ?_
        exact .cons (moved.mono (more.trans more')) (moved'.imp fun _ _ moved => moved.mono more')

theorem agrees_predicateObjectList (fuel : Nat) {n : Nat} {u v : Term} (moved : MovedNode g n u v) :
    Agrees g n Same (predicateObjectList fuel u) (predicateObjectList fuel v) := by
  cases fuel with
  | zero => exact agrees_fail _
  | succ fuel =>
    refine agrees_verb.bind fun k p q more same => ?_
    refine (agrees_objectList fuel (moved.mono more) same).then fun k' _ more' => ?_
    refine agrees_skipSpace.then fun _ _ more'' => agrees_peek.then fun _ found more3 => ?_
    refine agrees_ite (fun _ => ?_) fun _ => agrees_pure fun _ _ => rfl
    refine agrees_rest.then fun _ cs more4 => (agrees_skipSemicolons _).then fun _ _ more5 => ?_
    refine agrees_peek.then fun _ next more6 => ?_
    cases next with
    | none => exact agrees_pure fun _ _ => rfl
    | some c =>
      refine agrees_ite (fun _ => ?_) fun _ => agrees_pure fun _ _ => rfl
      exact agrees_predicateObjectList fuel (moved.mono (by omega))

theorem agrees_objectList (fuel : Nat) {n : Nat} {u v p q : Term} (moved : MovedNode g n u v)
    (same : SameIri n p q) : Agrees g n Same (objectList fuel u p) (objectList fuel v q) := by
  cases fuel with
  | zero => exact agrees_fail _
  | succ fuel =>
    refine (agrees_object fuel).bind fun k o o' more moved' => ?_
    refine (agrees_insert (moved.mono more) same moved').then fun _ _ more' => ?_
    refine agrees_skipSpace.then fun _ _ more'' => agrees_peek.then fun _ found more3 => ?_
    refine agrees_ite (fun _ => ?_) fun _ => agrees_pure fun _ _ => rfl
    refine (agrees_take 1).then fun _ _ more4 => ?_
    exact agrees_objectList fuel (moved.mono (by omega)) same

end

theorem agrees_subject (fuel : Nat) : Agrees g n (MovedNode g) (subject fuel) (subject fuel) := by
  refine agrees_skipSpace.then fun _ _ _ => agrees_rest.then fun _ cs _ => ?_
  split
  · exact agrees_fail _
  · exact agrees_blankLabel
  · refine agrees_ite (fun _ => agrees_named agrees_iriRef) fun _ => ?_
    refine agrees_ite (fun _ => agrees_collection fuel) fun _ => ?_
    exact agrees_named agrees_prefixedName

theorem agrees_triples (fuel : Nat) : Agrees g n Same (triples fuel) (triples fuel) := by
  refine agrees_skipSpace.then fun _ _ _ => agrees_peek.then fun _ found _ => ?_
  refine agrees_ite (fun _ => ?_) fun _ => ?_
  · refine (agrees_blankNodePropertyList fuel).bind fun _ u v _ moved => ?_
    refine agrees_skipSpace.then fun _ _ more => agrees_peek.then fun _ found more' => ?_
    refine agrees_ite (fun _ => ?_) fun _ => agrees_pure fun _ _ => rfl
    exact agrees_predicateObjectList fuel (moved.mono (more.trans more'))
  · refine (agrees_subject fuel).bind fun _ u v _ moved => ?_
    exact agrees_predicateObjectList fuel moved

/-! ### Documents -/

theorem agrees_declared (name iri : String) :
    Agrees g n Same (learned fun s => { s with
        graph := s.graph.setPrefix name iri, prefixes := s.prefixes.insert name iri })
      (learned fun s => { s with
        graph := s.graph.setPrefix name iri, prefixes := s.prefixes.insert name iri }) := by
  intro s t follows count
  refine .ok ?_ count rfl
  have grown := follows.withGraph (follows.graph.setPrefix name iri) (Nat.le_refl _)
  exact { grown with prefixes := congrArg (·.insert name iri) follows.prefixes }

theorem agrees_prefixDecl : Agrees g n Same prefixDecl prefixDecl := by
  refine agrees_skipSpace.then fun _ _ _ => agrees_rest.then fun _ cs _ => ?_
  refine (agrees_take _).then fun _ _ _ => ?_
  have declared {k : Nat} (name : String) :=
    (agrees_expect (n := k) ':').then fun _ _ _ => agrees_skipSpace.then fun _ _ _ =>
      agrees_iriRef.then fun _ iri _ => agrees_declared (g := g) name iri
  cases cs.drop (cs.takeWhile isNameChar).length with
  | nil => exact declared _
  | cons c _ => exact agrees_ite (fun _ => agrees_fail _) fun _ => declared _

theorem agrees_baseDecl : Agrees g n Same baseDecl baseDecl := by
  refine agrees_skipSpace.then fun _ _ _ => agrees_iriRef.then fun _ iri _ => ?_
  intro s t follows count
  refine .ok ?_ count rfl
  exact { follows with base := rfl }

theorem agrees_statement (fuel : Nat) : Agrees g n Same (statement fuel) (statement fuel) := by
  have dot {k : Nat} : Agrees g k Same (expect '.') (expect '.') := agrees_expect '.'
  refine (agrees_atKeyword _).then fun _ found _ => agrees_ite (fun _ => ?_) fun _ => ?_
  · exact (agrees_take 7).then fun _ _ _ => agrees_prefixDecl.then fun _ _ _ => dot
  refine (agrees_atKeyword _).then fun _ found _ => agrees_ite (fun _ => ?_) fun _ => ?_
  · exact (agrees_take 5).then fun _ _ _ => agrees_baseDecl.then fun _ _ _ => dot
  refine (agrees_atKeyword _).then fun _ found _ => agrees_ite (fun _ => ?_) fun _ => ?_
  · exact (agrees_take 6).then fun _ _ _ => agrees_prefixDecl
  refine (agrees_atKeyword _).then fun _ found _ => agrees_ite (fun _ => ?_) fun _ => ?_
  · exact (agrees_take 4).then fun _ _ _ => agrees_baseDecl
  · exact (agrees_triples fuel).then fun _ _ _ => dot

theorem agrees_statements (fuel m : Nat) :
    Agrees g n Same (statements fuel m) (statements fuel m) := by
  induction m generalizing n with
  | zero => exact agrees_pure fun _ _ => rfl
  | succ m ih =>
    refine agrees_skipSpace.then fun _ _ _ => agrees_peek.then fun _ found _ => ?_
    refine agrees_ite (fun _ => ?_) fun _ => agrees_pure fun _ _ => rfl
    exact (agrees_statement fuel).then fun _ _ _ => ih

theorem agrees_document : Agrees g n Same document document :=
  agrees_rest.then fun _ _ _ => agrees_statements _ _

end Reader

/-- A text is read into a graph as it is read into the empty graph, up to the same place. -/
theorem readInto_continues (g : Graph) (text source : String) :
    (readInto g text source).1 = (readInto ∅ text source).1 ∧
      Continues g (readInto ∅ text source).2 (readInto g text source).2 := by
  have ran := Reader.agrees_document (g := g) (n := 0) _ _
    (follows_start g ⟨[], text.toList, 1, 1⟩) (Nat.zero_le _)
  unfold readInto
  generalize Reader.document.run _ = x at ran ⊢
  generalize Reader.document.run _ = y at ran ⊢
  cases ran with
  | ok follows => exact ⟨rfl, follows.graph⟩
  | error follows =>
    refine ⟨?_, follows.graph⟩
    simp only [follows.cursor]

end RepoAudit.Rdf.Turtle
