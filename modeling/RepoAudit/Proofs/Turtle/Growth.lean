import RepoAudit.Proofs.Turtle.Blocks

/-!
# What a document says

Blank nodes are numbered as they are made. Of a node that was made earlier nothing is said later, so
that a graph that was read says of each node what stands in its own brackets.
-/

namespace RepoAudit.Rdf

/-- The blank node with a number. -/
def Term.numbered (n : Nat) : Term := .blank s!"b{n}"

theorem Term.numbered_injective {m n : Nat} (same : Term.numbered m = .numbered n) : m = n :=
  Turtle.fresh_injective same

namespace Turtle

/-! ### Growing graphs -/

/-- No statement is about a node with a number that has not been given yet. -/
def Bounded (g : Graph) : Prop := ∀ t ∈ g, ∀ k, t.subject = .numbered k → k ≤ g.lastBlank

/-- A statement about a node that was made on the way from `g` to `h`. -/
def New (used : Term → Prop) (g h : Graph) (t : Triple) : Prop :=
  used t.predicate ∧ ∃ k, g.lastBlank < k ∧ k ≤ h.lastBlank ∧ t.subject = .numbered k

/-- `h` comes from `g` by some statements for which `said` holds and by statements about new nodes,
with predicates that are `used`. -/
structure Grown (used : Term → Prop) (said : Triple → Prop) (g h : Graph) : Prop where
  kept : ∀ t ∈ g, t ∈ h
  later : g.lastBlank ≤ h.lastBlank
  new : ∀ t ∈ h, t ∈ g ∨ said t ∨ New used g h t

section

variable {used : Term → Prop} {said said' : Triple → Prop} {g h i : Graph}

theorem New.mono {t : Triple} (new : New used g h t) {g' h' : Graph}
    (low : g'.lastBlank ≤ g.lastBlank) (high : h.lastBlank ≤ h'.lastBlank) : New used g' h' t := by
  obtain ⟨predicate, k, above, below, subject⟩ := new
  exact ⟨predicate, k, by omega, by omega, subject⟩

theorem Grown.refl (g : Graph) : Grown used said g g :=
  ⟨fun _ held => held, Nat.le_refl _, fun _ held => .inl held⟩

theorem Grown.trans (grown : Grown used said g h) (grown' : Grown used said h i) :
    Grown used said g i := by
  refine ⟨fun t held => grown'.kept t (grown.kept t held), grown.later.trans grown'.later,
    fun t held => ?_⟩
  rcases grown'.new t held with old | now | new
  · rcases grown.new t old with old | now | new
    · exact .inl old
    · exact .inr (.inl now)
    · exact .inr (.inr (new.mono (Nat.le_refl _) grown'.later))
  · exact .inr (.inl now)
  · exact .inr (.inr (new.mono grown.later (Nat.le_refl _)))

theorem Grown.imp (grown : Grown used said g h)
    (weaker : ∀ t, said t → said' t ∨ New used g h t) : Grown used said' g h := by
  refine ⟨grown.kept, grown.later, fun t held => ?_⟩
  rcases grown.new t held with old | now | new
  · exact .inl old
  · exact .inr (weaker t now)
  · exact .inr (.inr new)

theorem grown_blank (g : Graph) : Grown used said g g.blank.2 :=
  ⟨fun _ held => held, Nat.le_succ _, fun _ held => .inl held⟩

theorem grown_insert (g : Graph) {t : Triple} (now : said t) : Grown used said g (g.insert t) := by
  refine ⟨fun u held => Graph.mem_insert.mpr (.inr held), (Graph.lastBlank_insert t).ge,
    fun u held => ?_⟩
  rcases Graph.mem_insert.mp held with rfl | held
  · exact .inr (.inl now)
  · exact .inl held

theorem Bounded.blank (bounded : Bounded g) : Bounded g.blank.2 :=
  fun t held k same => (bounded t held k same).trans (Nat.le_succ _)

theorem Bounded.insert (bounded : Bounded g) {t : Triple}
    (within : ∀ k, t.subject = .numbered k → k ≤ g.lastBlank) : Bounded (g.insert t) := by
  intro u held k same
  rw [Graph.lastBlank_insert]
  rcases Graph.mem_insert.mp held with rfl | held
  · exact within k same
  · exact bounded u held k same

/-- Of a node that was there before, and that nothing is said of, the same is known. -/
theorem Grown.same (grown : Grown used said g h) {s : Term} (silent : ∀ p o, ¬ said ⟨s, p, o⟩)
    (old : ∀ k, s = .numbered k → k ≤ g.lastBlank) (p o : Term) : ⟨s, p, o⟩ ∈ h ↔ ⟨s, p, o⟩ ∈ g := by
  refine ⟨fun held => ?_, grown.kept _⟩
  rcases grown.new _ held with known | now | ⟨-, k, above, -, same⟩
  · exact known
  · exact absurd now (silent p o)
  · have := old k same
    omega

end

/-! ### Collections -/

/-- The cells of a collection have numbers from `high` down to above `low`, and a single first item
and rest each. -/
inductive Cells (g : Graph) (low : Nat) : Nat → List Term → Term → Prop where
  | nil {high : Nat} : Cells g low high [] (.iri (rdf "nil"))
  | cons {high k : Nat} {item tail : Term} {rest : List Term} (above : low ≤ k) (below : k < high)
    (first : ∀ o, ⟨.numbered (k + 1), .iri (rdf "first"), o⟩ ∈ g ↔ o = item)
    (next : ∀ o, ⟨.numbered (k + 1), .iri (rdf "rest"), o⟩ ∈ g ↔ o = tail)
    (others : Cells g low k rest tail) : Cells g low high (item :: rest) (.numbered (k + 1))

section

variable {used : Term → Prop} {said : Triple → Prop} {g h : Graph} {low high : Nat}
  {items : List Term} {head : Term}

theorem Cells.mono (cells : Cells g low high items head) {high' : Nat} (more : high ≤ high') :
    Cells g low high' items head := by
  cases cells with
  | nil => exact .nil
  | cons above below first next others => exact .cons above (below.trans_le more) first next others

theorem Cells.lower (cells : Cells g low high items head) {low' : Nat} (less : low' ≤ low) :
    Cells g low' high items head := by
  induction cells with
  | nil => exact .nil
  | cons above below first next _ ih => exact .cons (less.trans above) below first next ih

/-- A collection stays what it is as long as nothing more is said of its cells. -/
theorem Cells.persist (cells : Cells g low high items head)
    (same : ∀ k, low < k → k ≤ high → ∀ p o, ⟨.numbered k, p, o⟩ ∈ h ↔ ⟨.numbered k, p, o⟩ ∈ g) :
    Cells h low high items head := by
  induction cells with
  | nil => exact .nil
  | cons above below first next _ ih =>
    refine .cons above below (fun o => ?_) (fun o => ?_) (ih fun k lower upper => ?_)
    · rw [same _ (by omega) (by omega), first]
    · rw [same _ (by omega) (by omega), next]
    · exact same k lower (by omega)

/-- Following the cells leads past all items, since no cell is met twice. -/
theorem follow_cells (cells : Cells g low high items head) (unvisited : List Term)
    (waiting : ∀ k ≤ high, ∀ p o, ⟨.numbered k, p, o⟩ ∈ g → .numbered k ∈ unvisited) :
    g.follow unvisited head = items := by
  induction cells generalizing unvisited with
  | nil =>
    rw [Graph.follow, dif_neg]
    exact fun both => both.2 rfl
  | @cons high k item tail rest above below first next others ih =>
    have held : ⟨.numbered (k + 1), .iri (rdf "first"), item⟩ ∈ g := (first item).mpr rfl
    have visit : Term.numbered (k + 1) ∈ unvisited ∧ Term.numbered (k + 1) ≠ .iri (rdf "nil") :=
      ⟨waiting _ (by omega) _ _ held, nofun⟩
    have item? := Graph.object?_eq_some held fun other => (first other).mp
    have next? := Graph.object?_eq_some ((next tail).mpr rfl) fun other => (next other).mp
    have onward := ih (unvisited.erase (.numbered (k + 1))) fun j within p o stated => by
      refine (List.mem_erase_of_ne fun same => ?_).mpr (waiting j (by omega) p o stated)
      have := Term.numbered_injective same
      omega
    rw [Graph.follow, dif_pos visit, item?, next?]
    exact congrArg (item :: ·) onward

theorem listItems_cells (cells : Cells g low high items head) : g.listItems head = items :=
  follow_cells cells _ fun _ _ _ _ stated =>
    Graph.mem_subjectsAll.mpr ⟨_, _, stated⟩

/-- The first cell of a collection is made last. -/
theorem head_addList (g : Graph) (item : Term) (others : List Term) :
    (g.addList (item :: others)).1 = .numbered ((g.addList others).2.lastBlank + 1) := rfl

theorem lastBlank_addList (g : Graph) (item : Term) (others : List Term) :
    (g.addList (item :: others)).2.lastBlank = (g.addList others).2.lastBlank + 1 := by
  simp only [Graph.addList, Graph.add, Graph.lastBlank_insert]
  rfl

theorem mem_addList {item : Term} {others : List Term} {t : Triple} :
    t ∈ (g.addList (item :: others)).2 ↔
      t = ⟨(g.addList (item :: others)).1, .iri (rdf "rest"), (g.addList others).1⟩ ∨
      t = ⟨(g.addList (item :: others)).1, .iri (rdf "first"), item⟩ ∨
      t ∈ (g.addList others).2 := by
  simp only [Graph.addList, Graph.add, Graph.mem_insert, Graph.mem_blank]

/-- A collection that is added has new cells. -/
theorem cells_addList (first : used (.iri (rdf "first"))) (next : used (.iri (rdf "rest")))
    (bounded : Bounded g) : ∀ items : List Term,
    Grown used said g (g.addList items).2 ∧ Bounded (g.addList items).2 ∧
      Cells (g.addList items).2 g.lastBlank (g.addList items).2.lastBlank items (g.addList items).1
  | [] => ⟨.refl g, bounded, .nil⟩
  | item :: others => by
    obtain ⟨grown, bounded, cells⟩ := cells_addList first next bounded others
    have count := lastBlank_addList g item others
    have later := grown.later
    have fresh (p o : Term) :
        ⟨(g.addList (item :: others)).1, p, o⟩ ∉ (g.addList others).2 := by
      intro held
      have := bounded _ held _ rfl
      omega
    have step : Grown used said (g.addList others).2 (g.addList (item :: others)).2 := by
      refine ⟨fun t held => mem_addList.mpr (.inr (.inr held)), by omega, fun t held => ?_⟩
      rcases mem_addList.mp held with rfl | rfl | held
      · exact .inr (.inr ⟨next, _, Nat.lt_succ_self _, count.ge, rfl⟩)
      · exact .inr (.inr ⟨first, _, Nat.lt_succ_self _, count.ge, rfl⟩)
      · exact .inl held
    refine ⟨grown.trans step, fun t held k same => ?_, ?_⟩
    · rcases mem_addList.mp held with rfl | rfl | held
      · rw [count, Term.numbered_injective same]
      · rw [count, Term.numbered_injective same]
      · exact (bounded t held k same).trans step.later
    · have distinct : rdf "first" ≠ rdf "rest" := by decide
      rw [head_addList] at fresh ⊢
      refine .cons later (by omega) (fun o => ?_) (fun o => ?_)
        (cells.persist fun k _ within p o => ?_)
      · simp [mem_addList, fresh, head_addList, distinct]
      · simp [mem_addList, fresh, head_addList, distinct.symm]
      · have apart : Term.numbered k ≠ .numbered ((g.addList others).2.lastBlank + 1) :=
          fun same => by
            have := Term.numbered_injective same
            omega
        simp [mem_addList, head_addList, apart]

end

/-! ### Nodes in brackets -/

/-- What it means that a value is read as a term: a collection has its cells above `low`. -/
def Value.Means (namespaces : String → String) (g : Graph) (low : Nat) : Value → Term → Prop
  | .name pre part, o => o = .iri (namespaces pre ++ part)
  | .number digits, o =>
    o = .typed digits (xsd (if readsAsInteger digits then "integer" else "decimal"))
  | .quoted text, o => o = .string text
  | .list texts, o => Cells g low g.lastBlank (texts.map .string) o

def Line.predicate (namespaces : String → String) (l : Line) : Term :=
  .iri (namespaces l.pre ++ l.part)

/-- Whatever is said of a node is said in one of some lines. -/
def Tells (namespaces : String → String) (g : Graph) (low : Nat) (node : Term)
    (lines : List Line) : Prop :=
  ∀ p o, ⟨node, p, o⟩ ∈ g →
    ∃ l ∈ lines, p = l.predicate namespaces ∧ l.value.Means namespaces g low o

section

variable {namespaces : String → String} {used : Term → Prop} {said : Triple → Prop} {g h : Graph}
  {low : Nat}

theorem Value.Means.persist {v : Value} {o : Term} (means : v.Means namespaces g low o)
    (grown : Grown used said g h)
    (silent : ∀ k, low < k → k ≤ g.lastBlank → ∀ p o, ¬ said ⟨.numbered k, p, o⟩) :
    v.Means namespaces h low o := by
  cases v with
  | list texts =>
    refine (Cells.persist means fun k lower upper => ?_).mono grown.later
    exact grown.same (silent k lower upper) fun j same => Term.numbered_injective same ▸ upper
  | _ => exact means

theorem Value.Means.lower {v : Value} {o : Term} (means : v.Means namespaces g low o) {low' : Nat}
    (less : low' ≤ low) : v.Means namespaces g low' o := by
  cases v with
  | list texts => exact Cells.lower means less
  | _ => exact means

variable (namespaces) in
theorem means_put (first : used (.iri (rdf "first"))) (next : used (.iri (rdf "rest")))
    (bounded : Bounded g) (v : Value) :
    Grown used (fun _ => False) g (v.put namespaces g).2 ∧ Bounded (v.put namespaces g).2 ∧
      v.Means namespaces (v.put namespaces g).2 g.lastBlank (v.put namespaces g).1 := by
  cases v with
  | list texts => exact cells_addList first next bounded (texts.map .string)
  | _ => exact ⟨.refl g, bounded, rfl⟩

/-- The statements that a line makes about its subject. -/
def Line.About (namespaces : String → String) (l : Line) (subject : Term) (t : Triple) : Prop :=
  t.subject = subject ∧ t.predicate = l.predicate namespaces

variable (namespaces) in
/-- What a line adds, and what it means from then on. -/
theorem line_put (first : used (.iri (rdf "first"))) (next : used (.iri (rdf "rest")))
    (bounded : Bounded g) (l : Line) {subject : Term}
    (old : ∀ k, subject = .numbered k → k ≤ g.lastBlank) :
    Grown used (l.About namespaces subject) g (l.put namespaces subject g) ∧
      Bounded (l.put namespaces subject g) ∧
      ∀ p o, ⟨subject, p, o⟩ ∈ l.put namespaces subject g → ⟨subject, p, o⟩ ∈ g ∨
        p = l.predicate namespaces ∧
          l.value.Means namespaces (l.put namespaces subject g) g.lastBlank o := by
  obtain ⟨grown, bounded', means⟩ := means_put namespaces first next bounded l.value
  have inserted : Grown used (l.About namespaces subject) (l.value.put namespaces g).2
      (l.put namespaces subject g) :=
    grown_insert (l.value.put namespaces g).2
      (t := ⟨subject, .iri (namespaces l.pre ++ l.part), (l.value.put namespaces g).1⟩) ⟨rfl, rfl⟩
  refine ⟨(grown.imp fun _ never => never.elim).trans inserted,
    bounded'.insert fun k same => (old k same).trans grown.later, fun p o held => ?_⟩
  rcases Graph.mem_insert.mp held with new | held
  · obtain ⟨-, rfl, rfl⟩ := Triple.mk.inj new
    refine .inr ⟨rfl, means.persist inserted fun k above _ p o about => ?_⟩
    have := old k about.1.symm
    omega
  · exact .inl ((grown.same (fun _ _ never => never) old p o).mp held)

/-- After some lines about a new node each of them means what it meant when it was read. -/
theorem lines_put (first : used (.iri (rdf "first"))) (next : used (.iri (rdf "rest"))) {k : Nat} :
    ∀ {lines : List Line} {g : Graph}, (∀ l ∈ lines, used (l.predicate namespaces)) →
      Bounded g → k ≤ g.lastBlank →
      Grown used (fun t => t.subject = .numbered k ∧ used t.predicate) g
        (lines.foldl (Line.put namespaces (.numbered k)) g) ∧
      Bounded (lines.foldl (Line.put namespaces (.numbered k)) g) ∧
      ∀ p o, ⟨.numbered k, p, o⟩ ∈ lines.foldl (Line.put namespaces (.numbered k)) g →
        ⟨.numbered k, p, o⟩ ∈ g ∨ ∃ l ∈ lines, p = l.predicate namespaces ∧
          l.value.Means namespaces (lines.foldl (Line.put namespaces (.numbered k)) g) k o
  | [], g, _, bounded, _ => ⟨.refl g, bounded, fun _ _ => .inl⟩
  | l :: rest, g, predicates, bounded, old => by
    obtain ⟨grown, bounded, about⟩ := line_put namespaces first next bounded l
      fun j (same : Term.numbered k = .numbered j) => Term.numbered_injective same ▸ old
    obtain ⟨grown', bounded', about'⟩ := lines_put first next (k := k)
      (fun l member => predicates l (.tail _ member)) bounded (old.trans grown.later)
    have step : Grown used (fun t => t.subject = .numbered k ∧ used t.predicate) g
        (l.put namespaces (.numbered k) g) :=
      grown.imp fun t said => .inl ⟨said.1, said.2 ▸ predicates l (.head _)⟩
    refine ⟨step.trans grown', bounded', fun p o held => ?_⟩
    rcases about' p o held with before | ⟨other, member, same, means⟩
    · rcases about p o before with before | ⟨same, means⟩
      · exact .inl before
      · refine .inr ⟨l, .head _, same, (means.lower old).persist grown' fun j above _ p o said => ?_⟩
        have := Term.numbered_injective said.1
        omega
    · exact .inr ⟨other, .tail _ member, same, means⟩

end

/-! ### Documents -/

/-- What an entry says of its subject by a predicate and an object. -/
def Entry.Tells (namespaces : String → String) (g : Graph) : Entry → Term → Term → Prop
  | .type pre part, p, o => p = .iri (rdf "type") ∧ o = .iri (namespaces pre ++ part)
  | .line l, p, o => p = l.predicate namespaces ∧ l.value.Means namespaces g 0 o
  | .block pre part lines, p, o => p = .iri (namespaces pre ++ part) ∧
      ∃ k ≤ g.lastBlank, o = .numbered k ∧ Turtle.Tells namespaces g k (.numbered k) lines

/-- The lines in brackets. -/
def Entry.inner : Entry → List Line
  | .block _ _ lines => lines
  | _ => []

/-- The entries of a document with their subjects. -/
def Document.statements (namespaces : String → String) (d : Document) : List (Term × Entry) :=
  d.paragraphs.flatMap fun p => p.entries.map fun e => (p.subject namespaces, e)

theorem Document.foldl_put (namespaces : String → String) (d : Document) (g : Graph) :
    d.paragraphs.foldl (Paragraph.put namespaces) g =
      (d.statements namespaces).foldl (fun g s => s.2.put namespaces s.1 g) g := by
  rw [statements, List.foldl_flatMap]
  simp only [List.foldl_map]
  rfl

/-- The predicates of statements about nodes without a name. -/
def Inner (namespaces : String → String) (statements : List (Term × Entry)) (p : Term) : Prop :=
  p = .iri (rdf "first") ∨ p = .iri (rdf "rest") ∨
    ∃ s ∈ statements, ∃ l ∈ s.2.inner, p = l.predicate namespaces

/-- A graph says what a document says: of a name what stands in an entry about it, and of other
nodes what stands in brackets. -/
structure Document.Told (namespaces : String → String) (d : Document) (g : Graph) : Prop where
  named : ∀ t ∈ g, t.subject.isIri = true → ∃ s ∈ d.statements namespaces, t.subject = s.1 ∧
    s.2.Tells namespaces g t.predicate t.object
  others : ∀ t ∈ g, t.subject.isIri = false → Inner namespaces (d.statements namespaces) t.predicate

section

variable {namespaces : String → String} {used : Term → Prop} {g h : Graph}

/-- The statements about a name. -/
def OfNames (t : Triple) : Prop := t.subject.isIri = true

theorem Tells.persist {k : Nat} {lines : List Line}
    (tells : Tells namespaces g k (.numbered k) lines) (old : k ≤ g.lastBlank)
    (grown : Grown used OfNames g h) : Tells namespaces h k (.numbered k) lines := by
  intro p o held
  have before := (grown.same (s := .numbered k) (fun _ _ => nofun)
    (fun j same => Term.numbered_injective same ▸ old) p o).mp held
  obtain ⟨l, member, same, means⟩ := tells p o before
  exact ⟨l, member, same, means.persist grown fun _ _ _ _ _ => nofun⟩

theorem Entry.Tells.persist {e : Entry} {p o : Term} (tells : e.Tells namespaces g p o)
    (grown : Grown used OfNames g h) : e.Tells namespaces h p o := by
  cases e with
  | type pre part => exact tells
  | line l => exact ⟨tells.1, tells.2.persist grown fun _ _ _ _ _ => nofun⟩
  | block pre part lines =>
    obtain ⟨same, k, old, node, tells⟩ := tells
    exact ⟨same, k, old.trans grown.later, node, tells.persist old grown⟩

variable (namespaces) in
/-- What an entry adds, and what it says from then on. -/
theorem entry_put (first : used (.iri (rdf "first"))) (next : used (.iri (rdf "rest")))
    (bounded : Bounded g) {e : Entry} (predicates : ∀ l ∈ e.inner, used (l.predicate namespaces))
    (name : String) :
    Grown used (·.subject = .iri name) g (e.put namespaces (.iri name) g) ∧
      Bounded (e.put namespaces (.iri name) g) ∧
      ∀ p o, ⟨.iri name, p, o⟩ ∈ e.put namespaces (.iri name) g →
        ⟨.iri name, p, o⟩ ∈ g ∨ e.Tells namespaces (e.put namespaces (.iri name) g) p o := by
  have named (k : Nat) : Term.iri name ≠ .numbered k := nofun
  cases e with
  | type pre part =>
    refine ⟨grown_insert g rfl, bounded.insert fun k same => absurd same (named k),
      fun p o held => ?_⟩
    rcases Graph.mem_insert.mp held with new | held
    · obtain ⟨-, rfl, rfl⟩ := Triple.mk.inj new
      exact .inr ⟨rfl, rfl⟩
    · exact .inl held
  | line l =>
    obtain ⟨grown, bounded, about⟩ := line_put namespaces first next bounded l
      fun k same => absurd same (named k)
    refine ⟨grown.imp fun t said => .inl said.1, bounded, fun p o held => ?_⟩
    exact (about p o held).imp_right fun ⟨same, means⟩ => ⟨same, means.lower (Nat.zero_le _)⟩
  | block pre part lines =>
    obtain ⟨inner, bounded', about⟩ := lines_put first next (k := g.lastBlank + 1) predicates
      bounded.blank (Nat.le_refl _)
    have node : g.blank.1 = .numbered (g.lastBlank + 1) := rfl
    rw [← node] at inner bounded' about
    let h := lines.foldl (Line.put namespaces g.blank.1) g.blank.2
    have grown : Grown used (fun _ => False) g h := by
      refine ((grown_blank g).trans inner).imp fun t said => .inr ?_
      exact ⟨said.2, _, Nat.lt_succ_self _, inner.later, said.1⟩
    let t : Triple := ⟨.iri name, .iri (namespaces pre ++ part), g.blank.1⟩
    have inserted : Grown used (·.subject = .iri name) h (h.insert t) := grown_insert h rfl
    refine ⟨(grown.imp fun _ never => never.elim).trans inserted,
      bounded'.insert fun k same => absurd same (named k), fun p o held => ?_⟩
    rcases Graph.mem_insert.mp held with new | held
    · obtain ⟨-, rfl, rfl⟩ := Triple.mk.inj new
      have tells : Turtle.Tells namespaces h (g.lastBlank + 1) (.numbered (g.lastBlank + 1)) lines := by
        intro p o held
        refine (about p o held).resolve_left fun known => ?_
        have := bounded _ known _ rfl
        omega
      have within : g.lastBlank + 1 ≤ h.lastBlank := inner.later
      have aside : Grown used OfNames h (h.insert t) := grown_insert h rfl
      exact .inr ⟨rfl, g.lastBlank + 1, within.trans inserted.later, rfl, tells.persist within aside⟩
    · refine .inl ((grown.same (fun _ _ never => never) (fun k same => ?_) p o).mp held)
      exact absurd same (named k)

/-- One entry after another adds what it says. -/
theorem statements_put (first : used (.iri (rdf "first"))) (next : used (.iri (rdf "rest"))) :
    ∀ {statements : List (Term × Entry)} {g : Graph}, (∀ s ∈ statements, s.1.isIri = true) →
      (∀ s ∈ statements, ∀ l ∈ s.2.inner, used (l.predicate namespaces)) → Bounded g →
      Grown used OfNames g (statements.foldl (fun g s => s.2.put namespaces s.1 g) g) ∧
      ∀ t ∈ statements.foldl (fun g s => s.2.put namespaces s.1 g) g, OfNames t → t ∈ g ∨
        ∃ s ∈ statements, t.subject = s.1 ∧ s.2.Tells namespaces
          (statements.foldl (fun g s => s.2.put namespaces s.1 g) g) t.predicate t.object
  | [], g, _, _, _ => ⟨.refl g, fun _ held _ => .inl held⟩
  | (subject, e) :: rest, g, named, predicates, bounded => by
    obtain ⟨name, rfl⟩ : ∃ name, subject = .iri name := by
      have := named _ (.head _)
      cases subject <;> simp_all [Term.isIri]
    obtain ⟨grown, bounded, about⟩ := entry_put namespaces first next bounded
      (predicates _ (.head _)) name
    obtain ⟨grown', about'⟩ := statements_put first next
      (fun s member => named s (.tail _ member)) (fun s member => predicates s (.tail _ member))
      bounded
    have step : Grown used OfNames g (e.put namespaces (.iri name) g) :=
      grown.imp fun t said => .inl (congrArg Term.isIri said)
    refine ⟨step.trans grown', fun t held ofNames => ?_⟩
    rcases about' t held ofNames with before | ⟨s, member, same, tells⟩
    · by_cases own : t.subject = .iri name
      · obtain ⟨_, p, o⟩ := t
        obtain rfl := own
        rcases about p o before with known | tells
        · exact .inl known
        · exact .inr ⟨_, .head _, rfl, tells.persist grown'⟩
      · rcases grown.new t before with known | said | ⟨-, k, -, -, node⟩
        · exact .inl known
        · exact absurd said own
        · rw [OfNames, node] at ofNames
          cases ofNames
    · exact .inr ⟨s, .tail _ member, same, tells⟩

end

/-- A text that is written like a document is read as a graph that says what the document says. -/
theorem read_told {d : Document} {namespaces : String → String} (plain : d.Plain namespaces)
    {text : String} (written : text.toList = d.chars) (source : String) :
    ∃ g, read text source = .ok g ∧ d.Told namespaces g := by
  obtain ⟨g, nothing, accepted⟩ := read_document plain written source
  refine ⟨_, accepted, ?_⟩
  rw [Document.foldl_put]
  have bounded : Bounded g := fun t held => absurd held (nothing t)
  have named : ∀ s ∈ d.statements namespaces, s.1.isIri = true := by
    intro s member
    obtain ⟨p, -, made⟩ := List.mem_flatMap.mp member
    obtain ⟨e, -, rfl⟩ := List.mem_map.mp made
    rfl
  have predicates : ∀ s ∈ d.statements namespaces, ∀ l ∈ s.2.inner,
      Inner namespaces (d.statements namespaces) (l.predicate namespaces) :=
    fun s member l line => .inr (.inr ⟨s, member, l, line, rfl⟩)
  obtain ⟨grown, about⟩ := statements_put (.inl rfl) (.inr (.inl rfl)) named predicates bounded
  constructor
  · exact fun t held ofNames => (about t held ofNames).resolve_left (nothing t)
  · intro t held other
    rcases grown.new t held with known | said | new
    · exact absurd known (nothing t)
    · rw [OfNames, other] at said
      cases said
    · exact new.1

end Turtle
end RepoAudit.Rdf
