import RepoAudit.Proofs.Ordered.Gathering
import RepoAudit.Proofs.Turtle.Growth

/-!
# Collections in a graph

Reading a collection is a walk from cell to cell. Whatever the graph says of the cells, the walk
meets none of them twice and so comes to an end. A collection that is added has cells of its own:
its items are found in it, and no collection that was there before reads differently.
-/

namespace RepoAudit.Rdf.Graph

variable {g h : Graph} {cell head item next : Term} {cells cells' : List (Term × Term)}
  {visited unvisited : List Term}

/-! ### Walks from cell to cell -/

/-- A node other than the empty collection that has an item. -/
def IsCell (g : Graph) (cell item : Term) : Prop :=
  cell ≠ .iri (rdf "nil") ∧ g.object? cell (.iri (rdf "first")) = some item

/-- The cells that are linked from a head on, each with its item, after some were visited. The walk
ends before the empty collection, a node that was visited or one without an item, and behind a cell
that is not linked to anything. -/
inductive Walked (g : Graph) : List Term → Term → List (Term × Term) → Prop where
  | ended {visited : List Term} {head : Term}
    (nothing : head ∈ visited ∨ ∀ item, ¬ g.IsCell head item) : Walked g visited head []
  | last {visited : List Term} {cell item : Term} (new : cell ∉ visited)
    (first : g.IsCell cell item) (unlinked : g.object? cell (.iri (rdf "rest")) = none) :
    Walked g visited cell [(cell, item)]
  | step {visited : List Term} {cell item next : Term} {cells : List (Term × Term)}
    (new : cell ∉ visited) (first : g.IsCell cell item)
    (link : g.object? cell (.iri (rdf "rest")) = some next)
    (onward : Walked g (cell :: visited) next cells) : Walked g visited cell ((cell, item) :: cells)

theorem IsCell.item_unique {item' : Term} (first : g.IsCell cell item)
    (first' : g.IsCell cell item') : item = item' :=
  Option.some.inj (first.2.symm.trans first'.2)

theorem Walked.new (walked : g.Walked visited head cells) :
    ∀ c ∈ cells.map Prod.fst, c ∉ visited := by
  induction walked with
  | ended => nofun
  | last new => simpa using new
  | step new _ _ _ ih =>
    exact List.forall_mem_cons.mpr ⟨new, fun c member old => ih c member (.tail _ old)⟩

/-- No cell is visited twice. -/
theorem Walked.nodup (walked : g.Walked visited head cells) : (cells.map Prod.fst).Nodup := by
  induction walked with
  | ended => exact .nil
  | last => exact List.nodup_singleton _
  | step _ _ _ onward ih =>
    exact List.nodup_cons.mpr ⟨fun again => onward.new _ again (.head _), ih⟩

theorem Walked.isCell (walked : g.Walked visited head cells) :
    ∀ c ∈ cells, g.IsCell c.1 c.2 := by
  induction walked with
  | ended => nofun
  | last _ first => simpa using first
  | step _ first _ _ ih => exact List.forall_mem_cons.mpr ⟨first, ih⟩

/-- There is only one walk from a head. -/
theorem Walked.unique (walked : g.Walked visited head cells)
    (walked' : g.Walked visited head cells') : cells = cells' := by
  have stays {visited : List Term} {cell item : Term} (new : cell ∉ visited)
      (first : g.IsCell cell item) : ¬ (cell ∈ visited ∨ ∀ item, ¬ g.IsCell cell item) :=
    not_or.mpr ⟨new, fun none => none item first⟩
  induction walked generalizing cells' with
  | ended nothing =>
    cases walked' with
    | ended => rfl
    | last new first => exact absurd nothing (stays new first)
    | step new first => exact absurd nothing (stays new first)
  | last new first unlinked =>
    cases walked' with
    | ended nothing => exact absurd nothing (stays new first)
    | last _ first' => rw [first.item_unique first']
    | step _ _ link =>
      rw [unlinked] at link
      cases link
  | step new first link _ ih =>
    cases walked' with
    | ended nothing => exact absurd nothing (stays new first)
    | last _ _ unlinked =>
      rw [unlinked] at link
      cases link
    | step _ first' link' onward' =>
      obtain rfl := Option.some.inj (link.symm.trans link')
      rw [first.item_unique first', ih onward']

/-- Where the cells that are left are those that have not been visited, a collection is read along
the walk. -/
theorem exists_walked (visited unvisited : List Term) (cell : Term) (distinct : unvisited.Nodup)
    (waiting : ∀ c item, g.IsCell c item → (c ∈ unvisited ↔ c ∉ visited)) :
    ∃ cells, g.Walked visited cell cells ∧ g.follow unvisited cell = cells.map Prod.snd := by
  fun_induction Graph.follow g unvisited cell generalizing visited with
  | case1 unvisited cell visit bare =>
    refine ⟨[], .ended (.inr fun item first => ?_), rfl⟩
    rw [first.2] at bare
    cases bare
  | case2 unvisited cell visit item first ih =>
    have new := (waiting cell item ⟨visit.2, first⟩).mp visit.1
    cases link : g.object? cell (.iri (rdf "rest")) with
    | none => exact ⟨[(cell, item)], .last new ⟨visit.2, first⟩ link, rfl⟩
    | some next =>
      have waiting' : ∀ c item, g.IsCell c item →
          (c ∈ unvisited.erase cell ↔ c ∉ cell :: visited) := fun c item first => by
        rw [distinct.mem_erase_iff, waiting c item first, List.mem_cons, not_or]
      obtain ⟨cells, onward, read⟩ := ih next (cell :: visited) (distinct.erase cell) waiting'
      exact ⟨_, .step new ⟨visit.2, first⟩ link onward, congrArg (item :: ·) read⟩
  | case3 unvisited cell skip =>
    refine ⟨[], .ended ?_, rfl⟩
    refine or_iff_not_imp_left.mpr fun new item first => skip ?_
    exact ⟨(waiting cell item first).mpr new, first.1⟩

theorem mem_subjectsAll_of_isCell (first : g.IsCell cell item) : cell ∈ g.subjectsAll := by
  have held : ⟨cell, .iri (rdf "first"), item⟩ ∈ g :=
    mem_objects.mp (List.mem_of_head? first.2)
  exact mem_subjectsAll.mpr ⟨_, _, held⟩

/-- The items of a collection are those on the walk from its head. -/
theorem listItems_eq_iff {items : List Term} : g.listItems head = items ↔
    ∃ cells, g.Walked [] head cells ∧ items = cells.map Prod.snd := by
  obtain ⟨cells, walked, read⟩ := exists_walked [] g.subjectsAll head
    g.bySubject.nodup_keys fun c item first => by simpa using mem_subjectsAll_of_isCell first
  change g.listItems head = _ at read
  rw [read]
  constructor
  · rintro rfl
    exact ⟨cells, walked, rfl⟩
  · rintro ⟨cells', walked', rfl⟩
    rw [walked.unique walked']

/-- A walk has no more cells than the graph has subjects. -/
theorem Walked.length_le (walked : g.Walked visited head cells) :
    cells.length ≤ g.subjectsAll.length := by
  have inside : ∀ c ∈ cells.map Prod.fst, c ∈ g.subjectsAll := by
    intro c member
    obtain ⟨entry, listed, rfl⟩ := List.mem_map.mp member
    exact mem_subjectsAll_of_isCell (walked.isCell entry listed)
  have fits := (walked.nodup.subperm inside).length_le
  rwa [List.length_map] at fits

/-! ### Graphs with more triples -/

/-- What is asked of the nodes in `known` has the same answers in both graphs, and their rests are
known as well. -/
structure SameCells (known : Term → Prop) (g h : Graph) : Prop where
  object? : ∀ c, known c → ∀ p, h.object? c p = g.object? c p
  rest : ∀ c, known c → ∀ next, g.object? c (.iri (rdf "rest")) = some next → known next

theorem SameCells.isCell {known : Term → Prop} (same : SameCells known g h) (inside : known cell) :
    h.IsCell cell item ↔ g.IsCell cell item := by
  rw [IsCell, IsCell, same.object? cell inside]

theorem SameCells.walked {known : Term → Prop} (same : SameCells known g h) (inside : known head)
    (walked : g.Walked visited head cells) : h.Walked visited head cells := by
  induction walked with
  | ended nothing => exact .ended (nothing.imp_right fun none item first =>
      none item ((same.isCell inside).mp first))
  | last new first unlinked =>
    exact .last new ((same.isCell inside).mpr first) ((same.object? _ inside _).trans unlinked)
  | step new first link _ ih =>
    exact .step new ((same.isCell inside).mpr first) ((same.object? _ inside _).trans link)
      (ih (same.rest _ inside _ link))

theorem SameCells.listItems {known : Term → Prop} (same : SameCells known g h)
    (inside : known head) : h.listItems head = g.listItems head := by
  obtain ⟨cells, walked, read⟩ := listItems_eq_iff.mp (rfl : g.listItems head = g.listItems head)
  exact listItems_eq_iff.mpr ⟨cells, same.walked inside walked, read⟩

/-! ### Collections that are added -/

/-- No label of the graph has a number that is still to be given. -/
def Counted (g : Graph) : Prop := ∀ t ∈ g, ∀ n, t.Mentions s!"b{n}" → n ≤ g.lastBlank

/-- The terms of a graph. -/
def Holds (g : Graph) (u : Term) : Prop :=
  ∃ t ∈ g, u = t.subject ∨ u = t.predicate ∨ u = t.object

/-- A node that will not be made. -/
def Known (g : Graph) (u : Term) : Prop := ∀ n, u = .numbered n → n ≤ g.lastBlank

theorem Counted.known (counted : g.Counted) {u : Term} (held : g.Holds u) : g.Known u := by
  rintro n rfl
  obtain ⟨t, member, place⟩ := held
  refine counted t member n ?_
  exact place.imp Eq.symm (Or.imp Eq.symm Eq.symm)

theorem Counted.bounded (counted : g.Counted) : Turtle.Bounded g :=
  fun t member _ same => counted.known ⟨t, member, .inl rfl⟩ _ same

/-- Statements about new nodes change no collection of nodes that were there. -/
theorem sameCells_of_grown {used : Term → Prop} (counted : g.Counted)
    (grown : Turtle.Grown used (fun _ => False) g h) : SameCells g.Known g h where
  object? c known p := by
    have found (o : Term) : o ∈ h.bySubject.find c p ↔ o ∈ g.bySubject.find c p :=
      mem_iff.symm.trans ((grown.same (fun _ _ => id) known p o).trans mem_iff)
    exact congrArg (·.toList.head?) (SortedSet.ext_mem found)
  rest c _ next link :=
    counted.known ⟨_, mem_objects.mp (List.mem_of_head? link), .inr (.inr rfl)⟩

/-- What adding a collection comes to. -/
structure Gains (g h : Graph) (head : Term) (items : List Term) : Prop where
  listItems : h.listItems head = items
  kept : ∀ t ∈ g, t ∈ h
  others : ∀ other, g.Holds other → h.listItems other = g.listItems other

/-- A collection that is added to a graph, no label of which is still to be given, is found with all
its items beside what the graph held before. In every graph, from every head, a collection is read
in a walk that visits no cell twice. -/
theorem gains_addList_and_walked (g : Graph) :
    (g.Counted → ∀ items, Gains g (g.addList items).2 (g.addList items).1 items) ∧
    ∀ head, ∃ cells, g.Walked [] head cells ∧ (cells.map Prod.fst).Nodup ∧
      cells.length ≤ g.subjectsAll.length ∧ g.listItems head = cells.map Prod.snd := by
  constructor
  · intro counted items
    obtain ⟨grown, -, cells⟩ : Turtle.Grown (fun _ => True) (fun _ => False) g (g.addList items).2 ∧
        Turtle.Bounded (g.addList items).2 ∧ Turtle.Cells (g.addList items).2 g.lastBlank
          (g.addList items).2.lastBlank items (g.addList items).1 :=
      Turtle.cells_addList trivial trivial counted.bounded items
    have same := sameCells_of_grown counted grown
    exact ⟨Turtle.listItems_cells cells, grown.kept,
      fun other held => same.listItems (counted.known held)⟩
  · intro head
    obtain ⟨cells, walked, read⟩ := listItems_eq_iff.mp (rfl : g.listItems head = _)
    exact ⟨cells, walked, walked.nodup, walked.length_le, read⟩

/-- A graph with one cell, which is linked to itself. -/
def ring : Graph :=
  let (cell, g) := Graph.blank ∅
  (g.add cell (rdf "first") (.string "again")).add cell (rdf "rest") cell

theorem gains_addList_ring : ring.Counted ∧
    Gains ring (ring.addList [.string "one", .blank "b9"]).2
      (ring.addList [.string "one", .blank "b9"]).1 [.string "one", .blank "b9"] ∧
    ∃ cells, ring.Walked [] (.blank "b1") cells ∧ (cells.map Prod.fst).Nodup ∧
      cells.length ≤ ring.subjectsAll.length ∧
      ring.listItems (.blank "b1") = cells.map Prod.snd := by
  have counted : ring.Counted := by
    intro t member n mentions
    have count : ring.lastBlank = 1 := by decide +kernel
    have number (same : Term.blank s!"b{n}" = .numbered 1) : n ≤ ring.lastBlank := by
      rw [count, Term.numbered_injective same]
    rcases mem_insert.mp member with rfl | member
    · rcases mentions with same | same | same
      · exact number same.symm
      · cases same
      · exact number same.symm
    · rcases mem_insert.mp member with rfl | member
      · rcases mentions with same | same | same
        · exact number same.symm
        · cases same
        · cases same
      · exact absurd (mem_blank.mp member) (not_mem_empty t)
  exact ⟨counted, (gains_addList_and_walked ring).1 counted _,
    (gains_addList_and_walked ring).2 (.blank "b1")⟩

end RepoAudit.Rdf.Graph
