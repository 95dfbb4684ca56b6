import RepoAudit.Proofs.Ordered.Gathering
import RepoAudit.Proofs.Turtle.Growth

/-!
# Graphs as sets of triples

A graph counts its triples and keeps them in two indexes, of which a question reads one. Beside it
stands the plain set of the triples that were inserted, with no index at all. Whatever is called, the
two answer alike, and the graph then knows the set: each question gets all that the set tells, once
each and in order.
-/

namespace RepoAudit.Rdf

/-! ### Calls -/

/-- A call that changes a graph. -/
inductive Call where
  | insert (t : Triple)
  | add (subject : Term) (predicate : String) (object : Term)
  | addList (items : List Term)
  | blank
  | setPrefix (name iri : String)

inductive Reply where
  /-- Whether the triple was new. -/
  | added (new : Bool)
  | node (t : Term)
  | nothing

/-- The answers to calls and what the last call leaves. -/
def runCalls {σ : Type} (step : σ → Call → Reply × σ) (s : σ) : List Call → List Reply × σ
  | [] => ([], s)
  | call :: rest =>
    let (reply, s) := step s call
    let (later, s) := runCalls step s rest
    (reply :: later, s)

def Graph.call (g : Graph) : Call → Reply × Graph
  | .insert t => (.added (g.insertNew t).1, g.insert t)
  | .add s p o => (.added (g.insertNew ⟨s, .iri p, o⟩).1, g.add s p o)
  | .addList items => (.node (g.addList items).1, (g.addList items).2)
  | .blank => (.node g.blank.1, g.blank.2)
  | .setPrefix name iri => (.nothing, g.setPrefix name iri)

/-! ### The set of triples -/

/-- The triples that were inserted, and how many blank nodes were made. -/
structure Contents where
  triples : Finset Triple := ∅
  blanks : Nat := 0

/-- The head of a collection whose cells are numbered on from `low`, the last cell first. -/
def headOf (low : Nat) : List Term → Term
  | [] => .iri (rdf "nil")
  | _ :: rest => .numbered (low + rest.length + 1)

/-- Every cell of such a collection has an item and leads to the cell behind it. -/
def cellTriples (low : Nat) : List Term → List Triple
  | [] => []
  | item :: rest =>
    ⟨headOf low (item :: rest), .iri (rdf "first"), item⟩ ::
      ⟨headOf low (item :: rest), .iri (rdf "rest"), headOf low rest⟩ :: cellTriples low rest

namespace Contents

def insert (c : Contents) (t : Triple) : Contents := { c with triples := Insert.insert t c.triples }

def call (c : Contents) : Call → Reply × Contents
  | .insert t => (.added (t ∉ c.triples), c.insert t)
  | .add s p o => (.added (⟨s, .iri p, o⟩ ∉ c.triples), c.insert ⟨s, .iri p, o⟩)
  | .addList items => (.node (headOf c.blanks items),
    ⟨(cellTriples c.blanks items).toFinset ∪ c.triples, c.blanks + items.length⟩)
  | .blank => (.node (.numbered (c.blanks + 1)), { c with blanks := c.blanks + 1 })
  | .setPrefix _ _ => (.nothing, c)

end Contents

/-! ### Calls on both -/

/-- A graph with just these triples, in which as many blank nodes were made. -/
structure Graph.Keeps (g : Graph) (c : Contents) : Prop where
  mem : ∀ t, t ∈ g ↔ t ∈ c.triples
  size : g.size = c.triples.card
  blanks : g.lastBlank = c.blanks

namespace Graph

variable {g : Graph} {c : Contents}

theorem keeps_empty : (∅ : Graph).Keeps {} where
  mem t := by simp
  size := rfl
  blanks := rfl

theorem Keeps.isNew (keeps : g.Keeps c) (t : Triple) :
    (g.insertNew t).1 = decide (t ∉ c.triples) := by
  rw [Bool.eq_iff_iff, insertNew_fst_iff, keeps.mem, decide_eq_true_iff]

theorem Keeps.insert (keeps : g.Keeps c) (t : Triple) : (g.insert t).Keeps (c.insert t) := by
  by_cases known : t ∈ g
  · have same : Insert.insert t c.triples = c.triples :=
      Finset.insert_eq_of_mem ((keeps.mem t).mp known)
    rw [insert_of_mem known, Contents.insert, same]
    exact keeps
  · have new : t ∉ c.triples := (keeps.mem t).not.mp known
    constructor
    case mem =>
      intro u
      rw [mem_insert, Contents.insert, Finset.mem_insert, keeps.mem]
    case size =>
      rw [size_insert_of_not_mem known, Contents.insert, keeps.size,
        Finset.card_insert_of_notMem new]
    case blanks =>
      rw [lastBlank_insert]
      exact keeps.blanks

theorem Keeps.blank (keeps : g.Keeps c) : g.blank.1 = .numbered (c.blanks + 1) ∧
    g.blank.2.Keeps { c with blanks := c.blanks + 1 } := by
  constructor
  · rw [← keeps.blanks]
    rfl
  · exact ⟨keeps.mem, keeps.size, congrArg (· + 1) keeps.blanks⟩

theorem Keeps.addList (keeps : g.Keeps c) (items : List Term) :
    (g.addList items).1 = headOf c.blanks items ∧ (g.addList items).2.Keeps
      ⟨(cellTriples c.blanks items).toFinset ∪ c.triples, c.blanks + items.length⟩ := by
  -- the cells of the items behind are made first, so no other graph comes in
  induction items with
  | nil =>
    refine ⟨rfl, ?_⟩
    rw [cellTriples, List.toFinset_nil, Finset.empty_union]
    exact keeps
  | cons item rest ih =>
    obtain ⟨tail, kept⟩ := ih
    obtain ⟨cell, kept⟩ := kept.blank
    have made : (g.addList (item :: rest)).2 = ((g.addList rest).2.blank.2.insert
        ⟨(g.addList rest).2.blank.1, .iri (rdf "first"), item⟩).insert
        ⟨(g.addList rest).2.blank.1, .iri (rdf "rest"), (g.addList rest).1⟩ := rfl
    refine ⟨cell, ?_⟩
    rw [made, tail, cell, cellTriples, List.toFinset_cons, List.toFinset_cons, Finset.insert_comm,
      Finset.insert_union, Finset.insert_union]
    exact (kept.insert _).insert _

/-- A call is answered by the graph as by the set, and the graph keeps the set behind it. -/
theorem Keeps.call (keeps : g.Keeps c) (call : Call) :
    (g.call call).1 = (c.call call).1 ∧ (g.call call).2.Keeps (c.call call).2 := by
  cases call with
  | insert t => exact ⟨congrArg Reply.added (keeps.isNew t), keeps.insert t⟩
  | add s p o => exact ⟨congrArg Reply.added (keeps.isNew _), keeps.insert _⟩
  | addList items =>
    obtain ⟨head, kept⟩ := keeps.addList items
    exact ⟨congrArg Reply.node head, kept⟩
  | blank =>
    obtain ⟨node, kept⟩ := keeps.blank
    exact ⟨congrArg Reply.node node, kept⟩
  | setPrefix name iri => exact ⟨rfl, keeps.mem, keeps.size, keeps.blanks⟩

theorem Keeps.runCalls (keeps : g.Keeps c) (calls : List Call) :
    (runCalls Graph.call g calls).1 = (runCalls Contents.call c calls).1 ∧
      (runCalls Graph.call g calls).2.Keeps (runCalls Contents.call c calls).2 := by
  induction calls generalizing g c with
  | nil => exact ⟨rfl, keeps⟩
  | cons call rest ih =>
    obtain ⟨reply, kept⟩ := keeps.call call
    obtain ⟨later, kept⟩ := ih kept
    refine ⟨?_, kept⟩
    unfold Rdf.runCalls
    exact congrArg₂ List.cons reply later

end Graph

/-! ### Questions -/

/-- All that satisfies `p`, each once and in increasing order. -/
structure Lists {α : Type} (order : α → α → Ordering) (p : α → Prop) (answers : List α) : Prop where
  mem : ∀ a, a ∈ answers ↔ p a
  nodup : answers.Nodup
  increasing : answers.Pairwise (order · · = .lt)

/-- By the first terms, then by the second ones. -/
def pairOrder : Term × Term → Term × Term → Ordering :=
  compareLex (compareOn Prod.fst) (compareOn Prod.snd)

instance : Std.ReflCmp pairOrder :=
  inferInstanceAs (Std.ReflCmp (compareLex (compareOn Prod.fst) (compareOn Prod.snd)))

def Triple.order : Triple → Triple → Ordering :=
  compareLex (compareOn subject) (compareLex (compareOn predicate) (compareOn object))

instance : Std.ReflCmp Triple.order :=
  inferInstanceAs (Std.ReflCmp
    (compareLex (compareOn Triple.subject) (compareLex (compareOn Triple.predicate)
      (compareOn Triple.object))))

/-- The graph answers every question as the set does. -/
structure Graph.Knows (g : Graph) (ts : Finset Triple) : Prop where
  bySubject : ∀ s p o, o ∈ g.bySubject.find s p ↔ ⟨s, p, o⟩ ∈ ts
  byPredicate : ∀ s p o, s ∈ g.byPredicate.find p o ↔ ⟨s, p, o⟩ ∈ ts
  size : g.size = ts.card
  contains : ∀ t, g.contains t = true ↔ t ∈ ts
  objects : ∀ s p, Lists compare (fun o => ⟨s, p, o⟩ ∈ ts) (g.objects s p)
  subjects : ∀ p o, Lists compare (fun s => ⟨s, p, o⟩ ∈ ts) (g.subjects p o)
  subjectsWith : ∀ p, Lists compare (fun s => ∃ o, ⟨s, p, o⟩ ∈ ts) (g.subjectsWith p).toList
  objectsWith : ∀ p, Lists compare (fun o => ∃ s, ⟨s, p, o⟩ ∈ ts) (g.objectsWith p).toList
  subjectsAll : Lists compare (fun s => ∃ p o, ⟨s, p, o⟩ ∈ ts) g.subjectsAll
  properties : ∀ s, Lists pairOrder (fun q => ⟨s, q.1, q.2⟩ ∈ ts) (g.properties s)
  triples : Lists Triple.order (· ∈ ts) g.triples

section Order

variable {α : Type} {order : α → α → Ordering} {p : α → Prop} {answers : List α}

theorem lists_of_increasing [Std.ReflCmp order] (mem : ∀ a, a ∈ answers ↔ p a)
    (increasing : answers.Pairwise (order · · = .lt)) : Lists order p answers := by
  refine ⟨mem, ?_, increasing⟩
  apply increasing.imp
  intro a b less same
  subst same
  have same : order a a = .eq := Std.ReflCmp.compare_self
  rw [same] at less
  cases less

theorem lists_toList {s : SortedSet Term} {p : Term → Prop} (mem : ∀ a, a ∈ s ↔ p a) :
    Lists compare p s.toList :=
  lists_of_increasing mem s.sorted

/-- What is listed key by key is in order if it is so under each key and from key to key. -/
theorem pairwise_entries {β γ : Type} {m : SortedMap Term β} {f : Term × β → List γ}
    {less : γ → γ → Prop} (within : ∀ e ∈ m.entries, (f e).Pairwise less)
    (across : ∀ e e', compare e.1 e'.1 = .lt → ∀ x ∈ f e, ∀ y ∈ f e', less x y) :
    (m.entries.flatMap f).Pairwise less :=
  List.pairwise_flatMap.mpr ⟨within, m.sorted.imp fun before => across _ _ before⟩

end Order

namespace Graph

variable {g : Graph} {c : Contents}

theorem properties_increasing (s : Term) :
    (g.properties s).Pairwise (pairOrder · · = .lt) := by
  unfold properties
  apply pairwise_entries
  · intro e _
    apply List.pairwise_map.mpr
    apply e.2.sorted.imp
    intro o o' before
    exact Ordering.then_eq_lt.mpr (.inr ⟨Std.ReflCmp.compare_self, before⟩)
  · intro e e' before x listed y listed'
    obtain ⟨o, -, rfl⟩ := List.mem_map.mp listed
    obtain ⟨o', -, rfl⟩ := List.mem_map.mp listed'
    exact Ordering.then_eq_lt.mpr (.inl before)

/-- Under one subject the triples are in the order of its properties. -/
theorem triples_eq : g.triples =
    g.bySubject.entries.flatMap fun e => (g.properties e.1).map fun q => ⟨e.1, q.1, q.2⟩ := by
  unfold triples
  apply List.flatMap_congr
  intro e stored
  have held : g.ofSubject e.1 = e.2 := by
    rw [ofSubject, (SortedMap.mem_entries _).mp stored, Option.getD_some]
  rw [properties, held, List.map_flatMap]
  simp only [List.map_map]
  rfl

theorem triples_increasing : g.triples.Pairwise (Triple.order · · = .lt) := by
  rw [triples_eq]
  apply pairwise_entries
  · intro e _
    apply List.pairwise_map.mpr
    apply (properties_increasing e.1).imp
    intro q q' before
    exact Ordering.then_eq_lt.mpr (.inr ⟨Std.ReflCmp.compare_self, before⟩)
  · intro e e' before x listed y listed'
    obtain ⟨q, -, rfl⟩ := List.mem_map.mp listed
    obtain ⟨q', -, rfl⟩ := List.mem_map.mp listed'
    exact Ordering.then_eq_lt.mpr (.inl before)

theorem Keeps.knows (keeps : g.Keeps c) : g.Knows c.triples where
  bySubject s p o := mem_iff.symm.trans (keeps.mem ⟨s, p, o⟩)
  byPredicate s p o := (g.mirrored s p o).symm.trans (mem_iff.symm.trans (keeps.mem ⟨s, p, o⟩))
  size := keeps.size
  contains t := keeps.mem t
  objects s p := lists_toList fun o => mem_objects.trans (keeps.mem ⟨s, p, o⟩)
  subjects p o := lists_toList fun s => mem_subjects.trans (keeps.mem ⟨s, p, o⟩)
  subjectsWith p := lists_toList fun s =>
    mem_subjectsWith.trans (exists_congr fun o => keeps.mem ⟨s, p, o⟩)
  objectsWith p := lists_toList fun o =>
    mem_objectsWith.trans (exists_congr fun s => keeps.mem ⟨s, p, o⟩)
  subjectsAll := lists_of_increasing
    (fun s => mem_subjectsAll.trans
      (exists_congr fun p => exists_congr fun o => keeps.mem ⟨s, p, o⟩))
    (g.bySubject.sorted.map _ fun _ _ before => before)
  properties s := lists_of_increasing (fun q => mem_properties.trans (keeps.mem ⟨s, q.1, q.2⟩))
    (properties_increasing s)
  triples := lists_of_increasing (fun t => mem_triples.trans (keeps.mem t)) triples_increasing

/-- Calls on the empty graph are answered as calls on the empty set are, and the graph then knows
the set. -/
theorem knows_runCalls (calls : List Call) :
    (runCalls Graph.call ∅ calls).1 = (runCalls Contents.call {} calls).1 ∧
      (runCalls Graph.call ∅ calls).2.Knows (runCalls Contents.call {} calls).2.triples := by
  obtain ⟨replies, keeps⟩ := keeps_empty.runCalls calls
  exact ⟨replies, keeps.knows⟩

/-- A node that was named by hand is taken for the cell that is made with its label. -/
example : (((∅ : Graph).add (.blank "b1") (rdf "first") (.string "x")).addList [.string "x"]).2.size =
    2 := by
  decide +kernel

end Graph
end RepoAudit.Rdf
