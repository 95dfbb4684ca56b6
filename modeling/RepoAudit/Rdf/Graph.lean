import RepoAudit.Ordered.Map
import RepoAudit.Ordered.Set
import RepoAudit.Rdf.Term

/-!
# RDF graphs

A graph is a set of triples with two indexes, by subject and by predicate and object, so that
both questions that validation asks are look-ups. What can be reached from some terms along the
edges of a relation is found for cycles as well.
-/

namespace RepoAudit.Rdf

structure Triple where
  subject : Term
  predicate : Term
  object : Term
deriving DecidableEq, Repr, Inhabited

/-- Sets of terms under two keys. -/
abbrev Index := SortedMap Term (SortedMap Term (SortedSet Term))

namespace Index

def find (i : Index) (a b : Term) : SortedSet Term := ((i.get? a).bind (·.get? b)).getD ∅

def add (i : Index) (a b c : Term) : Index :=
  i.alter a fun m => some ((m.getD ∅).alter b fun s => some ((s.getD ∅).insert c))

/-- Nothing is kept under a key that leads to no term. -/
def Occupied (i : Index) : Prop :=
  ∀ a m, i.get? a = some m → m ≠ ∅ ∧ ∀ b s, m.get? b = some s → s ≠ ∅

theorem mem_find_add {i : Index} {a b c a' b' x : Term} :
    x ∈ (i.add a b c).find a' b' ↔ (a' = a ∧ b' = b ∧ x = c) ∨ x ∈ i.find a' b' := by
  unfold add find
  by_cases sameA : a' = a
  · subst sameA
    rw [SortedMap.get?_alter_same]
    by_cases sameB : b' = b
    · subst sameB
      cases i.get? a' <;> simp [SortedSet.mem_insert]
    · cases i.get? a' <;> simp [SortedMap.get?_alter_other _ sameB, sameB]
  · simp [SortedMap.get?_alter_other _ sameA, sameA]

theorem occupied_empty : Occupied ∅ := fun _ _ found => by simp at found

theorem occupied_add {i : Index} (occupied : i.Occupied) (a b c : Term) :
    (i.add a b c).Occupied := by
  intro a' m found
  by_cases sameA : a' = a
  · subst sameA
    rw [add, SortedMap.get?_alter_same] at found
    obtain rfl := Option.some.inj found
    refine ⟨fun same => ?_, fun b' s found => ?_⟩
    · have stored := SortedMap.get?_alter_same ((i.get? a').getD ∅) b
        (fun s => some ((s.getD ∅).insert c))
      rw [same] at stored
      simp at stored
    · by_cases sameB : b' = b
      · subst sameB
        rw [SortedMap.get?_alter_same] at found
        obtain rfl := Option.some.inj found
        intro same
        have member : c ∈ (∅ : SortedSet Term) := by
          rw [← same, SortedSet.mem_insert]
          exact .inl rfl
        exact SortedSet.not_mem_empty c member
      · rw [SortedMap.get?_alter_other _ sameB] at found
        cases known : i.get? a' with
        | none => simp [known] at found
        | some old =>
          rw [known] at found
          exact (occupied a' old known).2 b' s found
  · rw [add, SortedMap.get?_alter_other _ sameA] at found
    exact occupied a' m found

/-- What is stored under a first key, in terms of what is found. -/
theorem Occupied.get? {i : Index} (occupied : i.Occupied) {a : Term}
    {m : SortedMap Term (SortedSet Term)} (stored : i.get? a = some m) (b : Term) :
    m.get? b = if i.find a b = ∅ then none else some (i.find a b) := by
  have found : i.find a b = (m.get? b).getD ∅ := by simp [find, stored]
  cases held : m.get? b with
  | none => simp [found, held]
  | some s =>
    have filled := (occupied a m stored).2 b s held
    simp [found, held, filled]

theorem get?_of_find {i j : Index} (occupied : i.Occupied) (occupied' : j.Occupied)
    (same : ∀ a b, i.find a b = j.find a b) {a : Term} {m : SortedMap Term (SortedSet Term)}
    (stored : i.get? a = some m) : j.get? a = some m := by
  obtain ⟨filled, filled'⟩ := occupied a m stored
  obtain ⟨⟨b, s⟩, entry⟩ := SortedMap.exists_entry filled
  have held := (SortedMap.mem_entries m).mp entry
  have found : j.find a b = s := by
    rw [← same, find, stored]
    simp [held]
  cases stored' : j.get? a with
  | none =>
    rw [find, stored'] at found
    exact absurd found.symm (filled' b s held)
  | some m' =>
    refine congrArg some (SortedMap.ext_get? fun b => ?_)
    rw [occupied.get? stored, occupied'.get? stored', same]

/-- Indexes in which the same terms are found are equal. -/
theorem ext_find {i j : Index} (occupied : i.Occupied) (occupied' : j.Occupied)
    (same : ∀ a b, i.find a b = j.find a b) : i = j :=
  SortedMap.ext_get? fun _ => Option.ext fun _ => ⟨get?_of_find occupied occupied' same,
    get?_of_find occupied' occupied fun a b => (same a b).symm⟩

end Index

structure Graph where
  /-- The objects of a subject and a predicate. -/
  bySubject : Index := ∅
  /-- The subjects of a predicate and an object. -/
  byPredicate : Index := ∅
  size : Nat := 0
  /-- The number in the label of the blank node made last. -/
  lastBlank : Nat := 0
  /-- The namespaces that are abbreviated when the graph is written. -/
  prefixes : SortedMap String String := ∅
  /-- Both indexes hold the same triples. -/
  mirrored : ∀ s p o, o ∈ bySubject.find s p ↔ s ∈ byPredicate.find p o
  occupied : bySubject.Occupied ∧ byPredicate.Occupied

namespace Graph

/-- The graph without triples. -/
def empty : Graph where
  mirrored := fun s p o => by simp [Index.find]
  occupied := ⟨Index.occupied_empty, Index.occupied_empty⟩

instance : EmptyCollection Graph := ⟨empty⟩

instance : Inhabited Graph := ⟨empty⟩

/-! ### Changing a graph -/

/-- Adds a triple; the first part tells whether it was new. -/
def insertNew (g : Graph) (t : Triple) : Bool × Graph :=
  if (g.bySubject.find t.subject t.predicate).contains t.object then (false, g)
  else (true, { g with
    bySubject := g.bySubject.add t.subject t.predicate t.object
    byPredicate := g.byPredicate.add t.predicate t.object t.subject
    size := g.size + 1
    mirrored := fun s p o => by
      rw [Index.mem_find_add, Index.mem_find_add, g.mirrored]
      grind
    occupied := ⟨Index.occupied_add g.occupied.1 _ _ _, Index.occupied_add g.occupied.2 _ _ _⟩ })

def insert (g : Graph) (t : Triple) : Graph := (g.insertNew t).2

/-- Adds a triple whose predicate is an IRI. -/
def add (g : Graph) (subject : Term) (predicate : String) (object : Term) : Graph :=
  g.insert ⟨subject, .iri predicate, object⟩

def insertMany (g : Graph) (ts : List Triple) : Graph := ts.foldl insert g

/-- A blank node that is new to the graph. -/
def blank (g : Graph) : Term × Graph :=
  (.blank s!"b{g.lastBlank + 1}", { g with lastBlank := g.lastBlank + 1 })

/-- Adds a collection and gives its head; the last cell is made first. -/
def addList (g : Graph) : List Term → Term × Graph
  | [] => (.iri (rdf "nil"), g)
  | item :: rest =>
    let (tail, g) := g.addList rest
    let (cell, g) := g.blank
    (cell, (g.add cell (rdf "first") item).add cell (rdf "rest") tail)

def setPrefix (g : Graph) (name iri : String) : Graph :=
  { g with prefixes := g.prefixes.insert name iri }

/-! ### Questions -/

def contains (g : Graph) (t : Triple) : Bool :=
  (g.bySubject.find t.subject t.predicate).contains t.object

def objects (g : Graph) (subject predicate : Term) : List Term :=
  (g.bySubject.find subject predicate).toList

def object? (g : Graph) (subject predicate : Term) : Option Term :=
  (g.objects subject predicate).head?

def subjects (g : Graph) (predicate object : Term) : List Term :=
  (g.byPredicate.find predicate object).toList

/-- What is stored under a predicate. -/
def ofPredicate (g : Graph) (predicate : Term) : SortedMap Term (SortedSet Term) :=
  (g.byPredicate.get? predicate).getD ∅

/-- The subjects of a predicate. -/
def subjectsWith (g : Graph) (predicate : Term) : SortedSet Term :=
  (g.ofPredicate predicate).values.foldl (fun all s => all.insertMany s.toList) ∅

/-- The objects of a predicate. -/
def objectsWith (g : Graph) (predicate : Term) : SortedSet Term :=
  .ofList (g.ofPredicate predicate).keys

def subjectsAll (g : Graph) : List Term := g.bySubject.keys

/-- What is stored under a subject. -/
def ofSubject (g : Graph) (subject : Term) : SortedMap Term (SortedSet Term) :=
  (g.bySubject.get? subject).getD ∅

/-- The predicates and objects of a subject. -/
def properties (g : Graph) (subject : Term) : List (Term × Term) :=
  (g.ofSubject subject).entries.flatMap fun (p, os) => os.toList.map fun o => (p, o)

/-- All triples in order. -/
def triples (g : Graph) : List Triple :=
  g.bySubject.entries.flatMap fun (s, m) =>
    m.entries.flatMap fun (p, os) => os.toList.map fun o => ⟨s, p, o⟩

instance : Membership Triple Graph := ⟨fun g t => g.contains t⟩

/-! ### Collections -/

/-- Follows a collection from `cell` through cells that have not been visited. -/
def follow (g : Graph) (unvisited : List Term) (cell : Term) : List Term :=
  if _h : cell ∈ unvisited ∧ cell ≠ .iri (rdf "nil") then
    match g.object? cell (.iri (rdf "first")) with
    | none => []
    | some item => item :: match g.object? cell (.iri (rdf "rest")) with
      | none => []
      | some next => g.follow (unvisited.erase cell) next
  else []
termination_by unvisited.length
decreasing_by
  have := List.length_erase_of_mem _h.1
  have := List.length_pos_of_mem _h.1
  omega

/-- The items of a collection, up to its end or the first malformed cell. -/
def listItems (g : Graph) (head : Term) : List Term := g.follow g.subjectsAll head

/-! ### What a graph holds -/

variable {g : Graph}

theorem mem_iff {t : Triple} : t ∈ g ↔ t.object ∈ g.bySubject.find t.subject t.predicate :=
  SortedSet.contains_iff

/-- A triple is stored under its subject, and there under its predicate. -/
theorem mem_iff_entries {t : Triple} : t ∈ g ↔ ∃ m os, (t.subject, m) ∈ g.bySubject.entries ∧
    (t.predicate, os) ∈ m.entries ∧ t.object ∈ os := by
  simp only [mem_iff, Index.find, SortedMap.mem_entries]
  cases bound : g.bySubject.get? t.subject with
  | none => simp
  | some m => cases held : m.get? t.predicate <;> simp [held]

/-- Both indexes are settled by the triples. -/
theorem index_eq {h : Graph} (same : ∀ t, t ∈ g ↔ t ∈ h) :
    g.bySubject = h.bySubject ∧ g.byPredicate = h.byPredicate := by
  have found (s p o : Term) : o ∈ g.bySubject.find s p ↔ o ∈ h.bySubject.find s p := by
    simpa only [mem_iff] using same ⟨s, p, o⟩
  constructor
  · exact Index.ext_find g.occupied.1 h.occupied.1 fun s p => SortedSet.ext_mem (found s p)
  · refine Index.ext_find g.occupied.2 h.occupied.2 fun p o => SortedSet.ext_mem fun s => ?_
    rw [← g.mirrored, ← h.mirrored, found]

theorem mem_triples {t : Triple} : t ∈ g.triples ↔ t ∈ g := by
  obtain ⟨s, p, o⟩ := t
  simp only [triples, mem_iff_entries, List.mem_flatMap, List.mem_map, Prod.exists,
    Triple.mk.injEq]
  constructor
  · rintro ⟨_, m, stored, _, os, held, _, member, rfl, rfl, rfl⟩
    exact ⟨m, os, stored, held, member⟩
  · rintro ⟨m, os, stored, held, member⟩
    exact ⟨s, m, stored, p, os, held, o, member, rfl, rfl, rfl⟩

@[simp] theorem not_mem_empty (t : Triple) : t ∉ (∅ : Graph) := by
  rw [mem_iff]
  exact SortedSet.not_mem_empty t.object

theorem mem_insert {t u : Triple} : u ∈ g.insert t ↔ u = t ∨ u ∈ g := by
  unfold insert insertNew
  split
  · rename_i known
    have known : t ∈ g := known
    exact ⟨.inr, fun either => either.elim (fun same => same ▸ known) id⟩
  · rw [mem_iff, mem_iff, Index.mem_find_add]
    cases t
    cases u
    simp

theorem mem_insertMany {u : Triple} : ∀ {ts : List Triple} {g : Graph},
    u ∈ g.insertMany ts ↔ u ∈ ts ∨ u ∈ g
  | [], g => by simp [insertMany]
  | t :: rest, g => by
    have ih : u ∈ (g.insert t).insertMany rest ↔ u ∈ rest ∨ u ∈ g.insert t := mem_insertMany
    rw [mem_insert] at ih
    rw [List.mem_cons]
    exact ih.trans (or_left_comm.trans or_assoc.symm)

@[simp] theorem mem_blank {u : Triple} : u ∈ g.blank.2 ↔ u ∈ g := .rfl

@[simp] theorem mem_setPrefix {name iri : String} {u : Triple} : u ∈ g.setPrefix name iri ↔ u ∈ g :=
  .rfl

theorem prefixes_foldl_setPrefix : ∀ (ps : List (String × String)) (g : Graph),
    (ps.foldl (fun g p => g.setPrefix p.1 p.2) g).prefixes =
      ps.foldl (fun m p => m.insert p.1 p.2) g.prefixes
  | [], _ => rfl
  | p :: rest, g => prefixes_foldl_setPrefix rest (g.setPrefix p.1 p.2)

@[simp] theorem prefixes_insert (t : Triple) : (g.insert t).prefixes = g.prefixes := by
  unfold insert insertNew
  split <;> rfl

@[simp] theorem prefixes_insertMany : ∀ (ts : List Triple) (g : Graph),
    (g.insertMany ts).prefixes = g.prefixes
  | [], _ => rfl
  | t :: rest, g => (prefixes_insertMany rest (g.insert t)).trans (prefixes_insert t)

theorem insertNew_fst_iff {t : Triple} : (g.insertNew t).1 = true ↔ t ∉ g := by
  unfold insertNew
  split
  · rename_i known
    have known : t ∈ g := known
    simp [known]
  · rename_i new
    have new : t ∉ g := new
    simp [new]

theorem insert_of_mem {t : Triple} (known : t ∈ g) : g.insert t = g :=
  congrArg Prod.snd (if_pos known)

theorem size_insert_of_not_mem {t : Triple} (new : t ∉ g) : (g.insert t).size = g.size + 1 := by
  unfold insert insertNew
  split
  · rename_i known
    exact absurd known new
  · rfl

@[simp] theorem lastBlank_insert (t : Triple) : (g.insert t).lastBlank = g.lastBlank := by
  unfold insert insertNew
  split <;> rfl

/-! ### Answers to questions -/

theorem mem_objects {s p o : Term} : o ∈ g.objects s p ↔ ⟨s, p, o⟩ ∈ g := by
  rw [mem_iff]
  exact .rfl

theorem mem_subjects {s p o : Term} : s ∈ g.subjects p o ↔ ⟨s, p, o⟩ ∈ g := by
  rw [mem_iff, g.mirrored]
  exact .rfl

theorem mem_subjectsWith {s p : Term} : s ∈ g.subjectsWith p ↔ ∃ o, ⟨s, p, o⟩ ∈ g := by
  have folded : ∀ (sets : List (SortedSet Term)) (all : SortedSet Term),
      s ∈ sets.foldl (fun all found => all.insertMany found.toList) all ↔
        (∃ found ∈ sets, s ∈ found) ∨ s ∈ all := by
    intro sets
    induction sets with
    | nil => simp
    | cons first rest ih =>
      intro all
      rw [List.foldl_cons, ih, SortedSet.mem_insertMany]
      simp [or_left_comm, or_assoc]
  have stored : ∀ o, s ∈ g.byPredicate.find p o ↔
      ∃ found, (g.ofPredicate p).get? o = some found ∧ s ∈ found := by
    intro o
    unfold Index.find ofPredicate
    cases g.byPredicate.get? p with
    | none => simp
    | some m => cases held : m.get? o <;> simp [held]
  simp only [subjectsWith, folded, SortedSet.not_mem_empty, or_false, SortedMap.values,
    List.mem_map, Prod.exists, mem_iff, g.mirrored, stored]
  constructor
  · rintro ⟨found, ⟨o, _, held, rfl⟩, member⟩
    exact ⟨o, _, (SortedMap.mem_entries _).mp held, member⟩
  · rintro ⟨o, found, held, member⟩
    exact ⟨found, ⟨o, found, (SortedMap.mem_entries _).mpr held, rfl⟩, member⟩

theorem mem_objectsWith {p o : Term} : o ∈ g.objectsWith p ↔ ∃ s, ⟨s, p, o⟩ ∈ g := by
  simp only [objectsWith, SortedSet.mem_ofList, SortedMap.keys, List.mem_map, Prod.exists,
    exists_and_right, exists_eq_right, SortedMap.mem_entries, mem_iff, g.mirrored]
  unfold Index.find ofPredicate
  cases known : g.byPredicate.get? p with
  | none => simp
  | some m =>
    cases held : m.get? o with
    | none => simp [held]
    | some found =>
      have filled := (g.occupied.2 p m known).2 o found held
      simpa [held] using SortedSet.exists_mem filled

theorem mem_subjectsAll {s : Term} : s ∈ g.subjectsAll ↔ ∃ p o, ⟨s, p, o⟩ ∈ g := by
  rw [subjectsAll, SortedMap.keys, List.mem_map]
  constructor
  · rintro ⟨⟨s, m⟩, stored, rfl⟩
    obtain ⟨filled, filled'⟩ := g.occupied.1 s m ((SortedMap.mem_entries _).mp stored)
    obtain ⟨⟨p, os⟩, held⟩ := SortedMap.exists_entry filled
    obtain ⟨o, member⟩ := SortedSet.exists_mem (filled' p os ((SortedMap.mem_entries m).mp held))
    exact ⟨p, o, mem_iff_entries.mpr ⟨m, os, stored, held, member⟩⟩
  · rintro ⟨p, o, held⟩
    obtain ⟨m, _, stored, -⟩ := mem_iff_entries.mp held
    exact ⟨_, stored, rfl⟩

theorem mem_properties {s p o : Term} : (p, o) ∈ g.properties s ↔ ⟨s, p, o⟩ ∈ g := by
  rw [properties, ofSubject, List.mem_flatMap, mem_iff_entries]
  constructor
  · rintro ⟨⟨p, os⟩, stored, listed⟩
    obtain ⟨o, member, same⟩ := List.mem_map.mp listed
    obtain ⟨rfl, rfl⟩ := Prod.mk.inj same
    cases known : g.bySubject.get? s with
    | none =>
      rw [known] at stored
      cases stored
    | some m =>
      rw [known] at stored
      exact ⟨m, os, (SortedMap.mem_entries _).mpr known, stored, member⟩
  · rintro ⟨m, os, stored, held, member⟩
    rw [(SortedMap.mem_entries _).mp stored]
    exact ⟨(p, os), held, List.mem_map_of_mem member⟩

theorem nodup_subjects (p o : Term) : (g.subjects p o).Nodup := SortedSet.nodup_toList _

theorem object?_eq_none {s p : Term} (absent : ∀ o, ⟨s, p, o⟩ ∉ g) : g.object? s p = none := by
  rw [object?, List.head?_eq_none_iff, List.eq_nil_iff_forall_not_mem]
  exact fun o member => absent o (mem_objects.mp member)

/-- A question with one answer gets it. -/
theorem object?_eq_some {s p o : Term} (held : ⟨s, p, o⟩ ∈ g)
    (only : ∀ other, ⟨s, p, other⟩ ∈ g → other = o) : g.object? s p = some o := by
  have member := mem_objects.mpr held
  unfold object?
  cases answers : g.objects s p with
  | nil => simp [answers] at member
  | cons first rest =>
    have first_mem : first ∈ g.objects s p := by simp [answers]
    rw [List.head?_cons, only first (mem_objects.mp first_mem)]

end Graph

/-! ### Reachability -/

/-- A list without any occurrence of a term. -/
def without (t : Term) (ts : List Term) : List Term := ts.filter (· ≠ t)

theorem length_without_lt {t : Term} {ts : List Term} (h : t ∈ ts) :
    (without t ts).length < ts.length :=
  List.length_filter_lt_length_iff_exists.mpr ⟨t, h, by simp⟩

/-- Visits the terms of `stack` and what follows them, each once and only those in `unseen`. -/
def visit (next : Term → List Term) (unseen stack : List Term) : List Term :=
  match stack with
  | [] => []
  | t :: rest =>
    if _h : t ∈ unseen then t :: visit next (without t unseen) (next t ++ rest)
    else visit next unseen rest
termination_by (unseen.length, stack.length)
decreasing_by
  · exact Prod.Lex.left _ _ (length_without_lt _h)
  · exact Prod.Lex.right _ (by simp)

/-- What can be reached from `start`, where `domain` holds everything that edges lead to. -/
def reachable (next : Term → List Term) (domain start : List Term) : List Term :=
  visit next (start ++ domain) start

end RepoAudit.Rdf
