import RepoAudit.Proofs.Report.Identity
import RepoAudit.Proofs.Text.Words

/-!
# Nodes of pairs

The node of a pair of files, and that of an import, is named by the hash of two texts with a bar
between them. The texts may hold bars themselves, so that two pairs can have one node although no
hashes collide: `edges_apart` says exactly when.
-/

namespace RepoAudit.Report

open Project Rdf Text

/-! ### Joined texts -/

/-- Two pairs of texts are the same text when they are joined, but the bar between the texts of each
is one that a text of the other holds. -/
def Shifted (a b a' b' : String) : Prop :=
  ∃ m, a' = a ++ "|" ++ m ∧ b = m ++ "|" ++ b' ∨ a = a' ++ "|" ++ m ∧ b' = m ++ "|" ++ b

theorem append_cons_eq_append_cons_iff {α : Type} {sep : α} {a b a' b' : List α} :
    a ++ sep :: b = a' ++ sep :: b' ↔ a = a' ∧ b = b' ∨
      ∃ m, a' = a ++ sep :: m ∧ b = m ++ sep :: b' ∨ a = a' ++ sep :: m ∧ b' = m ++ sep :: b := by
  have ahead {a b a' b' rest : List α} (long : a' = a ++ rest)
      (same : sep :: b = rest ++ sep :: b') :
      a = a' ∧ b = b' ∨ ∃ m, a' = a ++ sep :: m ∧ b = m ++ sep :: b' := by
    cases rest with
    | nil => exact .inl ⟨by simpa using long.symm, (List.cons.inj same).2⟩
    | cons c m =>
      obtain ⟨rfl, rfl⟩ := List.cons.inj same
      exact .inr ⟨m, long, rfl⟩
  constructor
  · intro same
    rcases List.append_eq_append_iff.mp same with ⟨rest, long, same⟩ | ⟨rest, long, same⟩
    · exact (ahead long same).imp_right fun ⟨m, parts⟩ => ⟨m, .inl parts⟩
    · exact (ahead long same).imp (.imp Eq.symm Eq.symm) fun ⟨m, parts⟩ => ⟨m, .inr parts⟩
  · rintro (⟨rfl, rfl⟩ | ⟨m, ⟨rfl, rfl⟩ | ⟨rfl, rfl⟩⟩)
    · rfl
    · rw [List.append_assoc, List.cons_append]
    · rw [List.append_assoc, List.cons_append]

theorem eq_joined_iff {x y z : String} :
    x = y ++ "|" ++ z ↔ x.toList = y.toList ++ '|' :: z.toList := by
  simp [← String.toList_inj]

theorem joined_eq_iff {a b a' b' : String} :
    a ++ "|" ++ b = a' ++ "|" ++ b' ↔ a = a' ∧ b = b' ∨ Shifted a b a' b' := by
  have chars : (a ++ "|" ++ b).toList = a.toList ++ '|' :: b.toList := eq_joined_iff.mp rfl
  rw [eq_joined_iff, chars, append_cons_eq_append_cons_iff, String.toList_inj, String.toList_inj]
  refine or_congr_right ?_
  simp only [Shifted, eq_joined_iff]
  constructor
  · rintro ⟨m, parts⟩
    exact ⟨String.ofList m, by rwa [String.toList_ofList]⟩
  · rintro ⟨m, parts⟩
    exact ⟨m.toList, parts⟩

/-- A text that goes on after a bar belongs to another node. -/
theorem node_ne_of_bar (a m : String) : node (a ++ "|" ++ m) ≠ node a := by
  intro same
  have parts := entityIri_eq_iff.mp (Term.iri.inj same)
  rw [eq_joined_iff.mp rfl, localPart, localPart] at parts
  cases found : dropStart? idMark a.toList with
  | some rest =>
    rw [eq_of_dropStart? found, List.append_assoc, dropStart?_append, dropStart?_append] at parts
    simp at parts
  | none =>
    have longer : dropStart? idMark (a.toList ++ '|' :: m.toList) = none :=
      dropStart?_eq_none_iff.mpr fun begins =>
        dropStart?_eq_none_iff.mp found (prefix_of_prefix_append_cons (by decide) begins)
    rw [longer, found] at parts
    simp at parts

/-! ### What is told of a pair -/

section Edges

variable {p : Project} {property : String} {o : Term}

/-- The properties of pairs. -/
def edgeProperties : List String := ["source", "target", "weight"]

theorem edge_of_property (among : property ∈ edgeProperties) {r : Record}
    (own : property ∈ r.properties) :
    (∃ pair n, r = .coupling pair n) ∨ ∃ d, r = .dependency d := by
  simp only [edgeProperties, List.mem_cons, List.not_mem_nil, or_false] at among
  cases r with
  | coupling pair n => exact .inl ⟨pair, n, rfl⟩
  | dependency d => exact .inr ⟨d, rfl⟩
  | _ => rcases among with rfl | rfl | rfl <;> simp [Record.properties] at own

/-- All that is told of the node of a pair is told of a pair with this node. -/
theorem mem_objects_edge_iff (among : property ∈ edgeProperties) {pair : UnorderedPair} :
    o ∈ (graph p).objects (couplingNode pair) (.iri (repo property)) ↔
      ∃ pair' n, p.coupling.get? pair' = some n ∧ couplingNode pair' = couplingNode pair ∧
        o ∈ valuesOf (repo property) (couplingFacts pair' n) := by
  constructor
  · intro held
    have other : ∀ property ∈ edgeProperties, property ∉ links := by decide
    have own : ∀ link ∈ links, repo property ≠ repo link := fun link linked same =>
      other _ among (repo_inj.mp same ▸ linked)
    obtain ⟨r, listed, same, value⟩ := (fact_mem_graph_iff own).mp (Graph.mem_objects.mp held)
    rcases edge_of_property among (mem_properties value) with ⟨pair', n, rfl⟩ | ⟨d, rfl⟩
    · have stored : p.coupling.get? pair' = some n := by
        simpa [records, Record.ofEntry, SortedMap.mem_entries] using listed
      exact ⟨pair', n, stored, same.symm, value⟩
    · have kinds := (idOf_coupling pair).of_node (idOf_dependency d) (by decide) (by decide) same
      exact absurd kinds.1 (by decide)
  · rintro ⟨pair', n, stored, same, value⟩
    have listed : Record.coupling pair' n ∈ records p :=
      Record.Stored.mem (r := .coupling pair' n) stored
    rw [← same]
    exact mem_objects_of_record listed value

/-- The text of which the identifier of an import has the hash. -/
def importText (d : Dependency) : String := s!"{d.source}|{d.target}"

/-- Different texts of imports have different hashes. -/
def ImportHashesApart (p : Project) : Prop :=
  ∀ d ∈ p.dependencies, ∀ d' ∈ p.dependencies,
    Digest.shortHash (importText d) = Digest.shortHash (importText d') →
      importText d = importText d'

instance (p : Project) : Decidable (ImportHashesApart p) :=
  inferInstanceAs (Decidable (∀ d ∈ p.dependencies.toList, ∀ d' ∈ p.dependencies.toList, _))

/-- Pairs of texts without a collision of hashes have one node if they are equal or shifted. -/
theorem node_hash_eq_iff (kind : String) {a b a' b' text text' : String}
    (joined : text = a ++ "|" ++ b) (joined' : text' = a' ++ "|" ++ b')
    (apart : Digest.shortHash text = Digest.shortHash text' → text = text') :
    node ("repo:" ++ kind ++ Digest.shortHash text) =
        node ("repo:" ++ kind ++ Digest.shortHash text') ↔
      a = a' ∧ b = b' ∨ Shifted a b a' b' := by
  rw [← joined_eq_iff, ← joined, ← joined', String.append_assoc, String.append_assoc,
    node_marked_inj, String.append_right_inj]
  exact ⟨apart, congrArg Digest.shortHash⟩

theorem pairText_eq (pair : UnorderedPair) : pairText pair = pair.first ++ "|" ++ pair.second := by
  simp [pairText, toString]

theorem importText_eq (d : Dependency) : importText d = d.source ++ "|" ++ d.target := by
  simp [importText, toString]

/-- Two pairs of files have one node if they are equal or shifted. -/
theorem couplingNode_eq_iff (apart : HashesApart p) {pair pair' : UnorderedPair}
    (stored : pair ∈ p.coupling.keys) (stored' : pair' ∈ p.coupling.keys) :
    couplingNode pair = couplingNode pair' ↔
      pair = pair' ∨ Shifted pair.first pair.second pair'.first pair'.second := by
  have parts : pair = pair' ↔ pair.first = pair'.first ∧ pair.second = pair'.second := by
    cases pair
    cases pair'
    simp
  rw [parts]
  exact node_hash_eq_iff "coupling/" (pairText_eq pair) (pairText_eq pair')
    (apart pair stored pair' stored')

/-- Two imports have one node if they have the same source and target or are shifted. -/
theorem dependencyNode_eq_iff (apart : ImportHashesApart p) {d d' : Dependency}
    (stored : d ∈ p.dependencies) (stored' : d' ∈ p.dependencies) :
    dependencyNode d = dependencyNode d' ↔ d.source = d'.source ∧ d.target = d'.target ∨
      Shifted d.source d.target d'.source d'.target :=
  node_hash_eq_iff "dependency/" (importText_eq d) (importText_eq d') (apart d stored d' stored')

/-- A pair has exactly one source, target and weight if no other pair of the project is shifted
against it. -/
theorem objects_edge_iff (apart : HashesApart p) {pair : UnorderedPair} {n : Nat}
    (stored : p.coupling.get? pair = some n) :
    ((graph p).objects (couplingNode pair) (.iri (repo "source")) = [node pair.first] ∧
      (graph p).objects (couplingNode pair) (.iri (repo "target")) = [node pair.second] ∧
      (graph p).objects (couplingNode pair) (.iri (repo "weight")) = [count n]) ↔
    ∀ pair' ∈ p.coupling.keys, ¬ Shifted pair.first pair.second pair'.first pair'.second := by
  have kept : pair ∈ p.coupling.keys := SortedMap.mem_keys.mpr ⟨n, stored⟩
  constructor
  · rintro ⟨source, -⟩ pair' kept' shifted
    obtain ⟨n', stored'⟩ := SortedMap.mem_keys.mp kept'
    have same := (couplingNode_eq_iff apart kept kept').mpr (.inr shifted)
    have held : node pair'.first ∈ (graph p).objects (couplingNode pair) (.iri (repo "source")) :=
      (mem_objects_edge_iff (by decide)).mpr
        ⟨pair', n', stored', same.symm, by simp [couplingFacts]⟩
    rw [source, List.mem_singleton] at held
    obtain ⟨m, ⟨longer, -⟩ | ⟨longer, -⟩⟩ := shifted
    · rw [longer] at held
      exact node_ne_of_bar _ _ held
    · rw [longer] at held
      exact node_ne_of_bar _ _ held.symm
  · intro unshifted
    have only {property : String} {value : Term} (among : property ∈ edgeProperties)
        (given : valuesOf (repo property) (couplingFacts pair n) = [value]) :
        (graph p).objects (couplingNode pair) (.iri (repo property)) = [value] := by
      refine eq_of_single (SortedSet.nodup_toList _) (fun o => ?_) le_rfl
      rw [mem_objects_edge_iff among, ← given]
      constructor
      · rintro ⟨pair', n', stored', same, value⟩
        have kept' : pair' ∈ p.coupling.keys := SortedMap.mem_keys.mpr ⟨n', stored'⟩
        rcases (couplingNode_eq_iff apart kept kept').mp same.symm with rfl | shifted
        · rwa [Option.some.inj (stored.symm.trans stored')]
        · exact absurd shifted (unshifted pair' kept')
      · exact fun value => ⟨pair, n, stored, rfl, value⟩
    exact ⟨only (by decide) (by simp [couplingFacts]), only (by decide) (by simp [couplingFacts]),
      only (by decide) (by simp [couplingFacts])⟩

end Edges

/-- Pairs of files and imports have nodes of their own, unless a bar is shifted. -/
theorem edges_apart {p : Project} (apart : HashesApart p) (apart' : ImportHashesApart p) :
    (∀ pair ∈ p.coupling.keys, ∀ pair' ∈ p.coupling.keys,
      (couplingNode pair = couplingNode pair' ↔
        pair = pair' ∨ Shifted pair.first pair.second pair'.first pair'.second)) ∧
    (∀ d ∈ p.dependencies, ∀ d' ∈ p.dependencies,
      (dependencyNode d = dependencyNode d' ↔ d.source = d'.source ∧ d.target = d'.target ∨
        Shifted d.source d.target d'.source d'.target)) ∧
    ∀ pair n, p.coupling.get? pair = some n →
      (((graph p).objects (couplingNode pair) (.iri (repo "source")) = [node pair.first] ∧
        (graph p).objects (couplingNode pair) (.iri (repo "target")) = [node pair.second] ∧
        (graph p).objects (couplingNode pair) (.iri (repo "weight")) = [count n]) ↔
      ∀ pair' ∈ p.coupling.keys, ¬ Shifted pair.first pair.second pair'.first pair'.second) :=
  ⟨fun _ stored _ stored' => couplingNode_eq_iff apart stored stored',
    fun _ stored _ stored' => dependencyNode_eq_iff apart' stored stored',
    fun _ _ stored => objects_edge_iff apart stored⟩

/-- Two pairs of files, and two imports, with bars in their texts. -/
def barred : Project where
  coupling := .ofList
    [(.of "repo:file/a|b" "repo:file/c", 1), (.of "repo:file/a" "repo:file/b|c", 2)]
  dependencies := .ofList [⟨"repo:file/a|b", "c", none⟩, ⟨"repo:file/a", "c|b", none⟩]

theorem edges_apart_barred : HashesApart barred ∧ ImportHashesApart barred ∧
    ¬ Shifted "repo:file/a|b" "repo:file/c" "repo:file/a" "repo:file/b|c" ∧
    (∀ pair ∈ barred.coupling.keys, ∀ pair' ∈ barred.coupling.keys,
      (couplingNode pair = couplingNode pair' ↔
        pair = pair' ∨ Shifted pair.first pair.second pair'.first pair'.second)) := by
  have apart : HashesApart barred := by decide +kernel
  have apart' : ImportHashesApart barred := by decide +kernel
  refine ⟨apart, apart', fun shifted => ?_, (edges_apart apart apart').1⟩
  exact absurd (joined_eq_iff.mpr (.inr shifted)) (by decide +kernel)

/-- A directory has a bar in its name, so that two pairs of files are joined to the same text. -/
def ambiguous : Project where
  coupling := .ofList [(.of "repo:file/a|repo:file/b" "repo:file/c", 1),
    (.of "repo:file/a" "repo:file/b|repo:file/c", 2)]

/-- No hashes collide, but two different pairs of files have one node, which has two weights. -/
theorem couplingNode_ambiguous : HashesApart ambiguous ∧ ImportHashesApart ambiguous ∧
    ∃ pair ∈ ambiguous.coupling.keys, ∃ pair' ∈ ambiguous.coupling.keys, pair ≠ pair' ∧
      couplingNode pair = couplingNode pair' ∧
      ∃ n n', n ≠ n' ∧ n ∈ (graph ambiguous).objects (couplingNode pair) (.iri (repo "weight")) ∧
        n' ∈ (graph ambiguous).objects (couplingNode pair) (.iri (repo "weight")) := by
  refine ⟨by decide +kernel, by decide +kernel, .of "repo:file/a|repo:file/b" "repo:file/c",
    by decide +kernel, .of "repo:file/a" "repo:file/b|repo:file/c", by decide +kernel,
    by decide +kernel, by decide +kernel, count 1, count 2, by decide +kernel, ?_, ?_⟩
  · exact (mem_objects_edge_iff (by decide)).mpr
      ⟨_, 1, by decide +kernel, rfl, by simp [couplingFacts]⟩
  · exact (mem_objects_edge_iff (by decide)).mpr
      ⟨.of "repo:file/a" "repo:file/b|repo:file/c", 2, by decide +kernel, by decide +kernel,
        by simp [couplingFacts]⟩

end RepoAudit.Report
