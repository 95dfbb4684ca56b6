import RepoAudit.Audit.Selection
import RepoAudit.Proofs.Text.Fields

/-!
# Files that are found can be read

A walk finds files by the names that lead to them, and later they are read at their paths. In a tree
with plain names the path of every file that was found leads to it again.
-/

namespace RepoAudit

namespace Files

/-! ### Plain names -/

/-- A name that is one step of a path and stays as it is when the path is normalized. -/
def isPlainName (name : String) : Bool :=
  !(["", ".", ".."].contains name) && !name.toList.contains '/' && !name.toList.contains '\\'

theorem isPlainName_iff {name : String} : isPlainName name ↔
    name.toList ≠ [] ∧ name.toList ≠ ['.'] ∧ name.toList ≠ ['.', '.'] ∧
      '/' ∉ name.toList ∧ '\\' ∉ name.toList := by
  have literal (chars : List Char) : name.toList = chars ↔ name = String.ofList chars := by
    rw [← String.toList_inj, String.toList_ofList]
  rw [Ne, Ne, Ne, literal, literal, literal]
  simp [isPlainName, and_assoc]

mutual

/-- Whether a tree has plain names only, and different ones in each directory. -/
def Node.isPlain : Node → Bool
  | .file _ => true
  | .directory es => arePlain es

def arePlain : List (String × Node) → Bool
  | [] => true
  | (name, n) :: rest =>
    isPlainName name && (rest.lookup name).isNone && n.isPlain && arePlain rest

end

section Paths

variable {names : List String}

theorem backslash_not_mem_path (plain : ∀ name ∈ names, isPlainName name) :
    '\\' ∉ ("/".intercalate names).toList := by
  rw [String.toList_intercalate]
  induction names with
  | nil => exact List.not_mem_nil
  | cons name rest ih =>
    have ⟨head, tail⟩ := List.forall_mem_cons.mp plain
    have own := (isPlainName_iff.mp head).2.2.2.2
    cases rest with
    | nil => simpa using own
    | cons next more => simpa using ⟨own, by simpa using ih tail⟩

variable (filled : names ≠ []) (plain : ∀ name ∈ names, isPlainName name)
include filled plain

theorem fields_path : Text.fields '/' ("/".intercalate names).toList = names.map String.toList := by
  rw [String.toList_intercalate]
  refine Text.fields_join (by simpa using filled) fun f member => ?_
  obtain ⟨name, inside, rfl⟩ := List.mem_map.mp member
  exact (isPlainName_iff.mp (plain name inside)).2.2.2.1

/-- A path of plain names stays as it is. -/
theorem normalized_path : normalized ("/".intercalate names) = "/".intercalate names := by
  have slashes := Text.replaceChar_of_not_mem ['/'] (backslash_not_mem_path plain)
  have start : ¬ ['.', '/'].isPrefixOf ("/".intercalate names).toList := by
    intro begins
    obtain ⟨rest, split⟩ := List.isPrefixOf_iff_prefix.mp begins
    have fields := fields_path filled plain
    rw [← split] at fields
    have first : Text.fields '/' (['.', '/'] ++ rest) = ['.'] :: Text.fields '/' rest :=
      Text.fields_append_cons ['.'] rest
    obtain ⟨name, more, rfl, dot, -⟩ := List.map_eq_cons_iff.mp (fields.symm.trans first)
    exact (isPlainName_iff.mp (plain name List.mem_cons_self)).2.1 dot
  rw [normalized, slashes, Text.dropAllStart, dif_neg fun both => start both.2,
    String.ofList_toList]

theorem below?_path (p : Place) :
    p.below? ("/".intercalate names) = p.node.entries.find? names := by
  have steps (before : List String) :
      (names.map String.toList).foldl (fun (names : Option (List String)) name => do
        let names ← names
        if name.isEmpty || name == ['.'] then some names
        else if name == ['.', '.'] then if names.isEmpty then none else some names.dropLast
        else some (names ++ [String.ofList name])) (some before) = some (before ++ names) := by
    clear filled
    induction names generalizing before with
    | nil => simp
    | cons name rest ih =>
      have ⟨head, tail⟩ := List.forall_mem_cons.mp plain
      obtain ⟨filled, dot, dots, -, -⟩ := isPlainName_iff.mp head
      have later := ih tail (before ++ [name])
      rw [List.append_assoc, List.singleton_append] at later
      rw [List.map_cons, List.foldl_cons, ← later]
      simp [filled, dot, dots]
  rw [Place.below?, fields_path filled plain]
  exact (congrArg (Option.bind · p.node.entries.find?) (steps [])).trans rfl

end Paths

/-! ### Walking -/

theorem mem_walkEntries {sets : List Ignore.RuleSet} {above : List String} :
    ∀ {es : List (String × Node)}, arePlain es → ∀ {names content},
      (names, content) ∈ Ignore.walkEntries sets above es → ∃ below, names = above ++ below ∧
        below ≠ [] ∧ (∀ name ∈ below, isPlainName name) ∧
        Entries.find? es below = some (.file content)
  | [], _, _, _, found => by
    cases found
  | (name, n) :: rest, plain, names, content, found => by
    simp only [arePlain, Bool.and_eq_true] at plain
    obtain ⟨⟨⟨plainName, new⟩, plainNode⟩, plainRest⟩ := plain
    rw [Ignore.walkEntries, List.mem_append] at found
    rcases found with here | later
    · split at here
      · cases here
      · cases n with
        | file c =>
          obtain ⟨rfl, rfl⟩ := Prod.mk.inj (List.mem_singleton.mp here)
          refine ⟨[name], rfl, List.cons_ne_nil name [], by simpa using plainName, ?_⟩
          simp [Entries.find?]
        | directory inner =>
          rw [Node.isPlain] at plainNode
          obtain ⟨below, rfl, filled, plainBelow, leads⟩ := mem_walkEntries plainNode here
          refine ⟨name :: below, by simp, List.cons_ne_nil name below,
            List.forall_mem_cons.mpr ⟨plainName, plainBelow⟩, ?_⟩
          simp [Entries.find?, leads]
    · obtain ⟨below, rfl, filled, plainBelow, leads⟩ := mem_walkEntries plainRest later
      refine ⟨below, rfl, filled, plainBelow, ?_⟩
      cases below with
      | nil => exact absurd rfl filled
      | cons next more =>
        -- a name that is found further on is not the first one
        have other : next ≠ name := by
          rintro rfl
          rw [Entries.find?, Option.isNone_iff_eq_none.mp new] at leads
          cases leads
        rw [Entries.find?] at leads ⊢
        rw [List.lookup_cons, beq_false_of_ne other]
        exact leads

/-- In a tree with plain names the path of every file that is found leads to it. -/
theorem content?_of_mem_files {p : Place} (directory : p.node.isDirectory)
    (plain : p.node.isPlain) {names : List String} {content : List UInt8}
    (found : (names, content) ∈ Ignore.files p) :
    p.content? (normalized ("/".intercalate names)) = some content := by
  obtain ⟨⟨found, bytes⟩, walked, same⟩ := List.mem_map.mp found
  obtain ⟨rfl, rfl⟩ := Prod.mk.inj same
  cases node : p.node with
  | file _ => simp [node, Node.isDirectory] at directory
  | directory es =>
    rw [node] at plain walked
    obtain ⟨below, rfl, filled, plainBelow, leads⟩ := mem_walkEntries plain walked
    have file : p.node.entries.find? below = some (.file bytes) := by
      rw [node]
      exact leads
    rw [List.drop_left, normalized_path filled plainBelow, Place.content?,
      below?_path filled plainBelow, file]
    rfl

end Files

namespace Audit

/-- In a tree with plain names every file that is selected can be read. -/
theorem content?_of_mem_select {config : Config} {p : Files.Place} (directory : p.node.isDirectory)
    (plain : p.node.isPlain) {s : Source} (selected : s ∈ select config p) :
    p.content? s.path = some s.content := by
  have sorted : s ∈ ((Ignore.files p).filterMap fun file =>
      source? config file.1 file.2).mergeSort fun a b => (compare a.path b.path).isLE := by
    rw [select] at selected
    split at selected
    · exact selected
    · exact List.mem_of_mem_take selected
  obtain ⟨⟨names, content⟩, found, source⟩ :=
    List.mem_filterMap.mp ((List.mergeSort_perm _ _).mem_iff.mp sorted)
  have read := Files.content?_of_mem_files directory plain found
  dsimp only [source?] at source
  split at source
  · obtain rfl := Option.some.inj source
    exact read
  · cases source

end Audit
end RepoAudit
