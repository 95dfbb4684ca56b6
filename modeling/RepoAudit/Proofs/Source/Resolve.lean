import RepoAudit.Audit.Structure
import RepoAudit.Proofs.Audit.Invariant
import RepoAudit.Proofs.Text.Fields
import RepoAudit.Source.Resolve

/-!
# What imports resolve to

An import resolves to tracked files only. Most languages look for a file other than the one that
imports. The path of a class is looked for in all of them, so that a file can import itself.
-/

namespace RepoAudit.Source

open Text

/-! ### Classes -/

/-- The path of a class below the root of its packages. -/
def classPath (target : String) : List Char := replaceChar '.' ['/'] target.toList ++ ".java".toList

/-- The path of a file is that of a class, or leads to it from some directory. -/
def HoldsClass (target path : String) : Prop :=
  path.toList = classPath target ∨ '/' :: classPath target <:+ path.toList

/-- An import of all classes of a package. -/
def OfPackage (target : String) : Prop := ".*".toList <:+ target.toList

theorem javaFile?_eq_some_iff {target : String} {tracked : SortedSet String} {path : String} :
    javaFile? target.toList tracked.toList = some path ↔ ¬ OfPackage target ∧
      HoldsClass target path ∧ path ∈ tracked ∧
        ∀ other ∈ tracked, HoldsClass target other → compare other path ≠ .lt := by
  have held (other : String) : HoldsClass target other ↔ (other.toList == classPath target ||
      (dropEnd? ('/' :: classPath target) other.toList).isSome) = true := by
    rw [Bool.or_eq_true, beq_iff_eq, dropEnd?_isSome_iff, HoldsClass]
  unfold javaFile?
  dsimp only
  rw [← classPath, OfPackage, ← dropEnd?_isSome_iff]
  split
  · rename_i package
    exact iff_of_false (Option.some_ne_none path).symm fun holds => holds.1 package
  · rename_i single
    rw [SortedSet.find?_toList_eq_some_iff, ← held, and_iff_right single]
    refine and_congr_right fun _ => and_congr_right fun _ => forall₂_congr fun other _ => ?_
    rw [← Bool.not_eq_true, ← held]
    exact imp_not_comm

/-! ### All languages -/

/-- A file imports a class and is the first tracked file that holds it. -/
def ImportsItself (source target : String) (tracked : SortedSet String) : Prop :=
  ¬ OfPackage target ∧ HoldsClass target source ∧ source ∈ tracked ∧
    ∀ other ∈ tracked, HoldsClass target other → compare other source ≠ .lt

variable {language source target path : String} {tracked : SortedSet String}

theorem mem_of_resolve? (found : resolve? language source target tracked = some path) :
    path ∈ tracked := by
  unfold resolve? at found
  split at found
  · exact (javaFile?_eq_some_iff.mp found).2.2.1
  · have kept := List.find?_some found
    simp only [Bool.and_eq_true, SortedSet.contains_iff] at kept
    exact kept.2

/-- Only the file of a class can resolve to itself. -/
theorem resolve?_eq_self_iff : resolve? language source target tracked = some source ↔
    language = "java" ∧ ImportsItself source target tracked := by
  unfold resolve?
  split
  · rename_i java
    rw [javaFile?_eq_some_iff, eq_of_beq java, eq_self, true_and, ImportsItself]
  · rename_i other
    refine iff_of_false (fun found => ?_) fun java => other (by simp [java.1])
    have kept := List.find?_some found
    simp at kept

/-! ### Imports of a project -/

/-- The paths of the files of a project. -/
def paths (p : Project) : SortedSet String := .ofList (p.files.values.map (·.path))

theorem mem_dependencies_withSources {p : Project} {hash : Digest.Algorithm}
    {sources : List Audit.Source} {d : Project.Dependency}
    (member : d ∈ (p.withSources hash sources).dependencies) :
    ∃ file language, language? file = some language ∧ d.source = Project.fileId file ∧
      d.resolved = (resolve? language file d.target (paths (p.withSources hash sources))).map
        Project.fileId := by
  have listed := SortedSet.mem_ofList.mp member
  obtain ⟨t, text, listed⟩ := List.mem_flatMap.mp listed
  obtain ⟨source, -, found⟩ := List.mem_filterMap.mp text
  have told : t.language = language? t.path := by rw [Audit.TextFile.eq_of_ofSource? found]
  unfold Audit.TextFile.dependencies at listed
  split at listed
  · rename_i language same
    obtain ⟨target, -, rfl⟩ := List.mem_map.mp listed
    exact ⟨t.path, language, told.symm.trans same, rfl, rfl⟩
  · cases listed

/-- An import resolves to a tracked file. A file resolves to itself if it imports the class that it
holds and no tracked file before it holds that class, and not otherwise; and so the imports of a
project lead to its files, and lead from a file to itself in that case only. -/
theorem resolve?_tracked (language source target : String) (tracked : SortedSet String)
    (p : Project) (hash : Digest.Algorithm) (sources : List Audit.Source) :
    (∀ path, resolve? language source target tracked = some path → path ∈ tracked) ∧
    (resolve? language source target tracked = some source ↔
      language = "java" ∧ ImportsItself source target tracked) ∧
    ∀ d ∈ (p.withSources hash sources).dependencies,
      (∀ id, d.resolved = some id →
        ∃ path ∈ paths (p.withSources hash sources), id = Project.fileId path) ∧
      (d.resolved = some d.source ↔ ∃ file, d.source = Project.fileId file ∧
        language? file = some "java" ∧
          ImportsItself file d.target (paths (p.withSources hash sources))) := by
  refine ⟨fun path => mem_of_resolve?, resolve?_eq_self_iff, fun d member => ?_⟩
  obtain ⟨file, spoken, told, origin, resolved⟩ := mem_dependencies_withSources member
  refine ⟨fun id same => ?_, ?_⟩
  · rw [resolved] at same
    obtain ⟨path, found, rfl⟩ := Option.map_eq_some_iff.mp same
    exact ⟨path, mem_of_resolve? found, rfl⟩
  · rw [resolved, origin, Option.map_eq_some_iff]
    constructor
    · rintro ⟨path, found, same⟩
      obtain rfl := Project.fileId_injective same
      obtain ⟨rfl, itself⟩ := resolve?_eq_self_iff.mp found
      exact ⟨path, rfl, told, itself⟩
    · rintro ⟨file', same, java, itself⟩
      obtain rfl := Project.fileId_injective same
      obtain rfl := Option.some.inj (told.symm.trans java)
      exact ⟨file, resolve?_eq_self_iff.mpr ⟨rfl, itself⟩, rfl⟩

/-- A class with an import of itself. -/
def ownClass : Audit.Source := ⟨"com/acme/User.java", "import com.acme.User;".toUTF8.toList⟩

/-- The import resolves to the file that it stands in, and leads from that file to itself. -/
theorem resolve?_own_class :
    resolve? "java" "com/acme/User.java" "com.acme.User" (.ofList ["com/acme/User.java"]) =
      some "com/acme/User.java" ∧
    ∃ d ∈ ((∅ : Project).withSources .sha256 [ownClass]).dependencies,
      d.resolved = some d.source := by
  refine ⟨by decide +kernel, ⟨"repo:file/com/acme/User.java", "com.acme.User",
    some "repo:file/com/acme/User.java"⟩, ?_, rfl⟩
  rw [← SortedSet.contains_iff]
  decide +kernel

end RepoAudit.Source
