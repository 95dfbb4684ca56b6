import RepoAudit.Audit.Structure
import RepoAudit.Proofs.Ordered.Gathering
import RepoAudit.Proofs.Text.Words

/-!
# Modules share out the files

A module is made of the files that have one top directory, or of those that have none. What a module
is told of is settled by these files alone, so that every file is in one module and the lines of the
modules add up to those of the project.
-/

namespace RepoAudit

namespace SortedSet

variable {α : Type} [Ord α] [Std.TransOrd α]

theorem ofList_concat (xs : List α) (x : α) : ofList (xs ++ [x]) = (ofList xs).insert x :=
  List.foldl_concat insert ∅ x xs

/-- Elements that do not repeat are listed again, in order. -/
theorem toList_ofList_perm [Std.LawfulEqOrd α] {xs : List α} (distinct : xs.Nodup) :
    (ofList xs).toList.Perm xs := by
  refine (List.perm_ext_iff_of_nodup (nodup_toList _) distinct).mpr fun x => ?_
  rw [mem_toList, mem_ofList]

end SortedSet

namespace Project

open Text

/-! ### Top directories -/

/-- What stands before the first slash of a path, or a dot if the path has no slash. -/
def TopDirectory (path name : String) : Prop :=
  (∃ rest, path = name ++ "/" ++ rest ∧ '/' ∉ name.toList) ∨ '/' ∉ path.toList ∧ name = "."

theorem topDirectory_moduleName (path : String) : TopDirectory path (moduleName path) := by
  unfold moduleName
  split
  · rename_i top rest found
    obtain ⟨same, plain⟩ := cut?_eq_some_iff.mp found
    refine .inl ⟨String.ofList rest, String.toList_inj.mp ?_, by simpa using plain⟩
    simp [same]
  · rename_i absent
    exact .inr ⟨cut?_eq_none_iff.mp absent, rfl⟩

theorem moduleName_eq_iff {path name : String} : moduleName path = name ↔ TopDirectory path name := by
  constructor
  · rintro rfl
    exact topDirectory_moduleName path
  · rintro (⟨rest, rfl, plain⟩ | ⟨plain, rfl⟩)
    · have cut : cut? '/' (name ++ "/" ++ rest).toList = some (name.toList, rest.toList) := by
        simpa using cut?_append plain rest.toList
      rw [moduleName, cut]
      exact String.ofList_toList
    · rw [moduleName, cut?_eq_none_iff.mpr plain]

theorem moduleId_injective {name name' : String} (same : moduleId name = moduleId name') :
    name = name' :=
  (String.append_right_inj _).mp same

/-! ### What a module is told of -/

/-- The module of files that have one top directory. -/
def Module.ofFiles (name : String) (files : List File) : Module where
  id := moduleId name
  name := name
  loc := (files.map (·.loc)).sum
  files := .ofList (files.map (·.id))

theorem addToModule_ofFiles {name : String} {f : File} {others : List File}
    (own : f.moduleName = name) {before : Option Module}
    (same : before.getD (.ofFiles name []) = .ofFiles name others) :
    Audit.addToModule f before = .ofFiles name (others ++ [f]) := by
  subst own
  have grown : Audit.addToModule f before =
      { Module.ofFiles f.moduleName others with
        loc := (Module.ofFiles f.moduleName others).loc + f.loc
        files := (Module.ofFiles f.moduleName others).files.insert f.id } := by
    rw [← same]
    rfl
  rw [grown]
  simp only [Module.ofFiles, List.map_append, List.map_cons, List.map_nil, List.sum_append,
    List.sum_cons, List.sum_nil, SortedSet.ofList_concat, Nat.add_zero]

theorem foldl_addToModule {name : String} (own : List File)
    (same : ∀ f ∈ own, f.moduleName = name) :
    own.foldl (fun before f => some (Audit.addToModule f before)) none =
      if own = [] then none else some (.ofFiles name own) := by
  induction own using List.reverseRecOn with
  | nil => rfl
  | append_singleton others f ih =>
    have before := ih fun f' earlier => same f' (List.mem_append_left [f] earlier)
    have last : f.moduleName = name := same f (List.mem_append_right others (List.mem_singleton_self f))
    rw [List.foldl_concat, before, if_neg (List.append_ne_nil_of_right_ne_nil _ (by simp)),
      addToModule_ofFiles last]
    split
    · rename_i empty
      rw [empty]
      rfl
    · rfl

theorem filter_moduleId (files : List File) (name : String) :
    files.filter (moduleId ·.moduleName = moduleId name) = files.filter (·.moduleName = name) := by
  apply List.filter_congr
  intro f _
  exact decide_eq_decide.mpr ⟨moduleId_injective, congrArg moduleId⟩

/-- The modules are those of the top directories that there are. -/
theorem get?_modules_eq_some_iff {files : List File} {id : String} {m : Module} :
    (Audit.modules files).get? id = some m ↔ ∃ name, id = moduleId name ∧
      (∃ f ∈ files, f.moduleName = name) ∧
      m = .ofFiles name (files.filter (·.moduleName = name)) := by
  have gathered (name : String) : (Audit.modules files).get? (moduleId name) =
      if files.filter (·.moduleName = name) = [] then none
      else some (.ofFiles name (files.filter (·.moduleName = name))) := by
    rw [Audit.modules, SortedMap.get?_gathered (fun f : File => moduleId f.moduleName)
      Audit.addToModule, SortedMap.get?_empty, filter_moduleId]
    refine foldl_addToModule _ fun f listed => ?_
    exact of_decide_eq_true (List.mem_filter.mp listed).2
  constructor
  · intro stored
    have named : ∃ name, id = moduleId name := by
      by_contra unnamed
      have nothing : files.filter (moduleId ·.moduleName = id) = [] := by
        apply List.filter_eq_nil_iff.mpr
        intro f _ same
        exact unnamed ⟨f.moduleName, (of_decide_eq_true same).symm⟩
      rw [Audit.modules, SortedMap.get?_gathered (fun f : File => moduleId f.moduleName)
        Audit.addToModule, nothing] at stored
      cases stored
    obtain ⟨name, rfl⟩ := named
    rw [gathered] at stored
    split at stored
    · cases stored
    · rename_i filled
      obtain ⟨f, listed⟩ := List.exists_mem_of_ne_nil _ filled
      obtain ⟨member, own⟩ := List.mem_filter.mp listed
      exact ⟨name, rfl, ⟨f, member, of_decide_eq_true own⟩, (Option.some.inj stored).symm⟩
  · rintro ⟨name, rfl, ⟨f, member, own⟩, rfl⟩
    rw [gathered, if_neg]
    exact List.ne_nil_of_mem (List.mem_filter.mpr ⟨member, decide_eq_true own⟩)

theorem mem_ofFiles {name file : String} {files : List File} :
    file ∈ (Module.ofFiles name files).files ↔ ∃ f ∈ files, f.id = file := by
  rw [Module.ofFiles, SortedSet.mem_ofList, List.mem_map]

/-! ### The modules of a project -/

/-- The modules share out the files and their lines. -/
structure Grouped (p : Project) : Prop where
  /-- A file is in one module, which is that of its top directory. -/
  placed : ∀ file f, p.files.get? file = some f → ∀ id,
    (∃ m, p.modules.get? id = some m ∧ file ∈ m.files) ↔ id = moduleId f.moduleName
  stored : ∀ id m, p.modules.get? id = some m → m.id = id ∧ m.id = moduleId m.name
  filled : ∀ id m, p.modules.get? id = some m → ∃ file, file ∈ m.files
  members : ∀ id m, p.modules.get? id = some m → ∀ file, file ∈ m.files ↔
    ∃ f, p.files.get? file = some f ∧ TopDirectory f.path m.name
  loc : ∀ id m, p.modules.get? id = some m →
    m.loc = (m.files.toList.map fun file => (p.files.get? file).elim 0 File.loc).sum
  total : (p.modules.values.map Module.loc).sum = p.totalLoc

/-- The project with its modules made anew from its files. -/
def regrouped (p : Project) : Project := { p with modules := Audit.modules p.files.values }

section

variable {p : Project} (keyed : ∀ id f, p.files.get? id = some f → f.id = id)
include keyed

theorem mem_members_iff {name file : String} :
    file ∈ (Module.ofFiles name (p.files.values.filter (·.moduleName = name))).files ↔
      ∃ f, p.files.get? file = some f ∧ f.moduleName = name := by
  simp only [mem_ofFiles, List.mem_filter, decide_eq_true_eq]
  constructor
  · rintro ⟨f, ⟨member, own⟩, rfl⟩
    exact ⟨f, (SortedMap.mem_values_of_keyed keyed).mp member, own⟩
  · rintro ⟨f, held, own⟩
    exact ⟨f, ⟨SortedMap.mem_values.mpr ⟨file, held⟩, own⟩, keyed file f held⟩

theorem loc_ofFiles {own : List File} (among : own.Sublist p.files.values) (name : String) :
    (Module.ofFiles name own).loc = ((Module.ofFiles name own).files.toList.map fun file =>
      (p.files.get? file).elim 0 File.loc).sum := by
  have distinct : (own.map (·.id)).Nodup :=
    (SortedMap.nodup_values keyed).sublist (among.map _)
  have each : (own.map (·.id)).map (fun file => (p.files.get? file).elim 0 File.loc) =
      own.map (·.loc) := by
    rw [List.map_map]
    refine List.map_congr_left fun f listed => ?_
    have held := (SortedMap.mem_values_of_keyed keyed).mp (among.subset listed)
    rw [Function.comp_apply, held, Option.elim_some]
  calc (own.map (·.loc)).sum
      = ((own.map (·.id)).map fun file => (p.files.get? file).elim 0 File.loc).sum := by rw [each]
    _ = _ := (((SortedSet.toList_ofList_perm distinct).map _).sum_eq).symm

theorem grouped_of_modules (modules : p.modules = Audit.modules p.files.values) : p.Grouped := by
  have read {id : String} {m : Module} : p.modules.get? id = some m ↔ ∃ name, id = moduleId name ∧
      (∃ f ∈ p.files.values, f.moduleName = name) ∧
      m = .ofFiles name (p.files.values.filter (·.moduleName = name)) := by
    rw [modules]
    exact get?_modules_eq_some_iff
  constructor
  case placed =>
    intro file f held id
    constructor
    · rintro ⟨m, stored, inside⟩
      obtain ⟨name, rfl, -, rfl⟩ := read.mp stored
      obtain ⟨f', held', rfl⟩ := (mem_members_iff keyed).mp inside
      obtain rfl := Option.some.inj (held.symm.trans held')
      rfl
    · rintro rfl
      have member := SortedMap.mem_values.mpr ⟨file, held⟩
      exact ⟨_, read.mpr ⟨f.moduleName, rfl, ⟨f, member, rfl⟩, rfl⟩,
        (mem_members_iff keyed).mpr ⟨f, held, rfl⟩⟩
  case stored =>
    intro id m stored
    obtain ⟨name, rfl, -, rfl⟩ := read.mp stored
    exact ⟨rfl, rfl⟩
  case filled =>
    intro id m stored
    obtain ⟨name, rfl, ⟨f, member, own⟩, rfl⟩ := read.mp stored
    obtain ⟨file, held⟩ := SortedMap.mem_values.mp member
    exact ⟨file, (mem_members_iff keyed).mpr ⟨f, held, own⟩⟩
  case members =>
    intro id m stored file
    obtain ⟨name, rfl, -, rfl⟩ := read.mp stored
    rw [mem_members_iff keyed]
    exact exists_congr fun f => and_congr_right fun _ => moduleName_eq_iff
  case loc =>
    intro id m stored
    obtain ⟨name, rfl, -, rfl⟩ := read.mp stored
    exact loc_ofFiles keyed List.filter_sublist name
  case total =>
    apply SortedMap.sum_gathered (fun f : File => moduleId f.moduleName) p.files.values
    · intro f member
      exact SortedMap.mem_keys.mpr ⟨_, read.mpr ⟨f.moduleName, rfl, ⟨f, member, rfl⟩, rfl⟩⟩
    · intro id m stored
      obtain ⟨name, rfl, -, rfl⟩ := read.mp stored
      rw [filter_moduleId]
      rfl

theorem keyed_withSources (hash : Digest.Algorithm) (sources : List Audit.Source) :
    ∀ id f, (p.withSources hash sources).files.get? id = some f → f.id = id := by
  intro id f stored
  obtain ⟨t, -, same⟩ := List.mem_map.mp (SortedMap.mem_of_get?_ofList stored)
  obtain ⟨rfl, rfl⟩ := Prod.mk.inj same
  cases before : p.files.get? (fileId t.path) with
  | none => rfl
  | some f => exact keyed _ f before

/-- Whatever modules a project had, those made from its files share them out, and so they do once
files have been read. -/
theorem grouped_regrouped : p.regrouped.Grouped ∧
    ∀ hash sources, (p.withSources hash sources).Grouped := by
  constructor
  · exact grouped_of_modules keyed rfl
  · intro hash sources
    exact grouped_of_modules (keyed_withSources keyed hash sources) rfl

end

/-- Paths of many shapes, and a module of an earlier time. -/
def shelf : Project where
  files := .ofList ([("README.md", 3), ("./notes.md", 2), ("/etc/x.conf", 1), ("src//a.rs", 5),
    ("src/b.rs", 7)].map fun (path, loc) => (fileId path, { File.ofPath path with loc }))
  modules := .ofList [(moduleId "old", ⟨moduleId "old", "old", 99, .ofList [fileId "src/b.rs"]⟩)]

theorem grouped_regrouped_shelf : (∀ id f, shelf.files.get? id = some f → f.id = id) ∧
    shelf.regrouped.modules.keys = [moduleId "", moduleId ".", moduleId "src"] ∧
    shelf.regrouped.Grouped ∧ ∀ hash sources, (shelf.withSources hash sources).Grouped := by
  have keyed : ∀ id f, shelf.files.get? id = some f → f.id = id := by
    intro id f stored
    have each : ∀ e ∈ shelf.files.entries, e.2.id = e.1 := by decide +kernel
    exact each (id, f) ((SortedMap.mem_entries _).mpr stored)
  exact ⟨keyed, by decide +kernel, grouped_regrouped keyed⟩

end Project
end RepoAudit
