import RepoAudit.Command.Input
import RepoAudit.Proofs.Json.Parts
import RepoAudit.Proofs.Ordered.Gathering
import RepoAudit.Proofs.Text.Utf8

/-!
# Reports read back

A project is read from its report as it was written, record by record and field by field: what is
left out when it has no value is read as having none.
-/

namespace RepoAudit.Report

open Project Json
open Json.Document (Fields string? bool? nat? float? optional? list? map? choice? fields?)
open Json.Document.Fields

/-! ### Fields that may be left out -/

theorem named_nonEmpty (name : String) (items : List String) : Named [name] (nonEmpty name items) := by
  unfold nonEmpty
  split
  · exact List.nil_sublist _
  · exact .refl _

theorem named_contributionsJson (m : SortedMap String Nat) :
    Named ["contributions"] (contributionsJson m) := by
  unfold contributionsJson
  split
  · exact List.nil_sublist _
  · exact .refl _

theorem lookup_nonEmpty {name key : String} {items : List String} : (nonEmpty name items).lookup key =
    if key = name then (if items.isEmpty then none else some (strings items)) else none := by
  unfold nonEmpty
  split
  · simp
  · rw [lookup_cons, List.lookup_nil]

theorem elim_nonEmpty (items : List String) :
    (if items.isEmpty then none else some (strings items)).elim (some [])
      (fun v => strings? v.written) = some items := by
  split
  · rename_i empty
    rw [List.isEmpty_iff.mp empty]
    rfl
  · exact list?_strings items

theorem lookup_contributionsJson {key : String} {m : SortedMap String Nat} :
    (contributionsJson m).lookup key = if key = "contributions" then (if m.isEmpty then none else
      some (.object (m.entries.map fun (person, lines) => (person, .nat lines)))) else none := by
  unfold contributionsJson
  split
  · simp
  · rw [lookup_cons, List.lookup_nil]

theorem elim_contributions {m : SortedMap String Nat} (words : ∀ n ∈ m.values, IsWord n) :
    (if m.isEmpty then none else
      some (Json.object (m.entries.map fun (person, lines) => (person, .nat lines)))).elim (some ∅)
      (fun v => map? nat? v.written) = some m := by
  split
  · rename_i empty
    obtain ⟨entries, sorted⟩ := m
    obtain rfl := List.isEmpty_iff.mp empty
    rfl
  · exact map?_written fun n member => nat?_written (words n member)

theorem strings?_written (xs : List String) : strings? (strings xs).written = some xs :=
  list?_strings xs

/-! ### Records -/

def fileCounts (f : File) : List Nat :=
  [f.loc, f.sizeBytes, f.churn, f.linesAdded, f.linesDeleted, f.commitCount, f.todoCount] ++
    f.contributions.values

def fileFloats (f : File) : List Float :=
  f.complexity.toList ++ f.maintainability.toList ++ [f.hotness]

theorem file?_fileJson {f : File} (words : ∀ n ∈ fileCounts f, IsWord n)
    (numbers : ∀ x ∈ fileFloats f, ReadsBack x) : file? (fileJson f).written = some f := by
  simp only [fileCounts, List.forall_mem_append, List.forall_mem_cons] at words
  obtain ⟨⟨loc, sizeBytes, churn, linesAdded, linesDeleted, commitCount, todoCount, -⟩,
    contributions⟩ := words
  simp only [fileFloats, List.forall_mem_append, List.forall_mem_singleton, Option.mem_toList]
    at numbers
  obtain ⟨⟨complexity, maintainability⟩, hotness⟩ := numbers
  rw [file?, fileJson]
  refine fields?_bind ((((((((((((named_self _).append (named_self _)).append (named_member? _)).append
    (named_self _)).append (named_member? _)).append (named_member? _)).append
    (named_member? _)).append (named_self _)).append (named_contributionsJson _)).append
    (named_member? _)).append (named_self _)).append (named_nonEmpty _ _)) rfl (by decide) ?_
  simp only [orElse_fieldsOf, required_fieldsOf, idAndTypes, List.lookup_append, lookup_cons,
    List.lookup_nil, lookup_member?, lookup_nonEmpty, lookup_contributionsJson, String.reduceEq,
    if_false, if_true, Option.or_none, Option.none_or]
  simp only [elim_string, elim_float complexity, elim_float maintainability, elim_nonEmpty,
    elim_contributions contributions, Option.elim_some, Option.bind_some, strings?_written,
    optional?_string, string?_written, nat?_written loc, nat?_written sizeBytes,
    nat?_written churn, nat?_written linesAdded, nat?_written linesDeleted,
    nat?_written commitCount, nat?_written todoCount, readsBack_iff.mp hotness,
    Option.bind_eq_bind, Option.pure_def]

theorem module?_moduleJson {m : Module} (word : IsWord m.loc) :
    module? (moduleJson m).written = some m := by
  have files : SortedSet.ofList m.files.toList = m.files := SortedSet.ext_mem fun _ => by simp
  rw [module?, moduleJson]
  refine fields?_bind ((named_self _).append (named_self _)) rfl (by decide) ?_
  simp only [orElse_fieldsOf, required_fieldsOf, idAndTypes, List.lookup_append, lookup_cons,
    List.lookup_nil, String.reduceEq, if_false, if_true, Option.or_none, Option.none_or]
  simp only [Option.elim_some, Option.bind_some, strings?_written, string?_written,
    nat?_written word, files, Option.bind_eq_bind, Option.pure_def]

def personCounts (p : Person) : List Nat := [p.commits, p.linesAdded, p.linesDeleted]

theorem person?_personJson {p : Person} (words : ∀ n ∈ personCounts p, IsWord n) :
    person? (personJson p).written = some p := by
  simp only [personCounts, List.forall_mem_cons] at words
  obtain ⟨commits, linesAdded, linesDeleted, -⟩ := words
  have owns : SortedSet.ofList p.owns.toList = p.owns := SortedSet.ext_mem fun _ => by simp
  rw [person?, personJson]
  refine fields?_bind (((named_self _).append (named_self _)).append (named_nonEmpty _ _)) rfl
    (by decide) ?_
  simp only [orElse_fieldsOf, required_fieldsOf, idAndTypes, List.lookup_append, lookup_cons,
    List.lookup_nil, lookup_nonEmpty, String.reduceEq, if_false, if_true, Option.or_none,
    Option.none_or]
  simp only [Option.elim_some, Option.bind_some, strings?_written, string?_written, elim_nonEmpty,
    nat?_written commits, nat?_written linesAdded, nat?_written linesDeleted, owns,
    Option.bind_eq_bind, Option.pure_def]

def commitCounts (c : Commit) : List Nat := [c.linesAdded, c.linesDeleted]

theorem commit?_commitJson {c : Commit} (words : ∀ n ∈ commitCounts c, IsWord n) :
    commit? (commitJson c).written = some c := by
  simp only [commitCounts, List.forall_mem_cons] at words
  obtain ⟨linesAdded, linesDeleted, -⟩ := words
  rw [commit?, commitJson]
  refine fields?_bind ((named_self _).append (named_self _)) rfl (by decide) ?_
  simp only [orElse_fieldsOf, required_fieldsOf, idAndTypes, List.lookup_append, lookup_cons,
    List.lookup_nil, String.reduceEq, if_false, if_true, Option.or_none, Option.none_or]
  simp only [Option.elim_some, Option.bind_some, strings?_written, string?_written,
    nat?_written linesAdded, nat?_written linesDeleted, Option.bind_eq_bind, Option.pure_def]

theorem kind?_written (kind : IssueKind) : kind? (Json.string kind.name).written = some kind := by
  rw [kind?, choice?_written]
  cases kind <;> decide

theorem severity?_written (severity : Severity) :
    severity? (Json.string severity.name).written = some severity := by
  rw [severity?, choice?_written]
  cases severity <;> decide

theorem issue?_issueJson {i : Issue} (numbers : ∀ x ∈ i.score, ReadsBack x) :
    issue? (issueJson i).written = some i := by
  rw [issue?, issueJson]
  refine fields?_bind ((((named_self _).append (named_self _)).append (named_member? _)).append
    (named_member? _)) rfl (by decide) ?_
  simp only [orElse_fieldsOf, required_fieldsOf, idAndTypes, List.lookup_append, lookup_cons,
    List.lookup_nil, lookup_member?, String.reduceEq, if_false, if_true, Option.or_none,
    Option.none_or]
  simp only [Option.elim_some, Option.bind_some, strings?_written, string?_written, kind?_written,
    severity?_written, elim_string, elim_float numbers, Option.bind_eq_bind, Option.pure_def]

theorem coupling?_couplingJson (pair : UnorderedPair) {weight : Nat} (word : IsWord weight) :
    coupling? (couplingJson pair weight).written = some (pair, weight) := by
  rw [coupling?, couplingJson]
  refine fields?_bind (named_self _) rfl (by decide) ?_
  simp only [orElse_fieldsOf, required_fieldsOf, lookup_cons, String.reduceEq, if_false, if_true]
  simp only [Option.elim_some, Option.bind_some, strings?_written, string?_written,
    nat?_written word, UnorderedPair.of_first_second, Option.bind_eq_bind, Option.pure_def]

theorem dependency?_dependencyJson (d : Dependency) :
    dependency? (dependencyJson d).written = some d := by
  rw [dependency?, dependencyJson]
  refine fields?_bind ((named_self _).append (named_member? _)) rfl (by decide) ?_
  simp only [orElse_fieldsOf, required_fieldsOf, List.lookup_append, lookup_cons, List.lookup_nil,
    lookup_member?, String.reduceEq, if_false, if_true, Option.or_none, Option.none_or]
  simp only [Option.elim_some, Option.bind_some, strings?_written, string?_written, elim_string,
    Option.bind_eq_bind, Option.pure_def]

def validationCounts (v : Validation) : List Nat := [v.violations, v.warnings, v.infos]

theorem validation?_validationJson {v : Validation} (words : ∀ n ∈ validationCounts v, IsWord n) :
    validation? (validationJson v).written = some v := by
  simp only [validationCounts, List.forall_mem_cons] at words
  obtain ⟨violations, warnings, infos, -⟩ := words
  rw [validation?, validationJson]
  refine fields?_bind (named_self _) rfl (by decide) ?_
  simp only [required_fieldsOf, lookup_cons, String.reduceEq, if_false, if_true]
  simp only [Option.bind_some, strings?_written, bool?_written, nat?_written violations,
    nat?_written warnings, nat?_written infos, Option.bind_eq_bind, Option.pure_def]

/-! ### Projects -/

/-- Everything in a map is kept under its own identifier. -/
def KeyedBy {α : Type} (id : α → String) (m : SortedMap String α) : Prop :=
  ∀ key a, m.get? key = some a → id a = key

theorem KeyedBy.ofList_values {α : Type} {id : α → String} {m : SortedMap String α}
    (keyed : KeyedBy id m) : SortedMap.ofList (m.values.map fun a => (id a, a)) = m := by
  have entries : m.values.map (fun a => (id a, a)) = m.entries := by
    rw [SortedMap.values, List.map_map]
    refine (List.map_congr_left fun e member => ?_).trans (List.map_id _)
    exact Prod.ext (keyed e.1 e.2 ((SortedMap.mem_entries m).mp member)) rfl
  rw [entries, SortedMap.ofList_entries]

theorem keyedBy_ofList {α : Type} (id : α → String) (as : List α) :
    KeyedBy id (.ofList (as.map fun a => (id a, a))) := by
  intro key a found
  have member := SortedMap.mem_of_get?_ofList found
  rw [List.mem_map] at member
  obtain ⟨b, -, same⟩ := member
  rw [← (Prod.mk.inj same).1, ← (Prod.mk.inj same).2]

/-- All counts of a project. -/
def projectCounts (p : Project) : List Nat :=
  p.files.values.flatMap fileCounts ++ p.modules.values.map (·.loc) ++
    p.contributors.values.flatMap personCounts ++ p.commits.values.flatMap commitCounts ++
    p.coupling.values ++ p.validation.toList.flatMap validationCounts

/-- All numbers of a project that may have a fraction. -/
def projectFloats (p : Project) : List Float :=
  p.files.values.flatMap fileFloats ++ p.issues.values.flatMap fun i => i.score.toList

/-- What a report can hold in full: records under their own identifiers, counts of 64 bits and
finite numbers. -/
structure Storable (p : Project) : Prop where
  files : KeyedBy File.id p.files
  modules : KeyedBy Module.id p.modules
  contributors : KeyedBy Person.id p.contributors
  commits : KeyedBy Commit.id p.commits
  issues : KeyedBy Issue.id p.issues
  counts : ∀ n ∈ projectCounts p, IsWord n
  finite : ∀ x ∈ projectFloats p, x.isFinite = true

theorem isSome_toJson?_context : (context.written.toJson? contextDepth).isSome = true := by
  refine isSome_toJson?_object fun m member => ?_
  have listed := SortedMap.mem_of_get?_ofList ((SortedMap.mem_entries _).mp member)
  rw [List.mem_append, List.mem_map, List.mem_map] at listed
  obtain ⟨⟨name, iri⟩, -, same⟩ | ⟨⟨name, term, meaning⟩, -, same⟩ := listed
  · rw [← (Prod.mk.inj same).2]
    exact isSome_toJson?_string _ _
  · rw [← (Prod.mk.inj same).2]
    cases meaning with
    | text => exact isSome_toJson?_string _ _
    | reference | typed datatype => exact isSome_toJson?_object (by simp [isSome_toJson?_string])

theorem elim_instant {t? : Option Time.Instant}
    (times : ∀ t ∈ t?, Time.relaxed? t.rfc3339Zulu.toList = some t) :
    (t?.map fun t => Json.string t.rfc3339Zulu).elim (some none)
      (fun v => optional? instant? v.written) = some t? := by
  refine elim_optional rfl fun t known => ?_
  rw [instant?, string?_written, Option.bind_eq_bind, Option.bind_some, times t known]

theorem elim_validation {v? : Option Validation}
    (words : ∀ v, v? = some v → ∀ n ∈ validationCounts v, IsWord n) :
    (v?.map validationJson).elim (some none) (fun v => optional? validation? v.written) = some v? :=
  elim_optional rfl fun v known => validation?_validationJson (words v known)

section Project

variable {p : Project}

theorem list?_records {α : Type} {f : α → Json} {read : Document → Option α} {as : List α}
    (each : ∀ a ∈ as, read (f a).written = some a) :
    (some (Json.array (as.map f))).elim (some []) (fun v => list? read v.written) = some as :=
  list?_written each

/-- The document of a project is read as the project. -/
theorem typedProject?_document (storable : Storable p)
    (numbers : ∀ x ∈ projectFloats p, ReadsBack x)
    (times : ∀ t ∈ p.analyzedAt, Time.relaxed? t.rfc3339Zulu.toList = some t) :
    typedProject? (document p).written = some (["repo:Project"], p) := by
  have counts := storable.counts
  simp only [projectCounts, List.forall_mem_append, List.forall_mem_flatMap, List.forall_mem_map,
    Option.mem_toList] at counts
  obtain ⟨⟨⟨⟨⟨fileCounts, moduleCounts⟩, personCounts⟩, commitCounts⟩, weights⟩, validation⟩ := counts
  simp only [projectFloats, List.forall_mem_append, List.forall_mem_flatMap, Option.mem_toList]
    at numbers
  obtain ⟨fileFloats, scores⟩ := numbers
  obtain ⟨known, readable⟩ := Option.isSome_iff_exists.mp isSome_toJson?_context
  have files := list?_records fun f member => file?_fileJson (fileCounts f member) (fileFloats f member)
  have modules := list?_records fun m member => module?_moduleJson (moduleCounts m member)
  have contributors := list?_records fun c member => person?_personJson (personCounts c member)
  have commits := list?_records fun c member => commit?_commitJson (commitCounts c member)
  have issues := list?_records fun i member => issue?_issueJson (scores i member)
  have coupling := list?_records fun e (member : e ∈ p.coupling.entries) =>
    coupling?_couplingJson e.1 (weights e.2 (List.mem_map_of_mem member))
  have dependencies := list?_records fun d (_ : d ∈ p.dependencies.toList) =>
    dependency?_dependencyJson d
  have kept : SortedSet.ofList p.dependencies.toList = p.dependencies :=
    SortedSet.ext_mem fun _ => by simp
  rw [typedProject?, document]
  generalize context = header at readable
  refine fields?_bind ((((((named_self _).append (named_self _)).append (named_member? _)).append
    (named_member? _)).append (named_self _)).append (named_member? _)) rfl (by decide) ?_
  simp only [orElse_fieldsOf, required_fieldsOf, idAndTypes, List.lookup_append, lookup_cons,
    List.lookup_nil, lookup_member?, List.cons_append, List.nil_append, String.reduceEq, if_false,
    if_true, Option.or_none, Option.none_or]
  rw [Option.elim_some, readable]
  simp only [files, modules, contributors, commits, issues, coupling, dependencies,
    Option.elim_some, Option.bind_some, strings?_written, string?_written, elim_string,
    elim_instant times, elim_validation validation, storable.files.ofList_values,
    storable.modules.ofList_values, storable.contributors.ofList_values,
    storable.commits.ofList_values, storable.issues.ofList_values, SortedMap.ofList_entries, kept,
    Option.bind_eq_bind, Option.pure_def]

theorem project_json (storable : Storable p) (numbers : ∀ x ∈ projectFloats p, ReadsBack x)
    (times : ∀ t ∈ p.analyzedAt, Time.relaxed? t.rfc3339Zulu.toList = some t) :
    project (json p) = .ok p := by
  rw [project, json, ofText?_pretty, Option.bind_some, typedProject?_document storable numbers times]
  exact if_pos (by decide)

/-- A file of encoded text is read as a report of that text. -/
theorem reportAt_encoded (path : String) {place : Files.Place} {text : String}
    (stored : place.node = .file (Text.encoded text.toList)) :
    Command.reportAt path (some place) = (project text).mapError (.report path) := by
  have content : Command.textAt (some place) = .ok text := by
    rw [Command.textAt, Option.map_some, stored]
    simp only [Text.decoded?_encoded, String.ofList_toList]
  rw [Command.reportAt, content]
  rfl

/-- A file with the report of a project is read as the project in full, if numbers and times are
read as they were written. -/
theorem reportAt_json (storable : Storable p)
    (numbers : ∀ x ∈ projectFloats p, x.isFinite = true → ReadsBack x)
    (times : ∀ t ∈ p.analyzedAt, Time.relaxed? t.rfc3339Zulu.toList = some t) (path : String)
    (place : Files.Place) (stored : place.node = .file (Text.encoded (json p).toList)) :
    Command.reportAt path (some place) = .ok p := by
  have read := project_json storable (fun x held => numbers x held (storable.finite x held)) times
  rw [reportAt_encoded path stored, read]
  rfl

end Project

section Recorded

def ann : String := personId "Ann" "ann@x.io"

/-- A project with records of every kind, with some of their fields left out. -/
def recorded : Project where
  id := projectId "demo"
  name := "demo"
  root := "/src/demo"
  analyzedAt := some ⟨1700000000, 500000000⟩
  gitHead := some "4f2a"
  files := .ofList ([
    { id := fileId "lib/a.py", path := "lib/a.py", language := some "Python", loc := 40,
      complexity := some 3.5, maintainability := some 71.25, churn := 12, linesAdded := 10,
      linesDeleted := 2, commitCount := 3, contributions := .ofList [(ann, 10)], owner := some ann,
      hotness := 0.1, todoCount := 1, issues := [issueId .todo "lib/a.py"] },
    { id := fileId "a \"b\".txt", path := "a \"b\".txt", hotness := 0 }].map
      fun f => (f.id, f))
  modules := .ofList ([⟨moduleId "lib", "lib", 40, .ofList [fileId "lib/a.py"]⟩].map
    fun m => (m.id, m))
  commits := .ofList ([⟨commitId "4f2a", "4f2a", ann, "2023-11-14T22:13:20Z", "First\nlines",
    [fileId "lib/a.py"], 10, 2⟩].map fun c => (c.id, c))
  contributors := .ofList ([
    { id := ann, name := "Ann", email := "ann@x.io", commits := 1, linesAdded := 10,
      linesDeleted := 2, owns := .ofList [fileId "lib/a.py"] }].map fun c => (c.id, c))
  issues := .ofList ([
    { id := issueId .todo "lib/a.py", kind := .todo, severity := .low, title := "TODO in lib/a.py",
      file := some (fileId "lib/a.py"), score := some 0.25 }].map fun i => (i.id, i))
  coupling := .ofList [(.of (fileId "lib/a.py") (fileId "a \"b\".txt"), 2)]
  dependencies := .ofList [⟨fileId "lib/a.py", "os", none⟩]
  validation := some ⟨false, 1, 0, 0, ["http://example.org/Shape"]⟩

theorem storable_recorded : Storable recorded where
  files := keyedBy_ofList _ _
  modules := keyedBy_ofList _ _
  contributors := keyedBy_ofList _ _
  commits := keyedBy_ofList _ _
  issues := keyedBy_ofList _ _
  counts := by decide +kernel
  finite := by decide +kernel

theorem reportAt_recorded : Storable recorded ∧
    (∀ x ∈ projectFloats recorded, x.isFinite = true → ReadsBack x) ∧
    (∀ t ∈ recorded.analyzedAt, Time.relaxed? t.rfc3339Zulu.toList = some t) ∧
    Command.reportAt "report.jsonld"
      (some ⟨["report.jsonld"], [], .file (Text.encoded (json recorded).toList)⟩) = .ok recorded := by
  have numbers : ∀ x ∈ projectFloats recorded, x.isFinite = true → ReadsBack x := by decide +kernel
  have times : ∀ t ∈ recorded.analyzedAt, Time.relaxed? t.rfc3339Zulu.toList = some t := by
    decide +kernel
  exact ⟨storable_recorded, numbers, times,
    reportAt_json storable_recorded numbers times "report.jsonld" _ rfl⟩

end Recorded

end RepoAudit.Report
