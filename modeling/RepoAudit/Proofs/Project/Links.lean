import RepoAudit.Proofs.Ordered.Gathering
import RepoAudit.Proofs.Project.Issues

/-!
# Issues and links in step

An issue is stored once in the project and is known to the file that it concerns by a link. `Linked`
says that the two agree. To record issues and to clear a kind keeps them in step, and where they are
in step nothing is left of issues when all their kinds are cleared.
-/

namespace RepoAudit.Project

/-! ### Other issues and links -/

/-- A file with links that are made from the old ones. -/
def File.relink (f : File) (links : List String → List String) : File :=
  { f with issues := links f.issues }

/-- A project with these issues, and with links that are made from the old ones. -/
def relinked (p : Project) (issues : SortedMap String Issue)
    (links : String → List String → List String) : Project :=
  { p with issues, files := p.files.mapValues fun id f => f.relink (links id) }

theorem files_relinked (p : Project) (issues : SortedMap String Issue)
    (links : String → List String → List String) (id : String) :
    (p.relinked issues links).files.get? id =
      (p.files.get? id).map fun f => f.relink (links id) :=
  SortedMap.get?_mapValues ..

theorem relinked_relinked (p : Project) (issues issues' : SortedMap String Issue)
    (links links' : String → List String → List String) :
    (p.relinked issues links).relinked issues' links' =
      p.relinked issues' fun id old => links' id (links id old) := by
  simp only [relinked, SortedMap.mapValues_mapValues]
  rfl

theorem relinked_self (p : Project) : p.relinked p.issues (fun _ old => old) = p := by
  have files : p.files.mapValues (fun _ f => f.relink fun old => old) = p.files := by
    refine SortedMap.ext_get? fun id => ?_
    rw [SortedMap.get?_mapValues]
    exact Option.map_id'
  rw [relinked, files]

/-- A project without issues and links. -/
def withoutIssues (p : Project) : Project := p.relinked ∅ fun _ _ => []

def File.withoutLinks (f : File) : File := f.relink fun _ => []

theorem values_withoutIssues (p : Project) :
    p.withoutIssues.files.values = p.files.values.map File.withoutLinks := by
  rw [withoutIssues, relinked, SortedMap.values_mapValues, SortedMap.values, List.map_map]
  rfl

@[simp] theorem withoutIssues_relinked (p : Project) (issues : SortedMap String Issue)
    (links : String → List String → List String) :
    (p.relinked issues links).withoutIssues = p.withoutIssues :=
  relinked_relinked ..

theorem record_eq (p : Project) (issue : Issue) :
    p.record issue = p.relinked (p.issues.insert issue.id issue) fun id old =>
      if issue.file = some id then link old issue.id else old := by
  have files : (p.record issue).files = p.files.mapValues fun id f => f.relink fun old =>
      if issue.file = some id then link old issue.id else old := by
    refine SortedMap.ext_get? fun id => ?_
    rw [SortedMap.get?_mapValues, record]
    cases about : issue.file with
    | none => simp [File.relink]
    | some file =>
      simp only [SortedMap.get?_modify, Option.some.injEq]
      by_cases same : id = file
      · subst same
        simp [File.link, File.relink]
      · simp [same, Ne.symm same, File.relink]
  rw [relinked, ← files]
  rfl

theorem clear_eq (p : Project) (kind : IssueKind) :
    p.clear kind = p.relinked (p.issues.filter fun id _ => !(p.idsOf kind).contains id)
      fun _ old => old.filter (!(p.idsOf kind).contains ·) :=
  rfl

@[simp] theorem withoutIssues_clear (p : Project) (kind : IssueKind) :
    (p.clear kind).withoutIssues = p.withoutIssues := by
  rw [clear_eq, withoutIssues_relinked]

@[simp] theorem withoutIssues_recordAll (p : Project) (issues : List Issue) :
    (p.recordAll issues).withoutIssues = p.withoutIssues := by
  induction issues generalizing p with
  | nil => rfl
  | cons first rest ih =>
    rw [recordAll, List.foldl_cons, ← recordAll, ih, record_eq, withoutIssues_relinked]

/-! ### Identifiers of issues -/

theorem kind_of_issueId {kind kind' : IssueKind} {key key' : String}
    (same : issueId kind key = issueId kind' key') : kind = kind' := by
  have chars := congrArg String.toList same
  cases kind <;> cases kind' <;> first
    | rfl
    | simp [issueId, IssueKind.name, toString] at chars

theorem key_of_issueId {kind : IssueKind} {key key' : String}
    (same : issueId kind key = issueId kind key') : key = key' := by
  have chars := congrArg String.toList same
  cases kind <;> simpa [issueId, IssueKind.name, toString, String.toList_inj] using chars

/-- An issue with an identifier of its kind. -/
def Issue.Identified (i : Issue) : Prop := ∃ key, i.id = issueId i.kind key

/-- A project whose issues are stored under identifiers of their kinds. -/
def Identified (p : Project) : Prop :=
  ∀ id i, p.issues.get? id = some i → i.id = id ∧ i.Identified

variable {p q : Project} {kind : IssueKind} {issue : Issue} {issues : List Issue}

theorem Identified.mem_idsOf (identified : p.Identified) {id : String} :
    id ∈ p.idsOf kind ↔ ∃ i, p.issues.get? id = some i ∧ i.kind = kind := by
  rw [Project.mem_idsOf]
  constructor
  · rintro ⟨key, i, stored, ofKind, rfl⟩
    rw [(identified key i stored).1]
    exact ⟨i, stored, ofKind⟩
  · rintro ⟨i, stored, ofKind⟩
    exact ⟨id, i, stored, ofKind, (identified id i stored).1⟩

/-- An issue of one kind has no identifier that is taken by another kind. -/
theorem Identified.not_mem_idsOf (identified : p.Identified) (named : issue.Identified)
    (other : issue.kind ≠ kind) : issue.id ∉ p.idsOf kind := by
  intro taken
  obtain ⟨i, stored, ofKind⟩ := identified.mem_idsOf.mp taken
  obtain ⟨same, key, shape⟩ := identified _ i stored
  obtain ⟨key', shape'⟩ := named
  have kinds := kind_of_issueId (shape'.symm.trans (same.symm.trans shape))
  exact other (kinds.trans ofKind)

theorem Identified.get?_clear (identified : p.Identified) {id : String} {i : Issue} :
    (p.clear kind).issues.get? id = some i ↔ p.issues.get? id = some i ∧ i.kind ≠ kind := by
  rw [clear, SortedMap.get?_filter, Option.filter_eq_some_iff]
  refine and_congr_right fun stored => ?_
  rw [Bool.not_eq_true', SortedSet.contains_eq_false, identified.mem_idsOf, stored]
  simp

theorem get?_record (p : Project) (issue : Issue) (id : String) :
    (p.record issue).issues.get? id = if id = issue.id then some issue else p.issues.get? id :=
  SortedMap.get?_insert ..

theorem Identified.clear (identified : p.Identified) (kind : IssueKind) :
    (p.clear kind).Identified :=
  fun id i left => identified id i (identified.get?_clear.mp left).1

theorem Identified.record (identified : p.Identified) (named : issue.Identified) :
    (p.record issue).Identified := by
  intro id i stored
  rw [get?_record] at stored
  split at stored
  · rename_i same
    obtain rfl := Option.some.inj stored
    exact ⟨same.symm, named⟩
  · exact identified id i stored

theorem identified_recordAll (identified : p.Identified) (named : ∀ i ∈ issues, i.Identified) :
    (p.recordAll issues).Identified := by
  induction issues generalizing p with
  | nil => exact identified
  | cons first rest ih =>
    have ⟨head, named⟩ := List.forall_mem_cons.mp named
    exact ih (identified.record head) named

theorem identified_replaceAll (identified : p.Identified) (named : ∀ i ∈ issues, i.Identified) :
    (p.replaceAll kind issues).Identified :=
  identified_recordAll (identified.clear kind) named

/-- The issues of a kind after they have been replaced are the last ones recorded for each
identifier. -/
theorem get?_replaceAll_ofKind (identified : p.Identified) (ofKind : ∀ i ∈ issues, i.kind = kind)
    {id : String} {i : Issue} : (p.replaceAll kind issues).issues.get? id = some i ∧ i.kind = kind ↔
      issues.reverse.find? (·.id = id) = some i := by
  rw [replaceAll, issues_recordAll, Option.or_eq_some_iff, identified.get?_clear]
  constructor
  · rintro ⟨found | ⟨-, -, other⟩, same⟩
    · exact found
    · exact absurd same other
  · intro found
    exact ⟨.inl found, ofKind i (List.mem_reverse.mp (List.mem_of_find?_eq_some found))⟩

/-! ### Clearing what was recorded -/

theorem filter_link {keep : String → Bool} {new : String} (kept : keep new = true)
    (old : List String) : (link old new).filter keep = link (old.filter keep) new := by
  by_cases known : new ∈ old <;> simp [link, known, kept]

/-- To clear a kind leaves an issue of another kind alone. -/
theorem Identified.clear_record (identified : p.Identified) (named : issue.Identified)
    (other : issue.kind ≠ kind) :
    (p.record issue).clear kind = (p.clear kind).record issue := by
  have untaken := identified.not_mem_idsOf named other
  have ids : (p.record issue).idsOf kind = p.idsOf kind := by
    refine SortedSet.ext_mem fun id => ?_
    rw [(identified.record named).mem_idsOf, identified.mem_idsOf, get?_record]
    by_cases same : id = issue.id
    · subst same
      rw [← identified.mem_idsOf]
      simp [other, untaken]
    · simp [same]
  have passes : (!(p.idsOf kind).contains issue.id) = true := by
    rwa [Bool.not_eq_true', SortedSet.contains_eq_false]
  have kept : (p.record issue).issues.filter (fun id _ => !(p.idsOf kind).contains id) =
      (p.issues.filter fun id _ => !(p.idsOf kind).contains id).insert issue.id issue := by
    refine SortedMap.ext_get? fun id => ?_
    rw [SortedMap.get?_filter, get?_record, SortedMap.get?_insert, SortedMap.get?_filter]
    by_cases same : id = issue.id
    · rw [if_pos same, if_pos same, Option.filter_some, same, if_pos passes]
    · rw [if_neg same, if_neg same]
  rw [clear_eq, ids, kept, record_eq, record_eq, clear_eq, relinked_relinked, relinked_relinked]
  congr 1
  funext id old
  split
  · exact filter_link passes old
  · rfl

theorem Identified.clear_recordAll (identified : p.Identified) (named : ∀ i ∈ issues, i.Identified)
    (other : ∀ i ∈ issues, i.kind ≠ kind) :
    (p.recordAll issues).clear kind = (p.clear kind).recordAll issues := by
  induction issues generalizing p with
  | nil => rfl
  | cons first rest ih =>
    have ⟨head, named⟩ := List.forall_mem_cons.mp named
    have ⟨differs, other⟩ := List.forall_mem_cons.mp other
    exact (ih (identified.record head) named other).trans
      (congrArg (recordAll · rest) (identified.clear_record head differs))

/-! ### Agreement -/

/-- Files and issues are stored under their identifiers, and a file links to an issue exactly if
the issue is about the file. -/
structure Linked (p : Project) : Prop where
  files : ∀ id f, p.files.get? id = some f → f.id = id ∧ f.id = fileId f.path
  issues : p.Identified
  known : ∀ id i key, p.issues.get? id = some i → i.file = some key →
    ∃ f, p.files.get? key = some f
  nodup : ∀ key f, p.files.get? key = some f → f.issues.Nodup
  links : ∀ key f, p.files.get? key = some f → ∀ id,
    id ∈ f.issues ↔ ∃ i, p.issues.get? id = some i ∧ i.file = some key

theorem Linked.of_map (linked : p.Linked) (g : String → File → File)
    (files : q.files = p.files.mapValues g) (issues : q.issues = p.issues)
    (keeps : ∀ id f, (g id f).id = f.id ∧ (g id f).path = f.path ∧ (g id f).issues = f.issues) :
    q.Linked := by
  have found {id : String} {f : File} (stored : q.files.get? id = some f) :
      ∃ before, p.files.get? id = some before ∧ g id before = f := by
    rw [files, SortedMap.get?_mapValues] at stored
    exact Option.map_eq_some_iff.mp stored
  refine ⟨fun id f stored => ?_, fun id i => ?_, fun id i key held about => ?_,
    fun key f stored => ?_, fun key f stored id => ?_⟩
  · obtain ⟨before, held, rfl⟩ := found stored
    obtain ⟨sameId, samePath, -⟩ := keeps id before
    rw [sameId, samePath]
    exact linked.files id before held
  · rw [issues]
    exact linked.issues id i
  · rw [issues] at held
    obtain ⟨f, stored⟩ := linked.known id i key held about
    exact ⟨g key f, by rw [files, SortedMap.get?_mapValues, stored]; rfl⟩
  · obtain ⟨before, held, rfl⟩ := found stored
    rw [(keeps key before).2.2]
    exact linked.nodup key before held
  · obtain ⟨before, held, rfl⟩ := found stored
    rw [(keeps key before).2.2, issues]
    exact linked.links key before held id

theorem exists_file_relinked {issues : SortedMap String Issue}
    {links : String → List String → List String} {key : String} :
    (∃ f, (p.relinked issues links).files.get? key = some f) ↔
      ∃ f, p.files.get? key = some f := by
  rw [files_relinked]
  cases p.files.get? key <;> simp

theorem Linked.relinked (linked : p.Linked) {issues : SortedMap String Issue}
    {links : String → List String → List String}
    (identified : (p.relinked issues links).Identified)
    (known : ∀ id i key, issues.get? id = some i → i.file = some key →
      ∃ f, p.files.get? key = some f)
    (nodup : ∀ key old, old.Nodup → (links key old).Nodup)
    (agree : ∀ key f, p.files.get? key = some f → ∀ id,
      id ∈ links key f.issues ↔ ∃ i, issues.get? id = some i ∧ i.file = some key) :
    (p.relinked issues links).Linked := by
  have found {id : String} {f : File} (stored : (p.relinked issues links).files.get? id = some f) :
      ∃ before, p.files.get? id = some before ∧ before.relink (links id) = f := by
    rw [files_relinked] at stored
    exact Option.map_eq_some_iff.mp stored
  refine ⟨fun id f stored => ?_, identified, fun id i key held about => ?_,
    fun key f stored => ?_, fun key f stored => ?_⟩
  · obtain ⟨before, held, rfl⟩ := found stored
    exact linked.files id before held
  · exact exists_file_relinked.mpr (known id i key held about)
  · obtain ⟨before, held, rfl⟩ := found stored
    exact nodup key before.issues (linked.nodup key before held)
  · obtain ⟨before, held, rfl⟩ := found stored
    exact agree key before held

theorem Linked.clear (linked : p.Linked) (kind : IssueKind) : (p.clear kind).Linked := by
  have left {id : String} {i : Issue} : (p.clear kind).issues.get? id = some i ↔
      p.issues.get? id = some i ∧ i.kind ≠ kind := linked.issues.get?_clear
  refine linked.relinked (linked.issues.clear kind) (fun id i key held about => ?_)
    (fun key old distinct => distinct.filter _) fun key f stored id => ?_
  · exact linked.known id i key (left.mp held).1 about
  · have kept : (!(p.idsOf kind).contains id) = true ↔
        ¬ ∃ i, p.issues.get? id = some i ∧ i.kind = kind := by
      rw [Bool.not_eq_true', SortedSet.contains_eq_false, linked.issues.mem_idsOf]
    rw [List.mem_filter, linked.links key f stored id, kept]
    constructor
    · rintro ⟨⟨i, held, about⟩, other⟩
      exact ⟨i, left.mpr ⟨held, fun ofKind => other ⟨i, held, ofKind⟩⟩, about⟩
    · rintro ⟨i, stays, about⟩
      obtain ⟨held, other⟩ := left.mp stays
      refine ⟨⟨i, held, about⟩, ?_⟩
      rintro ⟨j, held', ofKind⟩
      obtain rfl := Option.some.inj (held.symm.trans held')
      exact other ofKind

/-- What an issue must be like so that to record it keeps issues and links in step. -/
structure Fits (p : Project) (issue : Issue) : Prop where
  identified : issue.Identified
  known : ∀ key, issue.file = some key → ∃ f, p.files.get? key = some f
  inPlace : ∀ i, p.issues.get? issue.id = some i → i.file = issue.file

theorem Linked.record (linked : p.Linked) (fits : p.Fits issue) : (p.record issue).Linked := by
  have issues (id : String) : (p.issues.insert issue.id issue).get? id =
      if id = issue.id then some issue else p.issues.get? id := SortedMap.get?_insert ..
  have identified := linked.issues.record fits.identified
  rw [record_eq] at identified ⊢
  refine linked.relinked identified (fun id i key held about => ?_) (fun key old distinct => ?_)
    fun key f stored id => ?_
  · rw [issues] at held
    split at held
    · obtain rfl := Option.some.inj held
      exact fits.known key about
    · exact linked.known id i key held about
  · split
    · exact nodup_link distinct issue.id
    · exact distinct
  · have old := linked.links key f stored
    rw [issues]
    by_cases about : issue.file = some key <;> by_cases same : id = issue.id
    · simp [about, same, mem_link]
    · simp [about, same, mem_link, old]
    · subst same
      -- an issue that was about this file would not be replaced by one about another file
      have elsewhere (i : Issue) (there : p.issues.get? issue.id = some i) : i.file ≠ some key :=
        fits.inPlace i there ▸ about
      simpa [about, old] using elsewhere
    · simp [about, same, old]

theorem Linked.recordAll (linked : p.Linked) (fits : ∀ i ∈ issues, p.Fits i)
    (agree : ∀ i ∈ issues, ∀ j ∈ issues, i.id = j.id → i.file = j.file) :
    (p.recordAll issues).Linked := by
  induction issues generalizing p with
  | nil => exact linked
  | cons first rest ih =>
    have ⟨head, later⟩ := List.forall_mem_cons.mp fits
    -- the later issues still fit once the first one is recorded
    refine ih (linked.record head) (fun i member => ?_) fun i hi j hj =>
      agree i (List.mem_cons_of_mem first hi) j (List.mem_cons_of_mem first hj)
    obtain ⟨identified, known, inPlace⟩ := later i member
    refine ⟨identified, fun key about => ?_, fun old held => ?_⟩
    · rw [record_eq]
      exact exists_file_relinked.mpr (known key about)
    · rw [get?_record] at held
      split at held
      · rename_i same
        obtain rfl := Option.some.inj held
        exact agree first List.mem_cons_self i (List.mem_cons_of_mem first member) same.symm
      · exact inPlace old held

/-- When the issues of a kind are replaced, only the new ones need to agree with each other. -/
theorem Linked.replaceAll (linked : p.Linked) (ofKind : ∀ i ∈ issues, i.kind = kind)
    (identified : ∀ i ∈ issues, i.Identified)
    (known : ∀ i ∈ issues, ∀ key, i.file = some key → ∃ f, p.files.get? key = some f)
    (agree : ∀ i ∈ issues, ∀ j ∈ issues, i.id = j.id → i.file = j.file) :
    (p.replaceAll kind issues).Linked := by
  refine (linked.clear kind).recordAll (fun i member => ⟨identified i member, fun key about => ?_,
    fun old left => ?_⟩) agree
  · exact exists_file_relinked.mpr (known i member key about)
  · -- a stored issue with this identifier is of the kind that was cleared
    obtain ⟨held, other⟩ := linked.issues.get?_clear.mp left
    obtain ⟨same, key, shape⟩ := linked.issues _ old held
    obtain ⟨key', shape'⟩ := identified i member
    have kinds := kind_of_issueId (shape.symm.trans (same.trans shape'))
    exact absurd (kinds.trans (ofKind i member)) other

/-- Nothing is left of issues when all their kinds are cleared. -/
theorem Linked.foldl_clear (linked : p.Linked) (kinds : List IssueKind)
    (among : ∀ id i, p.issues.get? id = some i → i.kind ∈ kinds) :
    kinds.foldl Project.clear p = p.withoutIssues := by
  induction kinds generalizing p with
  | nil =>
    have none (id : String) : p.issues.get? id = none :=
      Option.eq_none_iff_forall_ne_some.mpr fun i stored => List.not_mem_nil (among id i stored)
    have issues : p.issues = ∅ := SortedMap.ext_get? none
    have files : p.files = p.withoutIssues.files := by
      refine SortedMap.ext_get? fun key => ?_
      rw [withoutIssues, files_relinked]
      cases stored : p.files.get? key with
      | none => rfl
      | some f =>
        have unlinked : f.issues = [] := by
          refine List.eq_nil_iff_forall_not_mem.mpr fun id member => ?_
          obtain ⟨i, held, -⟩ := (linked.links key f stored id).mp member
          rw [none] at held
          cases held
        rw [Option.map_some, File.relink, ← unlinked]
    change p = { p with issues := ∅, files := p.withoutIssues.files }
    rw [← issues, ← files]
  | cons kind rest ih =>
    have cleared := ih (linked.clear kind) fun id i left => by
      obtain ⟨stored, other⟩ := linked.issues.get?_clear.mp left
      exact (List.mem_cons.mp (among id i stored)).resolve_left other
    rw [List.foldl_cons, cleared, withoutIssues_clear]

end RepoAudit.Project
