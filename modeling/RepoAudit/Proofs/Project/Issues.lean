import Mathlib.Data.List.Induction
import RepoAudit.Project.Basic

/-!
# Issues recorded again

Issues of a kind are replaced by clearing the kind and recording new ones. `replace_again_iff` shows
when replacing them twice is the same as once: only the order of links of files can differ.
-/

namespace RepoAudit.Project

/-! ### Links -/

/-- Links after issues have been added one after another. -/
def linkAll (links issues : List String) : List String := issues.foldl link links

theorem mem_link {links : List String} {issue id : String} :
    id ∈ link links issue ↔ id ∈ links ∨ id = issue := by
  unfold link
  split
  · rename_i known
    have known : issue ∈ links := by simpa using known
    exact ⟨.inl, fun either => either.elim (·) fun same => same ▸ known⟩
  · simp

theorem nodup_link {links : List String} (distinct : links.Nodup) (issue : String) :
    (link links issue).Nodup := by
  unfold link
  split
  · exact distinct
  · rename_i new
    have new : issue ∉ links := by simpa using new
    refine List.nodup_append.mpr ⟨distinct, by simp, fun id member other same => ?_⟩
    obtain rfl := List.mem_singleton.mp same
    exact fun equal => new (equal ▸ member)

theorem mem_linkAll {id : String} {issues : List String} : ∀ {links : List String},
    id ∈ linkAll links issues ↔ id ∈ links ∨ id ∈ issues := by
  induction issues with
  | nil => simp [linkAll]
  | cons first rest ih =>
    intro links
    rw [linkAll, List.foldl_cons, ← linkAll, ih, mem_link, List.mem_cons, or_assoc]

theorem linkAll_concat (links issues : List String) (last : String) :
    linkAll links (issues ++ [last]) = link (linkAll links issues) last := by
  simp [linkAll]

theorem nodup_linkAll (issues : List String) : (linkAll [] issues).Nodup := by
  induction issues using List.reverseRecOn with
  | nil => exact List.nodup_nil
  | append_singleton issues last ih =>
    rw [linkAll_concat]
    exact nodup_link ih last

/-- New links come after the old ones, as they would be in a file without links. -/
theorem linkAll_eq (links issues : List String) :
    linkAll links issues = links ++ (linkAll [] issues).filter (· ∉ links) := by
  induction issues using List.reverseRecOn with
  | nil => simp [linkAll]
  | append_singleton issues last ih =>
    have known : last ∈ links ++ (linkAll [] issues).filter (· ∉ links) ↔
        last ∈ links ∨ last ∈ linkAll [] issues := by
      by_cases held : last ∈ links <;> simp [held]
    rw [linkAll_concat, linkAll_concat, ih, link, link]
    simp only [List.contains_iff_mem, known]
    by_cases held : last ∈ links <;> by_cases met : last ∈ linkAll [] issues <;>
      simp [held, met]

/-! ### Records -/

/-- The identifiers of those issues that are about a file. -/
def idsAbout (issues : List Issue) (file : String) : List String :=
  (issues.filter (·.file = some file)).map (·.id)

def File.linkAll (f : File) (issues : List String) : File :=
  { f with issues := Project.linkAll f.issues issues }

theorem files_recordAll (p : Project) (issues : List Issue) (id : String) :
    (p.recordAll issues).files.get? id =
      (p.files.get? id).map (·.linkAll (idsAbout issues id)) := by
  induction issues generalizing p with
  | nil =>
    change p.files.get? id = _
    cases p.files.get? id <;> rfl
  | cons first rest ih =>
    have step : (p.record first).files.get? id =
        (p.files.get? id).map (·.linkAll (idsAbout [first] id)) := by
      cases about : first.file with
      | none =>
        cases found : p.files.get? id <;>
          simp [record, about, found, idsAbout, File.linkAll, linkAll]
      | some file =>
        simp only [record, about, SortedMap.get?_modify]
        by_cases same : id = file
        · subst same
          cases p.files.get? id <;> simp [idsAbout, about, File.linkAll, linkAll, File.link]
        · cases p.files.get? id <;>
            simp [idsAbout, about, File.linkAll, linkAll, same, Ne.symm same]
    have split : idsAbout (first :: rest) id = idsAbout [first] id ++ idsAbout rest id := by
      rw [idsAbout, idsAbout, idsAbout, ← List.map_append, ← List.filter_append]
      rfl
    rw [recordAll, List.foldl_cons, ← recordAll, ih, step, Option.map_map, split]
    congr 1
    funext f
    simp only [Function.comp, File.linkAll, linkAll, List.foldl_append]

/-- The last issue with an identifier is the one that stays. -/
theorem issues_recordAll (p : Project) (issues : List Issue) (id : String) :
    (p.recordAll issues).issues.get? id =
      (issues.reverse.find? (·.id = id)).or (p.issues.get? id) := by
  induction issues generalizing p with
  | nil => rfl
  | cons first rest ih =>
    rw [recordAll, List.foldl_cons, ← recordAll, ih, List.reverse_cons, List.find?_append,
      record, SortedMap.get?_insert, Option.or_assoc]
    congr 1
    by_cases same : id = first.id
    · simp [same]
    · simp [same, Ne.symm same]

theorem recordAll_eq (p : Project) (issues : List Issue) : p.recordAll issues =
    { p with files := (p.recordAll issues).files, issues := (p.recordAll issues).issues } := by
  induction issues generalizing p with
  | nil => rfl
  | cons first rest ih =>
    rw [recordAll, List.foldl_cons, ← recordAll, ih]
    rfl

theorem mem_idsOf {p : Project} {kind : IssueKind} {id : String} :
    id ∈ p.idsOf kind ↔ ∃ key i, p.issues.get? key = some i ∧ i.kind = kind ∧ i.id = id := by
  simp only [idsOf, SortedSet.mem_ofList, List.mem_map, List.mem_filter, SortedMap.values,
    Prod.exists, exists_eq_right, SortedMap.mem_entries, beq_iff_eq]
  constructor
  · rintro ⟨i, ⟨⟨key, stored⟩, kind⟩, same⟩
    exact ⟨key, i, stored, kind, same⟩
  · rintro ⟨key, i, stored, kind, same⟩
    exact ⟨i, ⟨⟨key, stored⟩, kind⟩, same⟩

/-! ### Replacing issues -/

/-- The links that a file keeps when the issues of a kind are cleared. -/
def keptLinks (p : Project) (kind : IssueKind) (f : File) : List String :=
  (f.unlink (p.idsOf kind).contains).issues

theorem files_replaceAll (p : Project) (kind : IssueKind) (issues : List Issue) (id : String) :
    (p.replaceAll kind issues).files.get? id = (p.files.get? id).map fun f =>
      { f with issues := linkAll (keptLinks p kind f) (idsAbout issues id) } := by
  rw [replaceAll, files_recordAll, clear, SortedMap.get?_mapValues, Option.map_map]
  rfl

theorem issues_replaceAll (p : Project) (kind : IssueKind) (issues : List Issue) (id : String) :
    (p.replaceAll kind issues).issues.get? id = (issues.reverse.find? (·.id = id)).or
      ((p.issues.get? id).filter fun _ => !(p.idsOf kind).contains id) := by
  rw [replaceAll, issues_recordAll, clear, SortedMap.get?_filter]

theorem replaceAll_eq (p : Project) (kind : IssueKind) (issues : List Issue) :
    p.replaceAll kind issues = { p with
      files := (p.replaceAll kind issues).files
      issues := (p.replaceAll kind issues).issues } := by
  rw [replaceAll, recordAll_eq]
  rfl

/-! ### Replacing issues twice -/

section Twice

variable {p : Project} {kind : IssueKind} {issues : List Issue}

theorem mem_idsOf_of_recorded (same : ∀ i ∈ issues, i.kind = kind) {id : String}
    (recorded : id ∈ issues.map (·.id)) : id ∈ (p.replaceAll kind issues).idsOf kind := by
  have found : (issues.reverse.find? (·.id = id)).isSome := by
    simpa [List.find?_isSome] using recorded
  obtain ⟨i, found⟩ := Option.isSome_iff_exists.mp found
  have member : i ∈ issues := List.mem_reverse.mp (List.mem_of_find?_eq_some found)
  refine mem_idsOf.mpr ⟨id, i, ?_, same i member, by simpa using List.find?_some found⟩
  rw [issues_replaceAll, found, Option.some_or]

theorem recorded_of_mem_idsOf {id : String} (kept : id ∉ p.idsOf kind)
    (cleared : id ∈ (p.replaceAll kind issues).idsOf kind) : id ∈ issues.map (·.id) := by
  obtain ⟨key, i, stored, kindOf, rfl⟩ := mem_idsOf.mp cleared
  rw [issues_replaceAll, Option.or_eq_some_iff] at stored
  rcases stored with found | ⟨-, old⟩
  · exact List.mem_map.mpr ⟨i, List.mem_reverse.mp (List.mem_of_find?_eq_some found), rfl⟩
  · obtain ⟨old, -⟩ := Option.filter_eq_some_iff.mp old
    exact absurd (mem_idsOf.mpr ⟨key, i, old, kindOf, rfl⟩) kept

/-- Replacing issues by the same ones again leaves every issue as it is. -/
theorem issues_replaceAll_again :
    ((p.replaceAll kind issues).replaceAll kind issues).issues = (p.replaceAll kind issues).issues := by
  refine SortedMap.ext_get? fun id => ?_
  rw [issues_replaceAll]
  cases last : issues.reverse.find? (·.id = id) with
  | some i => rw [issues_replaceAll, last, Option.some_or, Option.some_or]
  | none =>
    rw [issues_replaceAll, last, Option.none_or, Option.none_or, Option.filter_filter]
    congr 1
    funext _
    have unrecorded : id ∉ issues.map (·.id) := by simpa using last
    by_cases kept : id ∈ p.idsOf kind
    · simp [SortedSet.contains_iff.mpr kept]
    · have held := fun cleared => unrecorded (recorded_of_mem_idsOf kept cleared)
      simp [SortedSet.contains_eq_false.mpr kept, SortedSet.contains_eq_false.mpr held]

/-- Links to recorded issues stand behind all others, just as the issues about the file link them
first. -/
def Settled (links recorded about : List String) : Prop :=
  ∃ moved, links = links.filter (· ∉ recorded) ++ moved ∧ moved <+: linkAll [] about

theorem linkAll_again_iff {links recorded about : List String} (among : about ⊆ recorded) :
    linkAll (links.filter (· ∉ recorded)) about = linkAll links about ↔
      Settled links recorded about := by
  have ofNew {id : String} (member : id ∈ linkAll [] about) : id ∈ recorded :=
    among (by simpa using mem_linkAll.mp member)
  have fresh : (linkAll [] about).filter (· ∉ links.filter (· ∉ recorded)) = linkAll [] about :=
    List.filter_eq_self.mpr fun id member => by simp [ofNew member]
  rw [linkAll_eq links, linkAll_eq, fresh]
  constructor
  · intro same
    have lead : links.filter (· ∉ recorded) <+: links :=
      List.prefix_of_prefix_length_le ⟨_, same⟩ ⟨_, rfl⟩ (List.length_filter_le _ _)
    obtain ⟨moved, split⟩ := lead
    refine ⟨moved, split.symm, (linkAll [] about).filter (· ∉ links), ?_⟩
    have whole : links.filter (· ∉ recorded) ++ (moved ++ (linkAll [] about).filter (· ∉ links)) =
        links.filter (· ∉ recorded) ++ linkAll [] about := by
      rw [← List.append_assoc, split, same]
    exact List.append_cancel_left whole
  · rintro ⟨moved, split, rest, order⟩
    have distinct := nodup_linkAll about
    rw [← order] at distinct
    have known : moved.filter (· ∉ links) = [] := by
      refine List.filter_eq_nil_iff.mpr fun id member => ?_
      have held : id ∈ links := by
        rw [split]
        exact List.mem_append_right _ member
      simpa using held
    have new : rest.filter (· ∉ links) = rest := by
      refine List.filter_eq_self.mpr fun id member => ?_
      have absent : id ∉ links := by
        rw [split, List.mem_append, List.mem_filter]
        rintro (⟨-, other⟩ | before)
        · have isNew : id ∈ linkAll [] about := order ▸ List.mem_append_right _ member
          simp [ofNew isNew] at other
        · exact (List.nodup_append.mp distinct).2.2 id before id member rfl
      simpa using absent
    rw [← order, List.filter_append, known, new, List.nil_append, ← List.append_assoc, ← split]

theorem idsAbout_subset (issues : List Issue) (file : String) :
    idsAbout issues file ⊆ issues.map (·.id) :=
  (List.filter_sublist.map _).subset

/-- Clearing again takes away the new links, and old links to issues that are recorded anew. -/
theorem keptLinks_replaceAll (same : ∀ i ∈ issues, i.kind = kind) (f : File) (file : String) :
    keptLinks (p.replaceAll kind issues) kind
      { f with issues := linkAll (keptLinks p kind f) (idsAbout issues file) } =
    (keptLinks p kind f).filter (· ∉ issues.map (·.id)) := by
  have old : (keptLinks p kind f).filter (!((p.replaceAll kind issues).idsOf kind).contains ·) =
      (keptLinks p kind f).filter (· ∉ issues.map (·.id)) := by
    refine List.filter_congr fun id member => ?_
    have kept : id ∉ p.idsOf kind := by
      have passed := (List.mem_filter.mp member).2
      rwa [Bool.not_eq_true', SortedSet.contains_eq_false] at passed
    have cleared : id ∈ (p.replaceAll kind issues).idsOf kind ↔ id ∈ issues.map (·.id) :=
      ⟨recorded_of_mem_idsOf kept, mem_idsOf_of_recorded same⟩
    rw [Bool.eq_iff_iff, Bool.not_eq_true', SortedSet.contains_eq_false, cleared,
      decide_eq_true_iff]
  have new : ((linkAll [] (idsAbout issues file)).filter (· ∉ keptLinks p kind f)).filter
      (!((p.replaceAll kind issues).idsOf kind).contains ·) = [] := by
    refine List.filter_eq_nil_iff.mpr fun id member => ?_
    have about : id ∈ idsAbout issues file := by
      simpa using mem_linkAll.mp (List.mem_filter.mp member).1
    have cleared := mem_idsOf_of_recorded (p := p) same (idsAbout_subset issues file about)
    rw [SortedSet.contains_iff.mpr cleared]
    exact Bool.false_ne_true
  change (linkAll _ _).filter _ = _
  rw [linkAll_eq, List.filter_append, old, new, List.append_nil]

/-- Replacing issues by the same ones again changes nothing exactly if no file has links to new
issues from before, except where they stand anyway. -/
theorem replaceAll_again_iff (same : ∀ i ∈ issues, i.kind = kind) :
    (p.replaceAll kind issues).replaceAll kind issues = p.replaceAll kind issues ↔
      ∀ id f, p.files.get? id = some f →
        Settled (keptLinks p kind f) (issues.map (·.id)) (idsAbout issues id) := by
  have files : ((p.replaceAll kind issues).replaceAll kind issues).files =
        (p.replaceAll kind issues).files ↔
      ∀ id f, p.files.get? id = some f →
        linkAll ((keptLinks p kind f).filter (· ∉ issues.map (·.id))) (idsAbout issues id) =
          linkAll (keptLinks p kind f) (idsAbout issues id) := by
    constructor
    · intro equal id f stored
      have again := congrArg (·.get? id) equal
      simp only [files_replaceAll, stored, Option.map_some, Option.some.injEq] at again
      rw [← keptLinks_replaceAll same f id]
      exact congrArg File.issues again
    · intro each
      refine SortedMap.ext_get? fun id => ?_
      rw [files_replaceAll, files_replaceAll, Option.map_map]
      refine Option.map_congr fun f stored => ?_
      simp only [Function.comp, keptLinks_replaceAll same, each id f stored]
  have whole : (p.replaceAll kind issues).replaceAll kind issues = p.replaceAll kind issues ↔
      ((p.replaceAll kind issues).replaceAll kind issues).files =
        (p.replaceAll kind issues).files := by
    refine ⟨congrArg _, fun equal => ?_⟩
    rw [replaceAll_eq (p.replaceAll kind issues), equal, issues_replaceAll_again]
  rw [whole, files]
  exact forall₃_congr fun id f _ => linkAll_again_iff (idsAbout_subset issues id)

end Twice

end RepoAudit.Project
