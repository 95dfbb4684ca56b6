import RepoAudit.Proofs.Audit.Renewal
import RepoAudit.Proofs.Report.Identity
import RepoAudit.Proofs.Shacl.Instances
import RepoAudit.Proofs.Shacl.Requirements

/-!
# Projects conform to the bundled shapes

The graph of a coherent project states of each record what the rule of its class requires, so that a
validation against the bundled shapes reports nothing but thresholds that files exceed.
`aboutThresholds_of_run` says so of whatever a sequence of stages makes of a new project.
-/

namespace RepoAudit.Report

open Project Rdf Shacl BundledShapes

/-! ### Classes -/

variable {p : Project}

theorem unreserved_graph (p : Project) : GraphUnreserved (graph p) := by
  have apart {t : Term} (named : t.isBlank = false) : Unreserved t := by
    rintro n rfl
    cases named
  intro t held
  have plain := plainFact_of_mem held
  obtain ⟨id, subject⟩ := plain.subject
  exact ⟨subject ▸ unreserved_of_isIri rfl, apart plain.object.2⟩

/-! ### Properties of records -/

section Properties

variable {r : Record} (distinct : Distinct p) (listed : r ∈ records p)
  (known : r.type ≠ "DependencyEdge") {part : String} {parameters : List Parameter}
include distinct listed known

/-- A property of which the facts of a record give at most one value meets what this value does. -/
theorem metAt_of_values (values : List Term) (given : valuesOf (repo part) r.facts = values)
    (single : values.length ≤ 1) (own : ∀ link ∈ links, part ≠ link)
    (met : ∀ q ∈ parameters, q.MetBy (graph p) values) :
    (⟨"repo", part, parameters⟩ : Property).MetAt (graph p) (node r.id) := by
  have objects : (graph p).objects (node r.id) (.iri (repo part)) = values :=
    objects_eq listed distinct known (fun link among same => own link among (repo_inj.mp same)) given
      single
  intro q stated
  change q.MetBy (graph p) ((graph p).objects (node r.id) (.iri (repo part)))
  rw [objects]
  exact met q stated

/-- Of a value that is given once just the other parameters have to be looked at. -/
theorem metAt_of_value (v : Term) (given : valuesOf (repo part) r.facts = [v])
    (own : ∀ link ∈ links, part ≠ link) (met : ∀ q ∈ parameters, q.MetBy (graph p) [v]) :
    (⟨"repo", part, atLeastOne :: atMostOne :: parameters⟩ : Property).MetAt (graph p)
      (node r.id) :=
  metAt_of_values distinct listed known [v] given le_rfl own
    (List.forall_mem_cons.mpr ⟨met_atLeastOne (List.cons_ne_nil v []),
      List.forall_mem_cons.mpr ⟨met_atMostOne le_rfl, met⟩⟩)

end Properties

theorem forall_mem_toList {α : Type} {term : α → Term} {a? : Option α} {P : Term → Prop}
    (each : ∀ a, a? = some a → P (term a)) : ∀ v ∈ (a?.map term).toList, P v := by
  intro v held
  obtain ⟨a, some, rfl⟩ := Option.map_eq_some_iff.mp (Option.mem_toList.mp held)
  exact each a some

theorem length_toList_le {α : Type} (a? : Option α) : a?.toList.length ≤ 1 := by
  cases a? <;> simp

/-! ### Records that are referred to -/

section References

variable {s : Audit.Subject} (coherent : p.Coherent s) {id : String}
include coherent

theorem isInstance_file (there : p.files.contains id = true) :
    isInstance (graph p) (node id) (.iri (repo "File")) = true := by
  obtain ⟨f, stored⟩ := Option.isSome_iff_exists.mp there
  obtain rfl : f.id = id := (coherent.files id f stored).1
  exact isInstance_record (r := .file f) (Record.Stored.mem stored)

theorem isInstance_module (there : p.modules.contains id = true) :
    isInstance (graph p) (node id) (.iri (repo "Module")) = true := by
  obtain ⟨m, stored⟩ := Option.isSome_iff_exists.mp there
  obtain rfl : m.id = id := (coherent.modules id m stored).stored
  exact isInstance_record (r := .group m) (Record.Stored.mem stored)

theorem isInstance_person (there : p.contributors.contains id = true) :
    isInstance (graph p) (node id) (.iri (repo "Contributor")) = true := by
  obtain ⟨c, stored⟩ := Option.isSome_iff_exists.mp there
  obtain rfl : c.id = id := (coherent.contributors id c stored).stored
  exact isInstance_record (r := .person c) (Record.Stored.mem stored)

end References

/-! ### Records that meet rules -/

section Rules

variable {s : Audit.Subject} (coherent : p.Coherent s) (distinct : Distinct p)

include distinct in
theorem metAt_project
    (analyzed : ∀ t, p.analyzedAt = some t → t.Valid ∧ 1700 ≤ t.date.year ∧ t.date.year ≤ 2200) :
    projectRule.MetAt (graph p) (node p.id) := by
  have listed : .project p ∈ records p := List.mem_cons_self
  have known : (Record.project p).type ≠ "DependencyEdge" := by simp [Record.type]
  simp only [Rule.MetAt, projectRule, List.forall_mem_cons]
  refine ⟨?name, ?analyzedAt, List.forall_mem_nil _⟩
  case name =>
    refine metAt_of_value distinct listed known (.string p.name)
      (by simp [Record.facts, projectFacts_eq]) (by simp [links]) (List.forall_mem_singleton.mpr ?_)
    exact met_datatype (List.forall_mem_singleton.mpr (hasDatatype_string p.name))
  case analyzedAt =>
    refine metAt_of_values distinct listed known
      (p.analyzedAt.map fun t => Term.dateTime t.rfc3339).toList
      (by simp [Record.facts, projectFacts_eq]) (length_toList_le _) (by simp [links]) ?_
    simp only [List.forall_mem_cons]
    refine ⟨met_atMostOne (length_toList_le _), met_datatype (forall_mem_toList fun t set => ?_),
      List.forall_mem_nil _⟩
    obtain ⟨valid, first, last⟩ := analyzed t set
    exact hasDatatype_dateTime valid first last

include coherent distinct in
theorem metAt_file (proper : s.Proper) {f : File} (listed : .file f ∈ records p)
    (shown : ShownInUnit f.hotness) : fileRule.MetAt (graph p) (node f.id) := by
  have place : f.InPlace s p := coherent.inPlace f.id f (stored_of_mem coherent listed)
  obtain ⟨t, member, path⟩ := place.text
  have filled : f.path ≠ "" := path ▸ (proper.paths t member).1
  have known : (Record.file f).type ≠ "DependencyEdge" := by simp [Record.type]
  simp only [Rule.MetAt, fileRule, List.forall_mem_cons]
  refine ⟨?path, ?loc, ?churn, ?hotness, ?inModule, ?owner, List.forall_mem_nil _⟩
  case path =>
    refine metAt_of_value distinct listed known (.string f.path) (by simp [Record.facts, fileFacts])
      (by simp [links]) ?_
    simp only [List.forall_mem_cons]
    exact ⟨met_datatype (List.forall_mem_singleton.mpr (hasDatatype_string f.path)),
      met_filled (List.forall_mem_singleton.mpr ⟨f.path, rfl, filled⟩), List.forall_mem_nil _⟩
  case loc =>
    refine metAt_of_value distinct listed known (count f.loc) (by simp [Record.facts, fileFacts])
      (by simp [links]) ?_
    simp only [List.forall_mem_cons]
    exact ⟨met_datatype (List.forall_mem_singleton.mpr (hasDatatype_count f.loc)),
      met_least rfl (List.forall_mem_singleton.mpr (count_atLeast_zero f.loc)),
      List.forall_mem_nil _⟩
  case churn =>
    refine metAt_of_values distinct listed known [count f.churn] (by simp [Record.facts, fileFacts])
      le_rfl (by simp [links]) ?_
    simp only [List.forall_mem_cons]
    exact ⟨met_atMostOne le_rfl,
      met_least rfl (List.forall_mem_singleton.mpr (count_atLeast_zero f.churn)),
      List.forall_mem_nil _⟩
  case hotness =>
    refine metAt_of_value distinct listed known (.decimal f.hotness)
      (by simp [Record.facts, fileFacts]) (by simp [links]) ?_
    simp only [List.forall_mem_cons]
    exact ⟨met_datatype (List.forall_mem_singleton.mpr shown.hasDatatype),
      met_least rfl (List.forall_mem_singleton.mpr shown.inRange.1),
      met_greatest rfl (List.forall_mem_singleton.mpr shown.inRange.2), List.forall_mem_nil _⟩
  case inModule =>
    refine metAt_of_value distinct listed known (node (moduleId f.moduleName))
      (by simp [Record.facts, fileFacts]) (by simp [links]) (List.forall_mem_singleton.mpr ?_)
    exact met_instanceOf (List.forall_mem_singleton.mpr (isInstance_module coherent place.grouped))
  case owner =>
    refine metAt_of_values distinct listed known (f.owner.map node).toList
      (by simp [Record.facts, fileFacts]) (length_toList_le _) (by simp [links]) ?_
    simp only [List.forall_mem_cons]
    exact ⟨met_atMostOne (length_toList_le _), met_instanceOf (forall_mem_toList fun person owned =>
      isInstance_person coherent (place.owned person owned)), List.forall_mem_nil _⟩

include coherent distinct in
theorem metAt_module {m : Module} (listed : .group m ∈ records p) :
    moduleRule.MetAt (graph p) (node m.id) := by
  have place : m.InPlace p m.id := coherent.modules m.id m (stored_of_mem coherent listed)
  have known : (Record.group m).type ≠ "DependencyEdge" := by simp [Record.type]
  have given : valuesOf (repo "containsFile") (Record.group m).facts = m.files.toList.map node := by
    simp [Record.facts, moduleFacts]
  simp only [Rule.MetAt, moduleRule, List.forall_mem_cons]
  refine ⟨?name, ?containsFile, List.forall_mem_nil _⟩
  case name =>
    exact metAt_of_value distinct listed known (.string m.name)
      (by simp [Record.facts, moduleFacts]) (by simp [links]) (List.forall_mem_nil _)
  case containsFile =>
    simp only [Property.MetAt, List.forall_mem_cons]
    refine ⟨?_, ?_, List.forall_mem_nil _⟩
    · obtain ⟨file, inside⟩ := place.filled
      refine met_atLeastOne (List.ne_nil_of_mem (mem_objects_of_record listed (o := node file) ?_))
      exact given.symm ▸ List.mem_map_of_mem inside
    · refine met_instanceOf fun v held => ?_
      have value : v ∈ valuesOf (repo "containsFile") (Record.group m).facts :=
        (mem_objects_iff listed distinct known (by simp [links])).mp held
      rw [given] at value
      obtain ⟨file, inside, rfl⟩ := List.mem_map.mp value
      exact isInstance_file coherent (place.files file inside)

theorem hashDigits_has : ∀ c ∈ "0123456789abcdef".toList, hashDigits.has c = true :=
  List.all_eq_true.mp (by decide)

include coherent distinct in
theorem metAt_commit {c : Commit} (listed : .commit c ∈ records p) :
    commitRule.MetAt (graph p) (node c.id) := by
  have place : c.InPlace p c.id := coherent.commits c.id c (stored_of_mem coherent listed)
  obtain ⟨least, most, digits⟩ := place.hash
  have known : (Record.commit c).type ≠ "DependencyEdge" := by simp [Record.type]
  simp only [Rule.MetAt, commitRule, List.forall_mem_cons]
  refine ⟨?sha, ?author, List.forall_mem_nil _⟩
  case sha =>
    refine metAt_of_value distinct listed known (.string c.sha) (by simp [Record.facts, commitFacts])
      (by simp [links]) (List.forall_mem_singleton.mpr ?_)
    exact met_matching (List.forall_mem_singleton.mpr
      ⟨c.sha, rfl, least, most, fun d member => hashDigits_has d (digits member)⟩)
  case author =>
    refine metAt_of_value distinct listed known (node c.author) (by simp [Record.facts, commitFacts])
      (by simp [links]) (List.forall_mem_singleton.mpr ?_)
    exact met_instanceOf (List.forall_mem_singleton.mpr (isInstance_person coherent place.author))

theorem metAt_person {c : Person} (listed : .person c ∈ records p) :
    contributorRule.MetAt (graph p) (node c.id) := by
  have named : .string c.name ∈ valuesOf (foaf "name") (Record.person c).facts := by
    simp [-String.isEmpty_iff, Record.facts, personFacts, fact?_of_filled]
  simp only [Rule.MetAt, contributorRule, Property.MetAt, List.forall_mem_singleton]
  exact met_atLeastOne (List.ne_nil_of_mem (mem_objects_of_record listed named))

include coherent distinct in
theorem metAt_coupling {pair : UnorderedPair} {n : Nat} (listed : .coupling pair n ∈ records p) :
    couplingRule.MetAt (graph p) (node (couplingId pair)) := by
  obtain ⟨positive, first, second⟩ := coherent.coupling pair n (stored_of_mem coherent listed)
  have known : (Record.coupling pair n).type ≠ "DependencyEdge" := by simp [Record.type]
  simp only [Rule.MetAt, couplingRule, List.forall_mem_cons]
  refine ⟨?weight, ?source, ?target, List.forall_mem_nil _⟩
  case weight =>
    refine metAt_of_value distinct listed known (count n) (by simp [Record.facts, couplingFacts])
      (by simp [links]) ?_
    simp only [List.forall_mem_cons]
    exact ⟨met_datatype (List.forall_mem_singleton.mpr (hasDatatype_count n)),
      met_least rfl (List.forall_mem_singleton.mpr (count_atLeast_one positive)),
      List.forall_mem_nil _⟩
  case source =>
    refine metAt_of_value distinct listed known (node pair.first)
      (by simp [Record.facts, couplingFacts]) (by simp [links]) (List.forall_mem_singleton.mpr ?_)
    exact met_instanceOf (List.forall_mem_singleton.mpr (isInstance_file coherent first))
  case target =>
    refine metAt_of_value distinct listed known (node pair.second)
      (by simp [Record.facts, couplingFacts]) (by simp [links]) (List.forall_mem_singleton.mpr ?_)
    exact met_instanceOf (List.forall_mem_singleton.mpr (isInstance_file coherent second))

include coherent distinct in
theorem metAt_issue {i : Issue} (listed : .issue i ∈ records p) :
    issueRule.MetAt (graph p) (node i.id) := by
  have titled := coherent.titled i.id i (stored_of_mem coherent listed)
  have known : (Record.issue i).type ≠ "DependencyEdge" := by simp [Record.type]
  have kinds : i.kind.name ∈ ["hotspot", "todo", "dirty_worktree", "shacl_violation"] := by
    cases i.kind <;> simp [IssueKind.name]
  have severities : i.severity.name ∈ ["info", "low", "medium", "high", "critical"] := by
    cases i.severity <;> simp [Severity.name]
  simp only [Rule.MetAt, issueRule, List.forall_mem_cons]
  refine ⟨?issueType, ?severity, ?title, List.forall_mem_nil _⟩
  case issueType =>
    refine metAt_of_values distinct listed known [.string i.kind.name]
      (by simp [-String.isEmpty_iff, Record.facts, issueFacts, fact?_of_filled]) le_rfl
      (by simp [links]) ?_
    simp only [List.forall_mem_cons]
    exact ⟨met_atLeastOne (List.cons_ne_nil _ _),
      met_among (List.forall_mem_singleton.mpr ⟨_, kinds, rfl⟩), List.forall_mem_nil _⟩
  case severity =>
    refine metAt_of_value distinct listed known (.string i.severity.name)
      (by simp [-String.isEmpty_iff, Record.facts, issueFacts, fact?_of_filled]) (by simp [links])
      (List.forall_mem_singleton.mpr ?_)
    exact met_among (List.forall_mem_singleton.mpr ⟨_, severities, rfl⟩)
  case title =>
    refine metAt_of_values distinct listed known [.string i.title]
      (by simp [-String.isEmpty_iff, Record.facts, issueFacts, fact?_of_filled]) le_rfl
      (by simp [links]) ?_
    simp only [List.forall_mem_cons]
    exact ⟨met_atLeastOne (List.cons_ne_nil _ _),
      met_filled (List.forall_mem_singleton.mpr ⟨_, rfl, titled⟩), List.forall_mem_nil _⟩

/-! ### Whole projects -/

/-- The rules about how records refer to each other and what their numbers and texts are. -/
def structural : List Rule :=
  [projectRule, fileRule, moduleRule, commitRule, contributorRule, couplingRule, issueRule]

include coherent distinct in
/-- Every record meets the structural rule of its class. -/
theorem metAt_record (proper : s.Proper)
    (analyzed : ∀ t, p.analyzedAt = some t → t.Valid ∧ 1700 ≤ t.date.year ∧ t.date.year ≤ 2200)
    (shown : ∀ f ∈ p.files.values, 0.0 ≤ f.hotness → f.hotness ≤ 1.0 → ShownInUnit f.hotness)
    {rule : Rule} (among : rule ∈ structural) {r : Record} (listed : r ∈ records p)
    (type : r.type = rule.type) : rule.MetAt (graph p) (node r.id) := by
  simp only [structural, List.mem_cons, List.not_mem_nil, or_false] at among
  rcases among with rfl | rfl | rfl | rfl | rfl | rfl | rfl
  · cases r with
    | project q =>
      obtain rfl : q = p := stored_of_mem coherent listed
      exact metAt_project distinct analyzed
    | _ => simp [Record.type, projectRule] at type
  · cases r with
    | file f =>
      have stored : p.files.get? f.id = some f := stored_of_mem coherent listed
      obtain ⟨nonneg, le⟩ := (coherent.inPlace f.id f stored).hotness
      exact metAt_file coherent distinct proper listed
        (shown f (SortedMap.mem_values.mpr ⟨f.id, stored⟩) nonneg le)
    | _ => simp [Record.type, fileRule] at type
  · cases r with
    | group m => exact metAt_module coherent distinct listed
    | _ => simp [Record.type, moduleRule] at type
  · cases r with
    | commit c => exact metAt_commit coherent distinct listed
    | _ => simp [Record.type, commitRule] at type
  · cases r with
    | person c => exact metAt_person listed
    | _ => simp [Record.type, contributorRule] at type
  · cases r with
    | coupling pair n => exact metAt_coupling coherent distinct listed
    | _ => simp [Record.type, couplingRule] at type
  · cases r with
    | issue i => exact metAt_issue coherent distinct listed
    | _ => simp [Record.type, issueRule] at type

end Rules

/-- A result about how complex, how maintainable or how hot a file is. -/
def AboutThresholds (result : Shacl.Violation) : Prop :=
  result.path = some (repo "complexity") ∨ result.path = some (repo "maintainability") ∨
    result.path = some (repo "hotness") ∧ result.component = sh "MaxExclusiveConstraintComponent"

/-- What is reported for another rule is about thresholds. -/
theorem aboutThresholds_of_rule {rule : Rule} (listed : rule ∈ rules) (other : rule ∉ structural)
    {prop : Shacl.Property} (property : prop ∈ rule.properties) {q : Parameter}
    (parameter : q ∈ prop.parameters) {data : Graph} {values : List Term}
    (unmet : ¬ q.MetBy data values) {result : Shacl.Violation}
    (path : result.path = some (namespaces prop.pre ++ prop.part))
    (component : ∀ c, q.constraint? = some c → result.component = c.component) :
    AboutThresholds result := by
  have threshold : rule ∈ [complexityWarning, complexityLimit, maintainabilityRule, hotspotRule] := by
    simp only [rules, structural, List.mem_cons, List.not_mem_nil, or_false] at listed other ⊢
    tauto
  simp only [List.mem_cons, List.not_mem_nil, or_false] at threshold
  rcases threshold with rfl | rfl | rfl | rfl
  · obtain rfl := List.mem_singleton.mp property
    exact .inl path
  · obtain rfl := List.mem_singleton.mp property
    exact .inl path
  · obtain rfl := List.mem_singleton.mp property
    exact .inr (.inl path)
  · obtain rfl := List.mem_singleton.mp property
    simp only [List.mem_cons, List.not_mem_nil, or_false] at parameter
    rcases parameter with rfl | rfl | rfl
    · obtain ⟨c, stated, named⟩ : ∃ c, (below "0.8").constraint? = some c ∧
          c.component = sh "MaxExclusiveConstraintComponent" :=
        ⟨.maxExclusive (.typed "0.8" (xsd "decimal")), rfl, rfl⟩
      exact .inr (.inr ⟨path, (component c stated).trans named⟩)
    · exact absurd (met_severity "Info") unmet
    · exact absurd (met_message _) unmet

/-- Of a project that stages make of a new one, a validation against the bundled shapes reports
nothing but thresholds that files exceed. -/
theorem aboutThresholds_of_run (name root : String) (analyzedAt : Option Time.Instant)
    (gitHead : Option String) (stages : List Audit.Stage) {s : Audit.Subject} (proper : s.Proper)
    (finite : .complexity ∈ stages → s.Finite)
    (analyzed : ∀ t, analyzedAt = some t → t.Valid ∧ 1700 ≤ t.date.year ∧ t.date.year ≤ 2200) :
    let p := (Audit.run stages s { Project.named name root with analyzedAt, gitHead }).project
    HashesApart p →
    (∀ f ∈ p.files.values, 0.0 ≤ f.hotness → f.hotness ≤ 1.0 → ShownInUnit f.hotness) →
    ∃ v, Validator.bundled = .ok v ∧
      ∀ result ∈ (v.validate (graph p)).violations, AboutThresholds result := by
  intro p apart shown
  have new : ({ Project.named name root with analyzedAt, gitHead } : Project).Coherent s :=
    coherent_header s { Project.named name root with analyzedAt, gitHead }
  have coherent : p.Coherent s := new.run proper finite
  have header : p.header = { Project.named name root with analyzedAt, gitHead } :=
    (new.toAudited.run stages s).2
  have id : p.id = projectId name := congrArg Project.id header
  have at' : p.analyzedAt = analyzedAt := congrArg Project.analyzedAt header
  have distinct := distinct_of_coherent coherent proper (id.symm ▸ idOf_project name) apart
  obtain ⟨v, bundled, reports⟩ := violation_of_bundled
  refine ⟨v, bundled, fun result reported => ?_⟩
  obtain ⟨rule, listed, focus, selected, prop, property, q, parameter, path, component, unmet⟩ :=
    reports (graph p) (unreserved_graph p) result reported
  obtain ⟨r, record, rfl, type⟩ := mem_instancesOf_record.mp selected
  refine aboutThresholds_of_rule listed (fun among => unmet ?_) property parameter unmet path component
  exact metAt_record coherent distinct proper (at'.symm ▸ analyzed) shown among record type prop
    property q parameter

/-! ### A sample -/

instance : DecidableEq Audit.Source := fun a b =>
  decidable_of_iff (a.path = b.path ∧ a.content = b.content) (by cases a; cases b; simp)

/-- Two files, of which one has a marker. -/
def sampleSources : List Audit.Source :=
  [⟨"a.py", Text.encoded "if x:\n    pass  # TODO: more\n".toList⟩,
   ⟨"lib/b.rs", Text.encoded "fn main() \x7b\x7d\n".toList⟩]

def samplePlace : Files.Place := ⟨["demo"], [], .directory [
  ("a.py", .file (Text.encoded "if x:\n    pass  # TODO: more\n".toList)),
  ("lib", .directory [("b.rs", .file (Text.encoded "fn main() \x7b\x7d\n".toList))])]⟩

/-- Both files are changed twice, by two contributors. -/
def sample : Audit.Subject where
  root := "/demo"
  place := some samplePlace
  config := {}
  entries := [
    { sha := "0a1b2c3", name := "Ann", email := "ann@x.io", time := ⟨0, 0⟩, message := "begin"
      changes := [⟨"a.py", 10, 0⟩, ⟨"lib/b.rs", 5, 0⟩] },
    { sha := "4d5e6f7", name := "Bob", email := "", time := ⟨60, 0⟩, message := "go on"
      changes := [⟨"a.py", 2, 8⟩, ⟨"lib/b.rs", 1, 1⟩] }]

def sampleTime : Time.Instant := ⟨1700000000, 0⟩

def newSample : Project :=
  { Project.named "demo" "/demo" with analyzedAt := some sampleTime, gitHead := none }

def sampleProject : Project := (Audit.run (Audit.Mode.full.stages true) sample newSample).project

theorem sources_sample :
    Audit.sources sample.config sample.root sample.place = .ok sampleSources := by
  have walked : (Ignore.files samplePlace).filterMap (fun x => Audit.source? {} x.1 x.2) =
      sampleSources := by decide +kernel
  have sorted : sampleSources.mergeSort (fun a b => (compare a.path b.path).isLE) =
      sampleSources := List.mergeSort_of_pairwise (by decide +kernel)
  change Except.ok (((Ignore.files samplePlace).filterMap
    fun x => Audit.source? {} x.1 x.2).mergeSort _) = _
  rw [walked, sorted]

/-- The sample before the last stage records its issues. -/
def scoredSample : Project :=
  (Audit.withCommits (((newSample.withSources .sha256 sampleSources).withComplexity
    (some samplePlace) {}).withMarkers (some samplePlace)) sample).scored

theorem sampleProject_eq : sampleProject =
    scoredSample.replaceAll .hotspot (scoredSample.hotspots 50) := by
  rw [sampleProject, Audit.run_full newSample sources_sample]
  exact withHotspots_eq _ 50

theorem coupling_sample : sampleProject.coupling = scoredSample.coupling := by
  rw [sampleProject_eq, replaceAll_eq]

theorem hotness_sample : sampleProject.files.values.map (·.hotness) =
    scoredSample.files.values.map (·.hotness) := by
  rw [sampleProject_eq, replaceAll_relinked]
  exact SortedMap.map_values_mapValues fun _ _ => rfl

theorem aboutThresholds_of_sample : sample.Proper ∧ sample.Finite ∧
    (sampleTime.Valid ∧ 1700 ≤ sampleTime.date.year ∧ sampleTime.date.year ≤ 2200) ∧
    HashesApart sampleProject ∧ sampleProject.coupling.size = 1 ∧
    (∀ f ∈ sampleProject.files.values, 0.0 ≤ f.hotness → f.hotness ≤ 1.0 →
      ShownInUnit f.hotness) ∧
    ∃ v, Validator.bundled = .ok v ∧
      ∀ result ∈ (v.validate (graph sampleProject)).violations, AboutThresholds result := by
  have texts := Audit.Subject.texts_eq sources_sample
  have proper : sample.Proper := by
    constructor
    case paths =>
      rw [texts]
      decide +kernel
    case sizes =>
      rw [texts]
      decide +kernel
    case hashes => decide +kernel
    case lines => decide +kernel
  have finite : sample.Finite := by
    rw [Audit.Subject.Finite, texts]
    decide +kernel
  have time : sampleTime.Valid ∧ 1700 ≤ sampleTime.date.year ∧ sampleTime.date.year ≤ 2200 :=
    ⟨⟨by decide, by decide⟩, by decide +kernel, by decide +kernel⟩
  have coupling : sampleProject.coupling.size = 1 := by
    rw [coupling_sample]
    decide +kernel
  have apart : HashesApart sampleProject := by
    rw [HashesApart, coupling_sample]
    decide +kernel
  have shown : ∀ f ∈ sampleProject.files.values, 0.0 ≤ f.hotness → f.hotness ≤ 1.0 →
      ShownInUnit f.hotness := by
    have each : ∀ x ∈ sampleProject.files.values.map (·.hotness), ShownInUnit x := by
      rw [hotness_sample]
      decide +kernel
    exact fun f member _ _ => List.forall_mem_map.mp each f member
  refine ⟨proper, finite, time, apart, coupling, shown, ?_⟩
  exact aboutThresholds_of_run "demo" "/demo" (some sampleTime) none (Audit.Mode.full.stages true)
    proper (fun _ => finite) (fun t set => Option.some.inj set ▸ time) apart shown

end RepoAudit.Report
