import RepoAudit.Proofs.Json.Parts
import RepoAudit.Proofs.Report.Records
import RepoAudit.Report.Document

/-!
# Documents as facts

The context of a document says which property the name of a member stands for, and the identifier of
a record tells its node. So the texts and references in the records of a document are facts;
`unstated_iff` says which of them are missing in the graph of the project.
-/

namespace RepoAudit.Report

open Project Rdf

/-! ### Facts of a document -/

/-- The value of a member. -/
def value? (name : String) : Json → Option Json
  | .object members => members.lookup name
  | _ => none

/-- Puts a namespace in place of a prefix that the context declares. -/
def spelledOut (context : Json) (term : String) : String :=
  match Text.cut? ':' term.toList with
  | some (front, back) => match value? (String.ofList front) context with
    | some (.string ns) => ns ++ String.ofList back
    | _ => term
  | none => term

/-- The property that a name stands for, and what its values are. -/
def meaning? (context : Json) (name : String) : Option (String × Meaning) :=
  match value? name context with
  | some (.string term) => some (spelledOut context term, .text)
  | some definition => match value? "@id" definition, value? "@type" definition with
    | some (.string term), some (.string "@id") => some (spelledOut context term, .reference)
    | some (.string term), some (.string datatype) =>
      some (spelledOut context term, .typed (spelledOut context datatype))
    | _, _ => none
  | none => none

/-- The term that a text stands for. -/
def valueTerm : Meaning → String → Term
  | .text, s => .string s
  | .reference, s => node s
  | .typed datatype, s => .typed s datatype

/-- The texts of a value: itself, or those in a list. -/
def texts : Json → List String
  | .string s => [s]
  | .array items => items.flatMap fun
    | .string s => [s]
    | _ => []
  | _ => []

/-- What texts under a name say of a node. -/
def textFacts (context : Json) (subject : Term) (name : String) (xs : List String) : List Triple :=
  match meaning? context name with
  | some (property, meaning) => xs.map fun x => fact subject property (valueTerm meaning x)
  | none => []

def memberFacts (context : Json) (subject : Term) (members : List (String × Json)) : List Triple :=
  members.flatMap fun m => textFacts context subject m.1 (texts m.2)

/-- What a record says of its node with texts and references. -/
def recordFacts (context : Json) : Json → List Triple
  | .object members => match members.lookup "@id" with
    | some (.string name) => memberFacts context (node name) members
    | _ => []
  | _ => []

/-- The members of a document that hold records with identifiers. -/
def sections : List String := ["files", "modules", "contributors", "commits", "issues"]

/-- What the records of a document say. -/
def expansion (document : Json) : List Triple :=
  sections.flatMap fun name => match value? "@context" document, value? name document with
    | some context, some (.array records) => records.flatMap (recordFacts context)
    | _, _ => []

/-! ### What members say -/

@[simp] theorem texts_strings (xs : List String) : texts (.strings xs) = xs := by
  simp [texts, Json.strings, List.flatMap_map]

section Members

variable {context : Json} {s : Term} {name : String} {members rest : List (String × Json)}

@[simp] theorem textFacts_nil : textFacts context s name [] = [] := by
  unfold textFacts
  split <;> rfl

@[simp] theorem memberFacts_nil : memberFacts context s [] = [] := rfl

@[simp] theorem memberFacts_append : memberFacts context s (members ++ rest) =
    memberFacts context s members ++ memberFacts context s rest := List.flatMap_append

theorem memberFacts_cons {value : Json} : memberFacts context s ((name, value) :: rest) =
    textFacts context s name (texts value) ++ memberFacts context s rest := List.flatMap_cons

@[simp] theorem memberFacts_string {x : String} :
    memberFacts context s ((name, .string x) :: rest) =
      textFacts context s name [x] ++ memberFacts context s rest := memberFacts_cons

@[simp] theorem memberFacts_strings {xs : List String} :
    memberFacts context s ((name, .strings xs) :: rest) =
      textFacts context s name xs ++ memberFacts context s rest := by
  rw [memberFacts_cons, texts_strings]

theorem memberFacts_of_silent {value : Json} (silent : texts value = []) :
    memberFacts context s ((name, value) :: rest) = memberFacts context s rest := by
  rw [memberFacts_cons, silent, textFacts_nil, List.nil_append]

@[simp] theorem memberFacts_nat {n : Nat} :
    memberFacts context s ((name, .nat n) :: rest) = memberFacts context s rest :=
  memberFacts_of_silent rfl

@[simp] theorem memberFacts_float {x : Float} :
    memberFacts context s ((name, .float x) :: rest) = memberFacts context s rest :=
  memberFacts_of_silent rfl

@[simp] theorem memberFacts_member?_string {a? : Option String} :
    memberFacts context s (Json.member? name .string a?) = textFacts context s name a?.toList := by
  cases a? <;> simp [Json.member?]

@[simp] theorem memberFacts_member?_float {a? : Option Float} :
    memberFacts context s (Json.member? name .float a?) = [] := by
  cases a? <;> simp [Json.member?]

@[simp] theorem memberFacts_nonEmpty {xs : List String} :
    memberFacts context s (nonEmpty name xs) = textFacts context s name xs := by
  unfold nonEmpty
  split <;> simp_all

@[simp] theorem memberFacts_contributionsJson {m : SortedMap String Nat} :
    memberFacts context s (contributionsJson m) = [] := by
  unfold contributionsJson
  split
  · rfl
  · exact memberFacts_of_silent rfl

end Members

/-! ### What records say -/

/-- The names of texts and references in records, with what the context says of them. -/
def meanings : List (String × Option (String × Meaning)) :=
  [("@id", none), ("@type", none),
   ("path", some (repo "path", .text)),
   ("language", some (repo "language", .text)),
   ("checksum", some (repo "checksum", .text)),
   ("owner", some (repo "owner", .reference)),
   ("module", some (repo "inModule", .reference)),
   ("issues", some (repo "hasIssue", .reference)),
   ("name", some (repo "name", .text)),
   ("containsFiles", some (repo "containsFile", .reference)),
   ("email", some (repo "email", .text)),
   ("owns", some (repo "owns", .reference)),
   ("sha", some (repo "sha", .text)),
   ("author", some (repo "author", .reference)),
   ("timestamp", some (prov "endedAtTime", .typed (xsd "dateTime"))),
   ("message", some (repo "message", .text)),
   ("touches", some (repo "touches", .reference)),
   ("issueType", some (repo "issueType", .text)),
   ("severity", some (repo "severity", .text)),
   ("title", some (repo "title", .text)),
   ("description", some (repo "description", .text)),
   ("affects", some (repo "affects", .reference))]

theorem meaning?_context : ∀ e ∈ meanings, meaning? context e.1 = e.2 := by decide +kernel

theorem fact?_eq_map {α : Type} (s : Term) (property : String) (term : α → Term) (a? : Option α) :
    fact? s property term a? = a?.toList.map fun a => fact s property (term a) := by
  cases a? <;> rfl

section Records

variable {context : Json} (said : ∀ e ∈ meanings, meaning? context e.1 = e.2)
include said

theorem recordFacts_object {name : String} {types : List String}
    {members : List (String × Json)} :
    recordFacts context (.object (idAndTypes name types ++ members)) =
      memberFacts context (node name) members := by
  simp only [meanings, List.forall_mem_cons] at said
  simp [recordFacts, idAndTypes, textFacts, said]

theorem recordFacts_fileJson (f : File) : recordFacts context (fileJson f) =
    [fact (node f.id) (repo "path") (.string f.path)] ++
      fact? (node f.id) (repo "language") .string f.language ++
      fact? (node f.id) (repo "checksum") .string f.checksum ++
      fact? (node f.id) (repo "owner") node f.owner ++
      [fact (node f.id) (repo "inModule") (node (moduleId f.moduleName))] ++
      f.issues.map fun issue => fact (node f.id) (repo "hasIssue") (node issue) := by
  have object := @recordFacts_object _ said
  simp only [meanings, List.forall_mem_cons] at said
  simp [fileJson, object, textFacts, said, valueTerm, fact?_eq_map]

theorem recordFacts_moduleJson (m : Module) : recordFacts context (moduleJson m) =
    fact (node m.id) (repo "name") (.string m.name) ::
      m.files.toList.map fun file => fact (node m.id) (repo "containsFile") (node file) := by
  have object := @recordFacts_object _ said
  simp only [meanings, List.forall_mem_cons] at said
  simp [moduleJson, object, textFacts, said, valueTerm]

theorem recordFacts_personJson (c : Person) : recordFacts context (personJson c) =
    [fact (node c.id) (repo "name") (.string c.name),
      fact (node c.id) (repo "email") (.string c.email)] ++
      c.owns.toList.map fun file => fact (node c.id) (repo "owns") (node file) := by
  have object := @recordFacts_object _ said
  simp only [meanings, List.forall_mem_cons] at said
  simp [personJson, object, textFacts, said, valueTerm]

theorem recordFacts_commitJson (c : Commit) : recordFacts context (commitJson c) =
    [fact (node c.id) (repo "sha") (.string c.sha),
      fact (node c.id) (repo "author") (node c.author),
      fact (node c.id) (prov "endedAtTime") (.dateTime c.timestamp),
      fact (node c.id) (repo "message") (.string c.message)] ++
      c.files.map fun file => fact (node c.id) (repo "touches") (node file) := by
  have object := @recordFacts_object _ said
  simp only [meanings, List.forall_mem_cons] at said
  simp [commitJson, object, textFacts, said, valueTerm, Term.dateTime]

theorem recordFacts_issueJson (i : Issue) : recordFacts context (issueJson i) =
    [fact (node i.id) (repo "issueType") (.string i.kind.name),
      fact (node i.id) (repo "severity") (.string i.severity.name),
      fact (node i.id) (repo "title") (.string i.title),
      fact (node i.id) (repo "description") (.string i.description)] ++
      fact? (node i.id) (repo "affects") node i.file := by
  have object := @recordFacts_object _ said
  simp only [meanings, List.forall_mem_cons] at said
  simp [issueJson, object, textFacts, said, valueTerm, fact?_eq_map]

end Records

/-! ### Records in the document and in the graph -/

variable {t : Triple}

theorem mem_fileFacts {f : File} (said : t ∈ recordFacts context (fileJson f)) :
    t ∈ fileFacts f := by
  simp only [recordFacts_fileJson meaning?_context, List.mem_append, List.mem_singleton] at said
  simp only [fileFacts, List.mem_append, List.mem_cons, List.not_mem_nil, or_false]
  rcases said with ((((same | held) | held) | held) | same) | held <;>
    simp only [*, true_or, or_true]

theorem mem_moduleFacts {m : Module} (said : t ∈ recordFacts context (moduleJson m)) :
    t ∈ moduleFacts m := by
  simp only [recordFacts_moduleJson meaning?_context, List.mem_cons] at said
  simp only [moduleFacts, List.mem_append, List.mem_cons]
  rcases said with same | held <;> simp only [*, true_or, or_true]

theorem mem_commitFacts {c : Commit} (said : t ∈ recordFacts context (commitJson c)) :
    t ∈ commitFacts c := by
  simp only [recordFacts_commitJson meaning?_context, List.mem_append, List.mem_cons,
    List.not_mem_nil, or_false] at said
  simp only [commitFacts, List.mem_append, List.mem_cons, List.not_mem_nil, or_false]
  rcases said with (same | same | same | same) | held <;> simp only [*, true_or, or_true]

/-- The name of a contributor is not among the facts about them, where it has another property. -/
theorem mem_personFacts {c : Person} (said : t ∈ recordFacts context (personJson c)) :
    t = fact (node c.id) (repo "name") (.string c.name) ∨
      c.email = "" ∧ t = fact (node c.id) (repo "email") (.string c.email) ∨ t ∈ personFacts c := by
  simp only [recordFacts_personJson meaning?_context, List.mem_append, List.mem_cons,
    List.not_mem_nil, or_false] at said
  rcases said with (name | email) | owned
  · exact .inl name
  · by_cases empty : c.email = ""
    · exact .inr (.inl ⟨empty, email⟩)
    · exact .inr (.inr (by simp [personFacts, email, empty]))
  · rw [personFacts, List.mem_append]
    exact .inr (.inr (.inr owned))

theorem mem_issueFacts {i : Issue} (said : t ∈ recordFacts context (issueJson i)) :
    i.description = "" ∧ t = fact (node i.id) (repo "description") (.string i.description) ∨
      t ∈ issueFacts i := by
  simp only [recordFacts_issueJson meaning?_context, List.mem_append, List.mem_cons,
    List.not_mem_nil, or_false] at said
  rcases said with (same | same | same | description) | affected
  · exact .inr (by simp [issueFacts, same])
  · exact .inr (by simp [issueFacts, same])
  · exact .inr (by simp [issueFacts, same])
  · by_cases empty : i.description = ""
    · exact .inl ⟨empty, description⟩
    · exact .inr (by simp [issueFacts, description, empty])
  · rw [issueFacts, List.mem_append, List.mem_append]
    exact .inr (.inl (.inr affected))

/-! ### What the graph leaves unsaid -/

variable {p : Project}

theorem mem_expansion : t ∈ expansion (document p) ↔
    (∃ f ∈ p.files.values, t ∈ recordFacts context (fileJson f)) ∨
    (∃ m ∈ p.modules.values, t ∈ recordFacts context (moduleJson m)) ∨
    (∃ c ∈ p.contributors.values, t ∈ recordFacts context (personJson c)) ∨
    (∃ c ∈ p.commits.values, t ∈ recordFacts context (commitJson c)) ∨
    ∃ i ∈ p.issues.values, t ∈ recordFacts context (issueJson i) := by
  simp only [expansion, sections, List.flatMap_cons, List.flatMap_nil, document, value?, idAndTypes,
    List.cons_append, List.lookup_append, Json.lookup_cons, List.lookup_nil, Json.lookup_member?,
    String.reduceEq, if_false, if_true, Option.none_or, Option.or_none]
  simp

/-- The project, or one of its modules, has a node and a name. -/
def NamedAt (p : Project) (s : Term) (name : String) : Prop :=
  (s = node p.id ∧ name = p.name) ∨ ∃ m ∈ p.modules.values, s = node m.id ∧ name = m.name

/-- What the document of a project says but its graph does not. For the context all names are alike,
while the graph has a property of its own for the names of contributors; and it leaves out empty
addresses and descriptions. -/
inductive Unstated (p : Project) : Triple → Prop where
  | name {c : Person} (listed : c ∈ p.contributors.values)
      (alone : ¬ NamedAt p (node c.id) c.name) :
    Unstated p (fact (node c.id) (repo "name") (.string c.name))
  | email {c : Person} (listed : c ∈ p.contributors.values) (empty : c.email = "") :
    Unstated p (fact (node c.id) (repo "email") (.string c.email))
  | description {i : Issue} (listed : i ∈ p.issues.values) (empty : i.description = "") :
    Unstated p (fact (node i.id) (repo "description") (.string i.description))

theorem string_inj {a b : String} : Term.string a = Term.string b ↔ a = b := by
  simp [Term.string]

theorem name_mem_graph_iff {s : Term} {name : String} :
    fact s (repo "name") (.string name) ∈ graph p ↔ NamedAt p s name := by
  rw [fact_mem_graph_iff (by simp [links])]
  constructor
  · rintro ⟨r, listed, rfl, value⟩
    have own := mem_properties value
    cases r with
    | project q =>
      obtain rfl : q = p := by simpa [records, Record.ofEntry] using listed
      exact .inl ⟨rfl, by simpa [Record.facts, projectFacts_eq, string_inj] using value⟩
    | group m =>
      have kept : m ∈ p.modules.values := by simpa [records, Record.ofEntry] using listed
      exact .inr ⟨m, kept, rfl, by simpa [Record.facts, moduleFacts, string_inj] using value⟩
    | _ => simp [Record.properties] at own
  · rintro (⟨rfl, rfl⟩ | ⟨m, kept, rfl, rfl⟩)
    · exact ⟨.project p, by simp [records], rfl, by simp [Record.facts, projectFacts_eq]⟩
    · exact ⟨.group m, by simp [records, kept], rfl, by simp [Record.facts, moduleFacts]⟩

/-- Addresses and descriptions are not stated when they are empty. -/
theorem empty_not_mem_graph {s : Term} {property : String}
    (among : property ∈ ["email", "description"]) :
    fact s (repo property) (.string "") ∉ graph p := by
  simp only [List.mem_cons, List.not_mem_nil, or_false] at among
  have linkless : ∀ link ∈ links, repo property ≠ repo link := by
    rcases among with rfl | rfl <;> simp [links]
  rw [fact_mem_graph_iff linkless]
  rintro ⟨r, -, -, value⟩
  have own := mem_properties value
  rcases among with rfl | rfl
  · cases r with
    | person c =>
      simp [-String.isEmpty_iff, Record.facts, personFacts, fact?_of_filled, string_inj] at value
    | _ => simp [Record.properties] at own
  · cases r with
    | issue i =>
      simp [-String.isEmpty_iff, Record.facts, issueFacts, fact?_of_filled, string_inj] at value
    | _ => simp [Record.properties] at own

theorem Unstated.not_mem_graph (unstated : Unstated p t) : t ∉ graph p := by
  cases unstated with
  | name listed alone => exact fun held => alone (name_mem_graph_iff.mp held)
  | email listed empty => exact empty ▸ empty_not_mem_graph (by decide)
  | description listed empty => exact empty ▸ empty_not_mem_graph (by decide)

theorem Unstated.mem_expansion (unstated : Unstated p t) : t ∈ expansion (document p) := by
  rw [Report.mem_expansion]
  cases unstated with
  | name listed =>
    refine .inr (.inr (.inl ⟨_, listed, ?_⟩))
    simp [recordFacts_personJson meaning?_context]
  | email listed =>
    refine .inr (.inr (.inl ⟨_, listed, ?_⟩))
    simp [recordFacts_personJson meaning?_context]
  | description listed =>
    refine .inr (.inr (.inr (.inr ⟨_, listed, ?_⟩)))
    simp [recordFacts_issueJson meaning?_context]

/-- What the document says is stated in the graph or known to be left out. -/
theorem mem_graph_or_unstated (said : t ∈ expansion (document p)) : t ∈ graph p ∨ Unstated p t := by
  have stated {r : Record} (listed : r ∈ records p) (held : t ∈ r.facts) :
      t ∈ graph p ∨ Unstated p t := .inl (mem_graph.mpr (mem_facts_of_record listed held))
  rcases mem_expansion.mp said with
    ⟨f, kept, said⟩ | ⟨m, kept, said⟩ | ⟨c, kept, said⟩ | ⟨c, kept, said⟩ | ⟨i, kept, said⟩
  · exact stated (r := .file f) (by simp [records, kept]) (mem_fileFacts said)
  · exact stated (r := .group m) (by simp [records, kept]) (mem_moduleFacts said)
  · rcases mem_personFacts said with rfl | ⟨empty, rfl⟩ | held
    · by_cases named : NamedAt p (node c.id) c.name
      · exact .inl (name_mem_graph_iff.mpr named)
      · exact .inr (.name kept named)
    · exact .inr (.email kept empty)
    · exact stated (r := .person c) (by simp [records, kept]) held
  · exact stated (r := .commit c) (by simp [records, kept]) (mem_commitFacts said)
  · rcases mem_issueFacts said with ⟨empty, rfl⟩ | held
    · exact .inr (.description kept empty)
    · exact stated (r := .issue i) (by simp [records, kept]) held

/-- The texts and references in the records of a document say what the graph of the project says,
apart from the names of contributors, empty addresses and empty descriptions. -/
theorem unstated_iff : t ∈ expansion (document p) ∧ t ∉ graph p ↔ Unstated p t :=
  ⟨fun ⟨said, absent⟩ => (mem_graph_or_unstated said).resolve_left absent,
    fun unstated => ⟨unstated.mem_expansion, unstated.not_mem_graph⟩⟩

/-- A contributor with an address. -/
def ada : Person where
  id := personId "Ada" "ada@example.org"
  name := "Ada"
  email := "ada@example.org"

/-- A project with one contributor. -/
def authored : Project :=
  { Project.named "demo" "." with contributors := .ofList [(ada.id, ada)] }

/-- The document gives the name of a contributor by another property than the graph. -/
theorem contributor_name_unstated : ada ∈ authored.contributors.values ∧
    fact (node ada.id) (repo "name") (.string ada.name) ∈ expansion (document authored) ∧
    fact (node ada.id) (repo "name") (.string ada.name) ∉ graph authored ∧
    fact (node ada.id) (foaf "name") (.string ada.name) ∈ graph authored := by
  have listed : ada ∈ authored.contributors.values := List.mem_singleton_self _
  refine ⟨listed, ?_, fun held => ?_, ?_⟩
  · refine mem_expansion.mpr (.inr (.inr (.inl ⟨ada, listed, ?_⟩)))
    simp [recordFacts_personJson meaning?_context]
  · rcases name_mem_graph_iff.mp held with ⟨-, same⟩ | ⟨m, kept, -⟩
    · exact absurd same (by decide)
    · exact absurd kept List.not_mem_nil
  · have person : Record.person ada ∈ records authored := by simp [records, listed]
    exact mem_graph.mpr (mem_facts_of_record person (by simp [Record.facts, personFacts]))

end RepoAudit.Report
