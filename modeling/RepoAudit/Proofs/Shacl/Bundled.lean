import RepoAudit.Proofs.Shacl.Anonymity
import RepoAudit.Proofs.Shacl.Rules
import RepoAudit.Proofs.Turtle.Scope

/-!
# The bundled shapes as rules

The text of the bundled shapes is the document of a table of rules. So it can be read and compiled,
and a validation against it reports nothing but values that do not meet a parameter of the table.
-/

namespace RepoAudit.Shacl

open Rdf Turtle

namespace BundledShapes

/-! ### The table -/

def one : Value := .number "1"

def atLeastOne : Parameter := ⟨"minCount", one⟩

def atMostOne : Parameter := ⟨"maxCount", one⟩

def datatype (part : String) : Parameter := ⟨"datatype", .name "xsd" part⟩

def instanceOf (part : String) : Parameter := ⟨"class", .name "repo" part⟩

def least (digits : String) : Parameter := ⟨"minInclusive", .number digits⟩

def greatest (digits : String) : Parameter := ⟨"maxInclusive", .number digits⟩

/-- The bound of a warning of hotness. -/
def below (digits : String) : Parameter := ⟨"maxExclusive", .number digits⟩

def filled : Parameter := ⟨"minLength", one⟩

def matching (pattern : String) : Parameter := ⟨"pattern", .quoted pattern⟩

def among (texts : List String) : Parameter := ⟨"in", .list texts⟩

def severity (part : String) : Parameter := ⟨"severity", .name "sh" part⟩

def message (text : String) : Parameter := ⟨"message", .quoted text⟩

def projectRule : Rule := ⟨"ProjectShape", "Project", [
  ⟨"repo", "name", [atLeastOne, atMostOne, datatype "string"]⟩,
  ⟨"repo", "analyzedAt", [atMostOne, datatype "dateTime"]⟩]⟩

def fileRule : Rule := ⟨"FileShape", "File", [
  ⟨"repo", "path", [atLeastOne, atMostOne, datatype "string", filled]⟩,
  ⟨"repo", "loc", [atLeastOne, atMostOne, datatype "integer", least "0"]⟩,
  ⟨"repo", "churn", [atMostOne, least "0"]⟩,
  ⟨"repo", "hotness", [atLeastOne, atMostOne, datatype "decimal", least "0", greatest "1"]⟩,
  ⟨"repo", "inModule", [atLeastOne, atMostOne, instanceOf "Module"]⟩,
  ⟨"repo", "owner", [atMostOne, instanceOf "Contributor"]⟩]⟩

def moduleRule : Rule := ⟨"ModuleShape", "Module", [
  ⟨"repo", "name", [atLeastOne, atMostOne]⟩,
  ⟨"repo", "containsFile", [atLeastOne, instanceOf "File"]⟩]⟩

def complexityWarning : Rule := ⟨"ComplexityWarningShape", "File", [
  ⟨"repo", "complexity", [greatest "30", severity "Warning",
    message "Cyclomatic complexity above 30"]⟩]⟩

def complexityLimit : Rule := ⟨"ComplexityLimitShape", "File", [
  ⟨"repo", "complexity", [greatest "100", message "Cyclomatic complexity above 100"]⟩]⟩

def maintainabilityRule : Rule := ⟨"MaintainabilityShape", "File", [
  ⟨"repo", "maintainability", [least "20", greatest "100", severity "Warning",
    message "Maintainability index below 20"]⟩]⟩

def hotspotRule : Rule := ⟨"HotspotShape", "File", [
  ⟨"repo", "hotness", [below "0.8", severity "Info",
    message "File is a strong hotspot; consider splitting it"]⟩]⟩

def commitRule : Rule := ⟨"CommitShape", "Commit", [
  ⟨"repo", "sha", [atLeastOne, atMostOne, matching "^[0-9a-f]\x7b7,64\x7d$"]⟩,
  ⟨"repo", "author", [atLeastOne, atMostOne, instanceOf "Contributor"]⟩]⟩

def contributorRule : Rule := ⟨"ContributorShape", "Contributor", [
  ⟨"foaf", "name", [atLeastOne]⟩]⟩

def couplingRule : Rule := ⟨"CouplingShape", "CouplingEdge", [
  ⟨"repo", "weight", [atLeastOne, atMostOne, datatype "integer", least "1"]⟩,
  ⟨"repo", "source", [atLeastOne, atMostOne, instanceOf "File"]⟩,
  ⟨"repo", "target", [atLeastOne, atMostOne, instanceOf "File"]⟩]⟩

def issueRule : Rule := ⟨"IssueShape", "Issue", [
  ⟨"repo", "issueType", [atLeastOne, among ["hotspot", "todo", "dirty_worktree", "shacl_violation"]]⟩,
  ⟨"repo", "severity", [atLeastOne, atMostOne, among ["info", "low", "medium", "high", "critical"]]⟩,
  ⟨"repo", "title", [atLeastOne, filled]⟩]⟩

def rules : List Rule :=
  [projectRule, fileRule, moduleRule, complexityWarning, complexityLimit, maintainabilityRule,
   hotspotRule, commitRule, contributorRule, couplingRule, issueRule]

def prefixes : List (String × String) :=
  [("sh", Namespace.sh), ("xsd", Namespace.xsd), ("foaf", Namespace.foaf), ("repo", Namespace.repo)]

/-! ### The text -/

set_option maxRecDepth 20000 in
theorem exists_chars : ∃ cs, text = String.ofList cs ∧ cs = (documentOf prefixes rules).chars := by
  refine ⟨_, rfl, ?_⟩
  decide +kernel

theorem proper_rules : Proper rules where
  distinct := by decide
  parameters := by decide +kernel

theorem prefixes_subset : prefixes ⊆ standardPrefixes := by
  simp [prefixes, standardPrefixes]

theorem declared_namespaces {pre : String} (listed : pre ∈ prefixes.map (·.1)) :
    (documentOf prefixes rules).declared.get? pre = some (namespaces pre) := by
  simp only [prefixes, List.map_cons, List.map_nil, List.mem_cons, List.not_mem_nil, or_false]
    at listed
  rcases listed with rfl | rfl | rfl | rfl <;>
    simp [Document.declared, documentOf, prefixes, SortedMap.get?_insert, namespaces]

theorem plain_document : (documentOf prefixes rules).Plain namespaces := by
  have known : ∀ r ∈ rules, ∀ n ∈ r.names,
      n.1 ∈ prefixes.map (·.1) ∧ isPlainName n.2.toList = true := by decide +kernel
  refine plain_rules (fun e listed => plain_standardPrefixes e (prefixes_subset listed))
    (fun r member n mem => ?_) (by decide +kernel)
  obtain ⟨pre, part⟩ := known r member n mem
  obtain ⟨e, listed, same⟩ := List.mem_map.mp pre
  exact ⟨same ▸ (plain_standardPrefixes e (prefixes_subset listed)).1, part,
    declared_namespaces pre⟩

/-! ### Validation -/

theorem unreserved_of_numbered {g : Graph} (numbered : g.Numbered) : GraphUnreserved g := by
  have apart {u : Term} (node : ∀ label, u = .blank label → ∃ n ≤ g.lastBlank, label = s!"b{n}") :
      Unreserved u := by
    intro m same
    obtain ⟨n, -, label⟩ := node _ same
    have chars := congrArg String.toList label
    simp [toString] at chars
  exact fun t held => ⟨apart fun label same => numbered t held label (.inl same),
    apart fun label same => numbered t held label (.inr (.inr same))⟩

/-- The bundled shapes are compiled, and whatever a validation against them reports is a value that
does not meet a parameter of a rule. -/
theorem violation_of_bundled : ∃ v, Validator.bundled = .ok v ∧ ∀ data, GraphUnreserved data →
    ∀ result ∈ (v.validate data).violations, ∃ r ∈ rules,
      ∃ focus ∈ instancesOf data (.iri (repo r.type)), ∃ p ∈ r.properties, ∃ q ∈ p.parameters,
        result.path = some (namespaces p.pre ++ p.part) ∧
        (∀ c, q.constraint? = some c → result.component = c.component) ∧
        ¬ q.MetBy data (data.objects focus p.path) := by
  obtain ⟨cs, literal, written⟩ := exists_chars
  have spelled : text.toList = (documentOf prefixes rules).chars := by
    rw [literal, String.toList_ofList, written]
  obtain ⟨g, accepted, told⟩ := read_told plain_document spelled name
  obtain ⟨set, compiled, follows⟩ := compile_rules told proper_rules
  have numbered : g.Numbered := by
    have read := numbered_readInto numbered_empty text name
    rwa [readInto_of_read accepted] at read
  have unreserved := unreserved_of_compiled compiled (unreserved_of_numbered numbered)
  refine ⟨⟨g, set, [name], false⟩, ?_, fun data known result reported => ?_⟩
  · rw [Validator.bundled, accepted]
    change Validator.ofGraph g [name] = _
    rw [Validator.ofGraph, compiled]
  · exact violation_of_rules compiled unreserved follows known reported

end BundledShapes

end RepoAudit.Shacl
