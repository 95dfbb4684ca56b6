import RepoAudit.Proofs.Regex.Repetition
import RepoAudit.Proofs.Shacl.Bundled
import RepoAudit.Proofs.Shacl.Values
import RepoAudit.Proofs.Time.Calendar
import RepoAudit.Proofs.Time.Text

/-!
# When requirements are met

What values must be like so that a parameter of the bundled shapes is met, parameter by parameter.
-/

namespace RepoAudit.Time.Instant

/-- Instants of the years 1700 to 2200 have their nanoseconds in 64 bits. -/
theorem nanoseconds?_isSome {t : Instant} (valid : t.Valid) (first : 1700 ≤ t.date.year)
    (last : t.date.year ≤ 2200) : t.nanoseconds?.isSome = true := by
  obtain ⟨year, ofYear, low, high, days, same⟩ := Date.exists_year (t.seconds / 86400)
  have nanos := valid.nanos
  change 1700 ≤ (Date.ofDays (t.seconds / 86400)).year at first
  change (Date.ofDays (t.seconds / 86400)).year ≤ 2200 at last
  have earliest : -100000 ≤ t.seconds / 86400 := by omega
  have latest : t.seconds / 86400 ≤ 100000 := by omega
  rw [nanoseconds?, if_pos]
  · rfl
  · have power : ((Nat.pow 2 63 : Nat) : Int) = 9223372036854775808 := by decide
    constructor <;> omega

end RepoAudit.Time.Instant

namespace RepoAudit.Shacl

open Rdf Turtle

theorem hasDatatype_dateTime {t : Time.Instant} (valid : t.Valid) (first : 1700 ≤ t.date.year)
    (last : t.date.year ≤ 2200) : hasDatatype (.dateTime t.rfc3339) (xsd "dateTime") = true := by
  have read := Time.Instant.rfc3339?_rfc3339 valid ⟨by omega, by omega⟩
  have wellFormed : (dateTime? t.rfc3339).isSome = true := by
    rw [dateTime?, read]
    exact Time.Instant.nanoseconds?_isSome valid first last
  have apart : xsd "dateTime" ≠ xsd "integer" ∧ xsd "dateTime" ≠ xsd "decimal" ∧
      xsd "dateTime" ≠ xsd "double" ∧ xsd "dateTime" ≠ xsd "boolean" := by decide
  simp [Term.dateTime, Term.typed, hasDatatype, isWellFormed, apart, wellFormed]

theorem hasDatatype_string (text : String) : hasDatatype (.string text) (xsd "string") = true := by
  have apart : xsd "string" ≠ xsd "integer" ∧ xsd "string" ≠ xsd "decimal" ∧
      xsd "string" ≠ xsd "double" ∧ xsd "string" ≠ xsd "boolean" ∧
      xsd "string" ≠ xsd "dateTime" := by decide
  simp [Term.string, hasDatatype, isWellFormed, apart]

/-- The values of a property of a node meet all its parameters. -/
def Property.MetAt (p : Property) (data : Graph) (focus : Term) : Prop :=
  ∀ q ∈ p.parameters, q.MetBy data (data.objects focus p.path)

/-- A node meets all that a rule requires. -/
def Rule.MetAt (r : Rule) (data : Graph) (focus : Term) : Prop :=
  ∀ p ∈ r.properties, p.MetAt data focus

namespace BundledShapes

variable {q : Parameter} {data : Graph} {values : List Term}

theorem metBy_of_none (none : q.constraint? = none) : q.MetBy data values :=
  fun c stated => by rw [none] at stated; cases stated

/-- A parameter is met if its constraint admits the values together and each on its own. -/
theorem metBy_of_some {c : Constraint} (stated : q.constraint? = some c)
    (together : c.admitsAll values = true) (each : ∀ v ∈ values, c.admits data v = true) :
    q.MetBy data values := by
  intro c' stated'
  obtain rfl := Option.some.inj (stated.symm.trans stated')
  rw [← failures_eq, Constraint.failures, if_pos together, List.map_eq_nil_iff,
    List.filter_eq_nil_iff]
  intro v member
  simp [each v member]

theorem constraint?_of_one {name : String} {state : Nat → Constraint}
    (counts : ∀ t, constraintOf? name t = (count? t).map state) :
    Parameter.constraint? ⟨name, one⟩ = some (state 1) := by
  change constraintOf? name (.integer 1) = _
  rw [counts, count?_one]
  rfl

theorem met_atLeastOne (filled : values ≠ []) : atLeastOne.MetBy data values := by
  have stated : atLeastOne.constraint? = some (.minCount 1) := constraint?_of_one fun _ => rfl
  exact metBy_of_some stated (decide_eq_true (List.length_pos_iff.mpr filled)) fun _ _ => rfl

theorem met_atMostOne (single : values.length ≤ 1) : atMostOne.MetBy data values := by
  have stated : atMostOne.constraint? = some (.maxCount 1) := constraint?_of_one fun _ => rfl
  exact metBy_of_some stated (decide_eq_true single) fun _ _ => rfl

theorem met_datatype {part : String} (each : ∀ v ∈ values, hasDatatype v (xsd part) = true) :
    (datatype part).MetBy data values :=
  metBy_of_some (c := .datatype (xsd part)) rfl rfl each

theorem met_instanceOf {part : String}
    (each : ∀ v ∈ values, isInstance data v (.iri (repo part)) = true) :
    (instanceOf part).MetBy data values :=
  metBy_of_some (c := .ofClass (.iri (repo part))) rfl rfl each

section Ranges

variable {digits : String} (integer : readsAsInteger digits = true)
include integer

theorem term?_number : term? (.number digits) = some (.typed digits (xsd "integer")) := by
  rw [term?, if_pos integer]

/-- A parameter with a number is met if the constraint that it states admits the values. -/
theorem met_bound (bounded : Term → Constraint) {name : String}
    (states : ∀ t, constraintOf? name t = some (bounded t))
    (together : (bounded (.typed digits (xsd "integer"))).admitsAll values = true)
    (each : ∀ v ∈ values, (bounded (.typed digits (xsd "integer"))).admits data v = true) :
    Parameter.MetBy ⟨name, .number digits⟩ data values := by
  have stated : Parameter.constraint? ⟨name, .number digits⟩ =
      some (bounded (.typed digits (xsd "integer"))) := by
    change (term? (.number digits)).bind (constraintOf? name) = _
    rw [term?_number integer]
    exact states _
  exact metBy_of_some stated together each

theorem met_least (each : ∀ v ∈ values, inRange v (.typed digits (xsd "integer")) [.gt, .eq] = true) :
    (least digits).MetBy data values :=
  met_bound integer .minInclusive (fun _ => rfl) rfl each

theorem met_greatest
    (each : ∀ v ∈ values, inRange v (.typed digits (xsd "integer")) [.lt, .eq] = true) :
    (greatest digits).MetBy data values :=
  met_bound integer .maxInclusive (fun _ => rfl) rfl each

end Ranges

theorem met_filled (each : ∀ v ∈ values, ∃ text : String, v = .string text ∧ text ≠ "") :
    filled.MetBy data values := by
  have stated : filled.constraint? = some (.minLength 1) := constraint?_of_one fun _ => rfl
  refine metBy_of_some stated rfl fun v member => ?_
  obtain ⟨text, rfl, nonempty⟩ := each v member
  have length : 1 ≤ text.length := Nat.one_le_iff_ne_zero.mpr fun empty =>
    nonempty (String.length_eq_zero_iff.mp empty)
  simpa [Constraint.admits, length?, Term.string, Term.lexical] using length

theorem met_among {texts : List String} (each : ∀ v ∈ values, ∃ text ∈ texts, v = .string text) :
    (among texts).MetBy data values := by
  refine metBy_of_some (c := .isIn (texts.map .string)) rfl rfl fun v member => ?_
  obtain ⟨text, listed, rfl⟩ := each v member
  exact List.contains_iff_mem.mpr (List.mem_map_of_mem listed)

theorem met_severity (part : String) : (severity part).MetBy data values := metBy_of_none rfl

theorem met_message (text : String) : (message text).MetBy data values := metBy_of_none rfl

/-- The digits of a hash. -/
def hashDigits : Regex.CharSet := .union (.union (.stretch 1 0) (.stretch 48 57)) (.stretch 97 102)

theorem met_matching (each : ∀ v ∈ values, ∃ text : String, v = .string text ∧ 7 ≤ text.length ∧
    text.length ≤ 64 ∧ ∀ c ∈ text.toList, hashDigits.has c = true) :
    (matching "^[0-9a-f]\x7b7,64\x7d$").MetBy data values := by
  have stated : (matching "^[0-9a-f]\x7b7,64\x7d$").constraint? =
      some (.pattern (.repeated hashDigits 7 64) "^[0-9a-f]\x7b7,64\x7d$") := rfl
  refine metBy_of_some stated rfl fun v member => ?_
  obtain ⟨text, rfl, least, most, digits⟩ := each v member
  rw [← String.length_toList] at least most
  have filled : text.toList ≠ [] := List.length_pos_iff.mp (by omega)
  exact Regex.Pattern.isMatch_repeated digits filled least most

end BundledShapes
end RepoAudit.Shacl
