import Std.Data.String.ToNat
import RepoAudit.Proofs.Shacl.Checks

/-!
# Reports read back

A report is a graph, and its results are found again by look-ups in it. Nothing is lost or mixed up
on the way, as long as no other blank node is labelled like the node of an inverse path.
-/

namespace RepoAudit.Shacl

open Rdf

/-! ### Nodes of a report -/

theorem resultNode_injective {m n : Nat} (same : resultNode m = resultNode n) : m = n := by
  have labels : "r" ++ m.repr = "r" ++ n.repr := Term.blank.inj same
  exact Nat.repr_injective ((String.append_right_inj "r").mp labels)

theorem pathNode_injective {m n : Nat} (same : pathNode m = pathNode n) : m = n := by
  have labels : "p" ++ m.repr = "p" ++ n.repr := Term.blank.inj same
  exact Nat.repr_injective ((String.append_right_inj "p").mp labels)

theorem resultNode_ne_pathNode (m n : Nat) : resultNode m ≠ pathNode n := by
  intro same
  have labels : "r" ++ m.repr = "p" ++ n.repr := Term.blank.inj same
  have chars := congrArg String.toList labels
  simp at chars

theorem reportNode_ne_pathNode (n : Nat) : reportNode ≠ pathNode n := by
  intro same
  have labels : "report" = "p" ++ n.repr := Term.blank.inj same
  have chars := congrArg String.toList labels
  simp at chars

theorem reportNode_ne_resultNode (n : Nat) : reportNode ≠ resultNode n := by
  intro same
  have labels : "r" ++ "eport" = "r" ++ n.repr := Term.blank.inj same
  have chars := congrArg String.toList ((String.append_right_inj "r").mp labels)
  have listed : 'e' ∈ n.repr.toList := by simp [← chars]
  rw [Nat.toList_repr] at listed
  exact absurd (Nat.isDigit_of_mem_toDigits (by decide) (by decide) listed) (by decide)

/-! ### Triples of a report -/

variable {fs : List Finding}

theorem mem_foldl_setPrefix {t : Triple} : ∀ (ps : List (String × String)) (g : Graph),
    t ∈ ps.foldl (fun g p => g.setPrefix p.1 p.2) g ↔ t ∈ g
  | [], _ => .rfl
  | p :: rest, g => (mem_foldl_setPrefix rest (g.setPrefix p.1 p.2)).trans Graph.mem_setPrefix

theorem mem_fields {node s o : Term} {p : String} {fields : List (String × Term)} :
    (⟨s, .iri p, o⟩ : Triple) ∈ fields.map (fun (p, o) => ⟨node, .iri p, o⟩) ↔
      s = node ∧ (p, o) ∈ fields := by
  rw [List.mem_map]
  constructor
  · rintro ⟨⟨p', o'⟩, field, same⟩
    obtain ⟨rfl, predicate, rfl⟩ := Triple.mk.inj same
    obtain rfl := Term.iri.inj predicate
    exact ⟨rfl, field⟩
  · rintro ⟨rfl, field⟩
    exact ⟨_, field, rfl⟩

theorem mem_pathTriples {s o : Term} {p : String} {n : Nat} {f : Finding} :
    ⟨s, .iri p, o⟩ ∈ pathTriples n f ↔
      s = pathNode n ∧ p = sh "inversePath" ∧ f.shape.path = some (.inverse o) := by
  unfold pathTriples
  split
  · rename_i q found
    simp only [found, List.mem_singleton, Triple.mk.injEq, Term.iri.injEq, Option.some.injEq,
      Path.inverse.injEq, eq_comm (a := q)]
  · rename_i other
    simp only [List.not_mem_nil, false_iff]
    exact fun ⟨_, _, found⟩ => other o found

/-- Whatever a report says is said of a result, of an inverse path or of the report itself. -/
theorem mem_reportOf {s o : Term} {p : String} : ⟨s, .iri p, o⟩ ∈ reportOf fs ↔
    (∃ f n, (f, n) ∈ fs.zipIdx 1 ∧ s = resultNode n ∧ (p, o) ∈ resultFields n f) ∨
    (∃ f n, (f, n) ∈ fs.zipIdx 1 ∧ s = pathNode n ∧ p = sh "inversePath" ∧
      f.shape.path = some (.inverse o)) ∨
    (s = reportNode ∧ (p, o) ∈ reportFields fs) := by
  simp only [reportOf, Graph.mem_insertMany, mem_foldl_setPrefix, Graph.not_mem_empty, or_false,
    List.mem_append, List.mem_flatMap, Prod.exists, resultTriples, mem_fields, mem_pathTriples,
    and_or_left, exists_or, or_assoc]

theorem zipIdx_unique {f f' : Finding} {n : Nat} (listed : (f, n) ∈ fs.zipIdx 1)
    (listed' : (f', n) ∈ fs.zipIdx 1) : f = f' := by
  rw [List.mk_mem_zipIdx_iff_le_and_getElem?_sub] at listed listed'
  exact Option.some.inj (listed.2.symm.trans listed'.2)

/-- What is said of a result is said of it by its own finding. -/
theorem mem_resultNode {f : Finding} {n : Nat} (listed : (f, n) ∈ fs.zipIdx 1) {p : String}
    {o : Term} : ⟨resultNode n, .iri p, o⟩ ∈ reportOf fs ↔ (p, o) ∈ resultFields n f := by
  rw [mem_reportOf]
  constructor
  · rintro (⟨f', m, listed', same, field⟩ | ⟨_, m, -, same, -⟩ | ⟨same, -⟩)
    · obtain rfl := resultNode_injective same
      rwa [zipIdx_unique listed listed']
    · exact absurd same (resultNode_ne_pathNode n m)
    · exact absurd same.symm (reportNode_ne_resultNode n)
  · exact fun field => .inl ⟨f, n, listed, rfl, field⟩

theorem mem_reportNode {p : String} {o : Term} :
    ⟨reportNode, .iri p, o⟩ ∈ reportOf fs ↔ (p, o) ∈ reportFields fs := by
  simp only [mem_reportOf, reportNode_ne_resultNode, reportNode_ne_pathNode, false_and, and_false,
    exists_false, false_or, true_and]

theorem mem_inversePath {s o : Term} : ⟨s, .iri (sh "inversePath"), o⟩ ∈ reportOf fs ↔
    ∃ f n, (f, n) ∈ fs.zipIdx 1 ∧ s = pathNode n ∧ f.shape.path = some (.inverse o) := by
  have field (n : Nat) (f : Finding) : (sh "inversePath", o) ∉ resultFields n f := by
    simp [resultFields]
  have head : (sh "inversePath", o) ∉ reportFields fs := by simp [reportFields]
  simp only [mem_reportOf, field, head, and_false, exists_false, false_or, or_false, true_and]

theorem mem_type {s : Term} {type : String} :
    ⟨s, .iri (rdf "type"), .iri (sh type)⟩ ∈ reportOf fs ↔
      (type = "ValidationResult" ∧ ∃ f n, (f, n) ∈ fs.zipIdx 1 ∧ s = resultNode n) ∨
      (type = "ValidationReport" ∧ s = reportNode) := by
  have field (n : Nat) (f : Finding) :
      (rdf "type", .iri (sh type)) ∈ resultFields n f ↔ type = "ValidationResult" := by
    simp [resultFields]
  have head : (rdf "type", .iri (sh type)) ∈ reportFields fs ↔ type = "ValidationReport" := by
    simp [reportFields]
  simp only [mem_reportOf, field, head, rdf_ne_sh, false_and, and_false, exists_false, false_or]
  grind

/-! ### Results -/

/-- The one statement with a property answers the question for it. -/
theorem object?_of_fields {g : Graph} {node : Term} {fields : List (String × Term)}
    (said : ∀ p o, ⟨node, .iri p, o⟩ ∈ g ↔ (p, o) ∈ fields) (once : (fields.map (·.1)).Nodup)
    (p : String) : g.object? node (.iri p) = fields.lookup p := by
  cases found : fields.lookup p with
  | none =>
    refine Graph.object?_eq_none fun o held => ?_
    have absent := List.lookup_eq_none_iff.mp found (p, o) ((said p o).mp held)
    simp at absent
  | some o =>
    obtain ⟨before, after, split, -⟩ := List.lookup_eq_some_iff.mp found
    refine Graph.object?_eq_some ((said p o).mpr (by simp [split])) fun other held => ?_
    have member := (said p other).mp held
    have answer : (p, o) ∈ fields := by simp [split]
    exact (Prod.mk.inj (List.inj_on_of_nodup_map once member answer rfl)).2

/-- The properties of a result. -/
def resultProperties : List String :=
  [rdf "type", sh "resultSeverity", sh "focusNode", sh "resultPath", sh "value",
   sh "resultMessage", sh "sourceShape", sh "sourceConstraintComponent"]

theorem resultFields_nodup (n : Nat) (f : Finding) : ((resultFields n f).map (·.1)).Nodup := by
  have distinct : resultProperties.Nodup := by simp [resultProperties]
  refine distinct.sublist ?_
  unfold resultFields resultProperties
  cases f.shape.path <;> cases f.value <;> simp

theorem object?_resultNode {f : Finding} {n : Nat} (listed : (f, n) ∈ fs.zipIdx 1) (p : String) :
    (reportOf fs).object? (resultNode n) (.iri p) = (resultFields n f).lookup p :=
  object?_of_fields (fun _ _ => mem_resultNode listed) (resultFields_nodup n f) p

/-! ### Results as text -/

/-- A term on its own as text. -/
def plainText : Term → String
  | .blank b => (Term.blank b).shown
  | t => t.lexical

def Path.text : Path → String
  | .predicate p => plainText p
  | .inverse p => "^" ++ p.lexical

/-- A finding as text. -/
def Finding.rendered (f : Finding) : Violation where
  severity := f.shape.severity
  focus := plainText f.focus
  path := f.shape.path.map Path.text
  message := f.message
  value := f.value.map plainText
  sourceShape := plainText f.shape.id
  component := f.constraint.component

/-- A term that is not labelled like the node of an inverse path. -/
def Unreserved (t : Term) : Prop := ∀ n, t ≠ pathNode n

theorem unreserved_of_isIri {t : Term} (named : t.isIri = true) : Unreserved t := by
  rintro n rfl
  cases named

theorem unreserved_blank {c : Char} (other : c ≠ 'p') (label : List Char) :
    Unreserved (.blank (String.ofList (c :: label))) := by
  intro n same
  have labels : String.ofList (c :: label) = "p" ++ n.repr := Term.blank.inj same
  have chars := congrArg String.toList labels
  simp only [String.toList_ofList, String.toList_append] at chars
  exact other (List.cons.inj chars).1

/-- The terms of a finding are not labelled like nodes of inverse paths. -/
structure Finding.Unreserved (f : Finding) : Prop where
  focus : Shacl.Unreserved f.focus
  value : ∀ v ∈ f.value, Shacl.Unreserved v
  source : Shacl.Unreserved f.shape.id
  path : f.shape.PathNamed

/-- A finding that is about IRIs only and has no path. -/
theorem Finding.unreserved_of_isIri {f : Finding} (focus : f.focus.isIri = true)
    (value : f.value.all Term.isIri = true) (source : f.shape.id.isIri = true)
    (direct : f.shape.path = none) : f.Unreserved where
  focus := Shacl.unreserved_of_isIri focus
  value v same := Shacl.unreserved_of_isIri ((Option.all_eq_true _ _).mp value v same)
  source := Shacl.unreserved_of_isIri source
  path found some := by rw [direct] at some; cases some

theorem termText_unreserved {t : Term} (unreserved : Unreserved t) :
    termText (reportOf fs) t = plainText t := by
  cases t with
  | blank b =>
    have unanswered : (reportOf fs).object? (.blank b) (.iri (sh "inversePath")) = none := by
      refine Graph.object?_eq_none fun o held => ?_
      obtain ⟨_, n, _, same, _⟩ := mem_inversePath.mp held
      exact unreserved n same
    simp only [termText, unanswered]
    rfl
  | _ => rfl

theorem termText_path {f : Finding} {n : Nat} (listed : (f, n) ∈ fs.zipIdx 1) {path : Path}
    (found : f.shape.path = some path) (named : f.shape.PathNamed) :
    termText (reportOf fs) (path.node n) = path.text := by
  obtain ⟨iri, rfl | rfl⟩ := named path found
  · rfl
  · have answer : (reportOf fs).object? (pathNode n) (.iri (sh "inversePath")) = some (.iri iri) := by
      refine Graph.object?_eq_some (mem_inversePath.mpr ⟨f, n, listed, rfl, found⟩) ?_
      intro other held
      obtain ⟨f', m, listed', same, found'⟩ := mem_inversePath.mp held
      obtain rfl := pathNode_injective same
      rw [← zipIdx_unique listed listed', found] at found'
      exact (Path.inverse.inj (Option.some.inj found')).symm
    simp only [Path.node, Path.text, termText, pathNode] at answer ⊢
    rw [answer]

theorem ofIri?_iri (severity : ResultSeverity) :
    ResultSeverity.ofIri? severity.iri = some severity := by
  cases severity <;> simp [ResultSeverity.ofIri?, ResultSeverity.iri]

theorem lookup_skip {k other : String} (different : k ≠ other) (o : Term)
    (rest : List (String × Term)) : ((other, o) :: rest).lookup k = rest.lookup k := by
  rw [List.lookup_cons, beq_eq_false_iff_ne.mpr different]

theorem resultFields_lookup (n : Nat) (f : Finding) :
    (resultFields n f).lookup (sh "resultSeverity") = some (.iri f.shape.severity.iri) ∧
    (resultFields n f).lookup (sh "focusNode") = some f.focus ∧
    (resultFields n f).lookup (sh "resultPath") = f.shape.path.map (·.node n) ∧
    (resultFields n f).lookup (sh "value") = f.value ∧
    (resultFields n f).lookup (sh "resultMessage") = some (.string f.message) ∧
    (resultFields n f).lookup (sh "sourceShape") = some f.shape.id ∧
    (resultFields n f).lookup (sh "sourceConstraintComponent") =
      some (.iri f.constraint.component) := by
  unfold resultFields
  cases f.shape.path <;> cases f.value <;> simp [lookup_skip]

/-- A result is read back as its finding. -/
theorem violationOf_resultNode {f : Finding} {n : Nat} (listed : (f, n) ∈ fs.zipIdx 1)
    (unreserved : f.Unreserved) : violationOf (reportOf fs) (resultNode n) = f.rendered := by
  obtain ⟨severity, focus, path, value, message, source, component⟩ := resultFields_lookup n f
  rw [← object?_resultNode listed] at severity focus path value message source component
  have pathText : (f.shape.path.map (·.node n)).map (termText (reportOf fs)) =
      f.shape.path.map Path.text := by
    cases found : f.shape.path with
    | none => rfl
    | some p => exact congrArg some (termText_path listed found unreserved.path)
  have valueText : f.value.map (termText (reportOf fs)) = f.value.map plainText := by
    cases found : f.value with
    | none => rfl
    | some v => exact congrArg some (termText_unreserved (unreserved.value v found))
  simp only [violationOf, Finding.rendered, severity, focus, path, value, message, source,
    component, pathText, valueText, Option.map_some, Option.getD_some, Option.bind_some, Term.iri?,
    ofIri?_iri, termText_unreserved unreserved.focus, termText_unreserved unreserved.source]
  rfl

/-- The results of a report stand for its findings, each once. -/
theorem resultNodes_perm (fs : List Finding) :
    ((reportOf fs).subjects (.iri (rdf "type")) (.iri (sh "ValidationResult"))).Perm
      ((fs.zipIdx 1).map fun e => resultNode e.2) := by
  have nodes : (fs.zipIdx 1).map (fun e => resultNode e.2) =
      (List.range' 1 fs.length).map resultNode := by
    rw [← List.zipIdx_map_snd 1 fs, List.map_map]
    rfl
  have distinct : ((fs.zipIdx 1).map fun e => resultNode e.2).Nodup := by
    rw [nodes]
    exact (List.nodup_range' (s := 1) (n := fs.length)).map fun _ _ => resultNode_injective
  refine (List.perm_ext_iff_of_nodup (Graph.nodup_subjects _ _) distinct).mpr fun node => ?_
  rw [Graph.mem_subjects, mem_type, List.mem_map]
  simp [eq_comm]

/-! ### Order of results -/

namespace Violation

/-- The graver severity comes first, then the smaller focus node, path, component and value. -/
def Precedes (a b : Violation) : Prop :=
  b.severity.rank < a.severity.rank ∨ a.severity = b.severity ∧
    (a.focus < b.focus ∨ a.focus = b.focus ∧
      (a.path < b.path ∨ a.path = b.path ∧
        (a.component < b.component ∨ a.component = b.component ∧
          (a.value < b.value ∨ a.value = b.value))))

theorem compare_string_lt {a b : String} : compare a b = .lt ↔ a < b :=
  compareOfLessAndEq_eq_lt

theorem compare_option_lt {a b : Option String} : compare a b = .lt ↔ a < b := by
  cases a with
  | none => cases b <;> simp [compare]
  | some x =>
    cases b with
    | none => simp [compare]
    | some y => exact compare_string_lt.trans Option.some_lt_some.symm

theorem rank_injective {a b : ResultSeverity} (same : a.rank = b.rank) : a = b := by
  cases a <;> cases b <;> first | rfl | cases same

theorem order_isLE {a b : Violation} : (a.order b).isLE = true ↔ a.Precedes b := by
  have severity : compare b.severity.rank a.severity.rank = .eq ↔ a.severity = b.severity := by
    rw [Std.LawfulEqCmp.compare_eq_iff_eq]
    exact ⟨fun same => rank_injective same.symm, fun same => by rw [same]⟩
  have value : (compare a.value b.value).isLE = true ↔ a.value < b.value ∨ a.value = b.value := by
    rw [Ordering.isLE_iff_eq_lt_or_eq_eq, compare_option_lt, Std.LawfulEqCmp.compare_eq_iff_eq]
  simp only [order, Ordering.isLE_then_iff_or, severity, value, compare_option_lt,
    compare_string_lt, Nat.compare_eq_lt, Std.LawfulEqCmp.compare_eq_iff_eq, Precedes]

instance : Std.TransCmp order :=
  inferInstanceAs (Std.TransCmp (compareLex
    (fun a b => compareOn (fun v : Violation => v.severity.rank) b a)
    (compareLex (compareOn focus) (compareLex (compareOn path) (compareLex (compareOn component)
      (compareOn value))))))

end Violation

theorem violations_sorted (g : Graph) : (violations g).Pairwise Violation.Precedes := by
  unfold violations
  refine (List.pairwise_mergeSort (fun a b c => ?_) (fun a b => ?_) _).imp Violation.order_isLE.mp
  · exact Std.TransCmp.isLE_trans
  · have swapped : b.order a = (a.order b).swap := Std.OrientedCmp.eq_swap
    rw [swapped]
    cases a.order b <;> rfl

/-- There are as many results as findings, whatever their terms are. -/
theorem length_violations (fs : List Finding) : (violations (reportOf fs)).length = fs.length := by
  rw [violations, List.length_mergeSort, List.length_map, (resultNodes_perm fs).length_eq,
    List.length_map, List.length_zipIdx]

/-- A report gives back the findings that it was made of. -/
theorem violations_perm (unreserved : ∀ f ∈ fs, f.Unreserved) :
    (violations (reportOf fs)).Perm (fs.map Finding.rendered) := by
  have read : ((fs.zipIdx 1).map fun e => resultNode e.2).map (violationOf (reportOf fs)) =
      fs.map Finding.rendered := by
    conv_rhs => rw [← List.zipIdx_map_fst 1 fs]
    rw [List.map_map, List.map_map]
    refine List.map_congr_left fun (f, n) listed => ?_
    exact violationOf_resultNode listed (unreserved f (List.fst_mem_of_mem_zipIdx listed))
  rw [← read]
  exact (List.mergeSort_perm _ _).trans ((resultNodes_perm fs).map _)

/-! ### Conformance -/

theorem reportNode_only (fs : List Finding) :
    (reportOf fs).subjects (.iri (rdf "type")) (.iri (sh "ValidationReport")) = [reportNode] := by
  refine List.perm_singleton.mp ((List.perm_ext_iff_of_nodup (Graph.nodup_subjects _ _)
    (List.nodup_singleton _)).mpr fun node => ?_)
  rw [Graph.mem_subjects, mem_type]
  simp

/-- A report says that the data conforms exactly if it has no findings. -/
theorem conforms_reportOf (fs : List Finding) : conforms (reportOf fs) = fs.isEmpty := by
  have answer : (reportOf fs).object? reportNode (.iri (sh "conforms")) =
      some (.boolean fs.isEmpty) := by
    refine Graph.object?_eq_some (mem_reportNode.mpr (by simp [reportFields])) fun other said => ?_
    simpa [reportFields] using mem_reportNode.mp said
  simp only [conforms, reportNode_only, List.findSome?_cons, answer, Option.bind_some]
  cases fs <;> rfl

theorem conforms_eq_isEmpty (fs : List Finding) :
    conforms (reportOf fs) = (violations (reportOf fs)).isEmpty := by
  rw [conforms_reportOf, Bool.eq_iff_iff, List.isEmpty_iff_length_eq_zero,
    List.isEmpty_iff_length_eq_zero, length_violations]

end RepoAudit.Shacl
