import RepoAudit.Proofs.Source.Literals
import RepoAudit.Proofs.Text.Blank
import RepoAudit.Proofs.Text.Search
import RepoAudit.Proofs.Text.Words
import RepoAudit.Source.Complexity

/-!
# Complexity line by line

No decision point reaches over the end of a line, so that the decision points of texts of whole
lines add up. A line with nothing in front of its comment has none.
-/

namespace RepoAudit.Source

open Text

/-- A text each of whose lines is ended. -/
def WholeLines (cs : List Char) : Prop := cs = [] ∨ cs.getLast? = some '\n'

theorem WholeLines.feed_mem {xs zs : List Char} (whole : WholeLines xs) (ends : zs <:+ xs)
    (filled : zs ≠ []) : '\n' ∈ zs := by
  rcases whole with rfl | last
  · exact absurd (List.suffix_nil.mp ends) filled
  · obtain ⟨before, rfl⟩ := ends
    rw [List.getLast?_append_of_ne_nil before filled] at last
    exact List.mem_of_getLast? last

theorem wholeLines_flatMap (f : List Char → List Char) (ls : List (List Char)) :
    WholeLines (ls.flatMap fun line => f line ++ ['\n']) := by
  rcases List.eq_nil_or_concat ls with rfl | ⟨before, last, rfl⟩
  · exact .inl rfl
  · refine .inr ?_
    rw [List.concat_eq_append, List.flatMap_append, List.flatMap_singleton, ← List.append_assoc,
      List.getLast?_concat]

/-! ### Decision points -/

variable {rule : DecisionRule} {language : String}

theorem decisionAt_within {xs : List Char} (whole : WholeLines xs) (ys : List Char) :
    (decisionAt rule).Within xs ys := by
  intro zs filled ends before
  have feed := whole.feed_mem ends filled
  unfold decisionAt
  rw [wordAt_append (by decide) feed]
  cases wordAt before zs with
  | some found =>
    simp only [Option.map_some, followedBy]
    split <;> rfl
  | none =>
    obtain ⟨a, zs, rfl⟩ := List.exists_cons_of_ne_nil filled
    cases zs with
    | nil =>
      obtain rfl := List.mem_singleton.mp feed
      cases ys <;> simp
    | cons b rest =>
      simp only [Option.map_none, List.cons_append]
      split
      · rfl
      · split <;> rfl

theorem decisionAt_feed (cs : List Char) :
    decisionAt rule (some '\n') cs = decisionAt rule none cs := by
  have apart : noWord (some '\n') = noWord none := by decide
  unfold decisionAt wordAt
  rw [apart]

theorem finds_decisionAt_append {xs : List Char} (whole : WholeLines xs) (ys : List Char) :
    finds (decisionAt rule) (xs ++ ys) =
      finds (decisionAt rule) xs ++ finds (decisionAt rule) ys := by
  refine finds_append (decisionAt_within whole ys) ?_
  rcases whole with rfl | last
  · rfl
  · rw [last, decisionAt_feed]

theorem codeOnly_append {a : List Char} (whole : WholeLines a) (b : List Char) :
    codeOnly language (a ++ b) = codeOnly language a ++ codeOnly language b := by
  rw [codeOnly, lines_append whole, List.flatMap_append, codeOnly, codeOnly]

/-- The decision points of whole lines and of what follows them add up. -/
theorem decisionPoints_append {a : List Char} (whole : WholeLines a) (b : List Char) :
    decisionPoints rule language (a ++ b) =
      decisionPoints rule language a + decisionPoints rule language b := by
  have ended : WholeLines (codeOnly language a) := wholeLines_flatMap _ _
  rw [decisionPoints, codeOnly_append whole, finds_decisionAt_append ended, List.length_append,
    decisionPoints, decisionPoints]

/-! ### Lines that are comments -/

/-- A line with nothing but blanks in front of its comment. -/
def IsCommentLine (language : String) (line : List Char) : Prop :=
  '\n' ∉ line ∧ ∃ blanks text, (∀ c ∈ blanks, isBlank c = true) ∧
    line = blanks ++ (commentMark language ++ text)

/-- A comment begins with one character or more of a kind that is neither blank nor a quote. -/
theorem exists_commentMark (language : String) : ∃ mark n,
    commentMark language = List.replicate (n + 1) mark ∧
      isBlank mark = false ∧ mark ≠ '"' ∧ mark ≠ '\'' := by
  unfold commentMark
  split
  · exact ⟨'#', 0, rfl, by decide +kernel, by decide, by decide⟩
  · exact ⟨'/', 1, rfl, by decide +kernel, by decide, by decide⟩

theorem not_mem_of_blank {blanks : List Char} (blank : ∀ c ∈ blanks, isBlank c = true) {c : Char}
    (dark : isBlank c = false) : c ∉ blanks := fun member => by simp [blank c member] at dark

theorem IsCommentLine.dropReturn {line : List Char} (comment : IsCommentLine language line) :
    IsCommentLine language (Text.dropReturn line) := by
  obtain ⟨noFeed, blanks, text, blank, rfl⟩ := comment
  have kept := dropReturn_prefix (blanks ++ (commentMark language ++ text))
  refine ⟨fun inside => noFeed (kept.subset inside), blanks, ?_⟩
  rcases List.eq_nil_or_concat text with rfl | ⟨text, last, rfl⟩
  · refine ⟨[], blank, dropReturn_of_ne ?_⟩
    obtain ⟨mark, n, same, dark, -⟩ := exists_commentMark language
    have apart : mark ≠ '\r' := by
      rintro rfl
      exact absurd dark (by decide +kernel)
    simpa [same, List.replicate_succ'] using apart
  · rw [List.concat_eq_append, Text.dropReturn, ← List.append_assoc, ← List.append_assoc,
      List.getLast?_concat, List.dropLast_concat]
    split
    · exact ⟨text, blank, List.append_assoc _ _ _⟩
    · exact ⟨text ++ [last], blank, by simp⟩

/-- Behind blanks the comment is found where it begins, whatever it says. -/
theorem cutWord?_commentMark {blanks : List Char} (blank : ∀ c ∈ blanks, isBlank c = true)
    (text : List Char) :
    cutWord? (commentMark language) (blanks ++ (commentMark language ++ text)) =
      some (blanks, text) := by
  obtain ⟨mark, n, same, dark, -⟩ := exists_commentMark language
  rw [same]
  refine cutWord?_append (by simp) fun early => ?_
  have count := early.sublist.count_le mark
  rw [List.count_append, List.count_eq_zero.mpr (not_mem_of_blank blank dark)] at count
  simp at count

/-- Nothing is left of a comment line but the blanks in front of the comment. -/
theorem IsCommentLine.isBlank_of_mem_codeOf {line : List Char}
    (comment : IsCommentLine language line) : ∀ c ∈ codeOf language line, isBlank c = true := by
  obtain ⟨-, blanks, text, blank, rfl⟩ := comment
  have free : ∀ c ∈ blanks ++ commentMark language, c ≠ '"' ∧ c ≠ '\'' := by
    intro c member
    rcases List.mem_append.mp member with member | member
    · constructor <;> rintro rfl <;> exact not_mem_of_blank blank (by decide +kernel) member
    · obtain ⟨mark, n, same, -, quotes⟩ := exists_commentMark language
      rw [same] at member
      rwa [List.eq_of_mem_replicate member]
  rw [codeOf, emptyLiterals, ← List.append_assoc, replaceLiterals_append free, List.append_assoc,
    cutWord?_commentMark blank]
  exact blank

theorem finds_decisionAt_of_blank {cs : List Char} (blank : ∀ c ∈ cs, isBlank c = true) :
    finds (decisionAt rule) cs = [] := by
  refine findAll_eq_nil_iff.mpr ?_
  rintro as c bs rfl
  have here : isBlank c = true := blank c (by simp)
  have noWord : isWord c = false := isWord_of_isBlank here
  have marks : c ≠ '&' ∧ c ≠ '|' ∧ c ≠ '?' := by
    refine ⟨?_, ?_, ?_⟩ <;> rintro rfl <;> exact absurd here (by decide +kernel)
  unfold decisionAt wordAt
  cases bs <;> simp [noWord, marks]

theorem decisionPoints_comment {line : List Char} (comment : IsCommentLine language line) :
    decisionPoints rule language (line ++ ['\n']) = 0 := by
  have split : fields '\n' (line ++ ['\n']) = [line] ++ [[]] := by
    rw [fields_append_cons, fields_of_not_mem comment.1]
    rfl
  have blank : ∀ c ∈ codeOf language (dropReturn line) ++ ['\n'], isBlank c = true := by
    intro c member
    rcases List.mem_append.mp member with member | member
    · exact comment.dropReturn.isBlank_of_mem_codeOf c member
    · rw [List.mem_singleton.mp member]
      decide +kernel
  rw [decisionPoints, codeOnly, lines_of_fields split]
  simp [finds_decisionAt_of_blank blank]

theorem decisionPoints_insert {a line : List Char} (whole : WholeLines a)
    (comment : IsCommentLine language line) (b : List Char) :
    decisionPoints rule language (a ++ (line ++ ['\n'] ++ b)) =
      decisionPoints rule language (a ++ b) := by
  have ended : WholeLines (line ++ ['\n']) := .inr List.getLast?_concat
  rw [decisionPoints_append whole, decisionPoints_append ended, decisionPoints_comment comment,
    Nat.zero_add, decisionPoints_append whole]

/-- The decision points of whole lines and of what follows them add up. A comment line between two
lines changes nothing, whatever it says. -/
theorem complexity_by_lines {language : String} {rule : DecisionRule}
    (supported : decisionRule? language = some rule) {a : String} (whole : WholeLines a.toList)
    (b : String) :
    (∀ text, complexity? language text =
      some (1.0 + Float.ofNat (decisionPoints rule language text.toList))) ∧
    decisionPoints rule language (a ++ b).toList =
      decisionPoints rule language a.toList + decisionPoints rule language b.toList ∧
    ∀ line : String, IsCommentLine language line.toList →
      complexity? language (a ++ (line ++ "\n" ++ b)) = complexity? language (a ++ b) := by
  have points (text : String) : complexity? language text =
      some (1.0 + Float.ofNat (decisionPoints rule language text.toList)) := by
    rw [complexity?, supported, Option.map_some]
  refine ⟨points, ?_, fun line comment => ?_⟩
  · rw [String.toList_append, decisionPoints_append whole]
  · have text : (a ++ (line ++ "\n" ++ b)).toList =
        a.toList ++ (line.toList ++ ['\n'] ++ b.toList) := by simp
    rw [points, points, text, decisionPoints_insert whole comment, String.toList_append]

/-- A question mark ends a line, and the comment behind it holds a quote that is not closed. -/
theorem complexity_by_lines_asked :
    decisionRule? "javascript" =
        some ⟨["if", "for", "foreach", "while", "case", "catch", "when"], true, true⟩ ∧
      WholeLines "a = b ?\n".toList ∧ IsCommentLine "javascript" "\t// it's \"if ?".toList ∧
      complexity? "javascript" ("a = b ?\n" ++ ("\t// it's \"if ?" ++ "\n" ++ "c : if_(d && e)")) =
        complexity? "javascript" ("a = b ?\n" ++ "c : if_(d && e)") := by
  have supported : decisionRule? "javascript" =
      some ⟨["if", "for", "foreach", "while", "case", "catch", "when"], true, true⟩ := by
    simp [decisionRule?, cLikeLanguages]
  have whole : WholeLines "a = b ?\n".toList := .inr (by simp)
  have comment : IsCommentLine "javascript" "\t// it's \"if ?".toList :=
    ⟨by decide, ['\t'], " it's \"if ?".toList, List.forall_mem_singleton.mpr (by decide +kernel),
      by decide⟩
  exact ⟨supported, whole, comment,
    (complexity_by_lines supported whole "c : if_(d && e)").2.2 _ comment⟩

end RepoAudit.Source
