import RepoAudit.Proofs.Text.Blank
import RepoAudit.Proofs.Text.Fields
import RepoAudit.Text.Slug

/-!
# Names in a common form

What is left of a name in lower case without superfluous blanks, and of a text that is reduced to
letters, digits and hyphens: two texts are reduced to the same one if they have the same words of
ASCII letters and digits, whatever else stands between them.
-/

namespace RepoAudit.Text

/-! ### Lower case -/

/-- ASCII characters are lowered one by one. -/
theorem lowerFrom_ascii {cs : List Char} (ascii : ∀ c ∈ cs, c.toNat < 0x80) (before : List Char) :
    lowerFrom before cs = cs.map Char.toLower := by
  induction cs generalizing before with
  | nil => rfl
  | cons c rest ih =>
    have small := ascii c (.head _)
    have notSigma : c ≠ 'Σ' := by
      rintro rfl
      exact absurd small (by decide)
    rw [List.map_cons, ← ih (fun d member => ascii d (.tail _ member)) (c :: before)]
    simp [lowerFrom, notSigma, lowerChar, small]

theorem CaseRule.apply_ne_nil (rules : List CaseRule) (c : Char) : CaseRule.apply rules c ≠ [] := by
  unfold CaseRule.apply
  split <;> exact List.cons_ne_nil _ _

theorem lowerChar_ne_nil (c : Char) : lowerChar c ≠ [] := by
  rw [lowerChar]
  split
  · exact List.cons_ne_nil _ _
  · exact CaseRule.apply_ne_nil lowerRules c

theorem lower_eq_nil {cs : List Char} : lower cs = [] ↔ cs = [] := by
  cases cs with
  | nil => exact ⟨fun _ => rfl, fun _ => rfl⟩
  | cons c rest =>
    have filled : lower (c :: rest) ≠ [] := by
      rw [lower, lowerFrom]
      refine List.append_ne_nil_of_left_ne_nil ?_ _
      split
      · exact List.cons_ne_nil _ _
      · exact lowerChar_ne_nil c
    exact ⟨fun empty => absurd empty filled, nofun⟩

/-- A table given by its characters is read without decoding the text. -/
theorem caseRules_ofList (cs : List Char) :
    caseRules (String.ofList cs) = (itemsOf cs).map caseRule := by
  rw [caseRules, items, String.toList_ofList]

/-- A character of the block of unified ideographs. -/
def Ideograph (c : Char) : Prop := 0x4E00 ≤ c.toNat ∧ c.toNat ≤ 0x9FFF

section Tables

set_option maxRecDepth 20000

theorem lowerRules_ideographs :
    ∀ r ∈ lowerRules, r.source.last < 0x4E00 ∨ 0x9FFF < r.source.first := by
  rw [lowerRules, caseRules_ofList]
  decide +kernel

end Tables

theorem lowerFrom_ideographs {cs : List Char} (ideographs : ∀ c ∈ cs, Ideograph c)
    (before : List Char) : lowerFrom before cs = cs := by
  induction cs generalizing before with
  | nil => rfl
  | cons c rest ih =>
    obtain ⟨⟨least, most⟩, later⟩ := List.forall_mem_cons.mp ideographs
    have notSigma : c ≠ 'Σ' := by
      rintro rfl
      exact absurd least (by decide)
    have uncovered : lowerRules.find? (·.source.contains c.toNat) = none := by
      refine List.find?_eq_none.mpr fun r listed covered => ?_
      simp only [Stretch.contains, Bool.and_eq_true, decide_eq_true_eq] at covered
      have apart := lowerRules_ideographs r listed
      omega
    have kept : lowerChar c = [c] := by
      rw [lowerChar, if_neg (by omega), CaseRule.apply, uncovered]
    rw [lowerFrom, if_neg (by simpa using notSigma), kept, ih later, List.singleton_append]

theorem isAlphanum_toLower {c : Char} (letter : c.isAlphanum = true) :
    c.toLower.isAlphanum = true := by
  have each : ∀ n < 0x80, (Char.ofNat n).isAlphanum = true →
      (Char.ofNat n).toLower.isAlphanum = true := by decide +kernel
  have found := each c.toNat (toNat_of_isAlphanum letter)
  rw [Char.ofNat_toNat] at found
  exact found letter

/-! ### Words -/

/-- Puts a character before the first word, or ends this word with a blank. -/
def addToWords (c : Char) (found : List Char × List (List Char)) : List Char × List (List Char) :=
  if isBlank c then ([], if found.1.isEmpty then found.2 else found.1 :: found.2)
  else (c :: found.1, found.2)

theorem fieldsBy_isBlank (cs : List Char) : ∃ others,
    fieldsBy isBlank cs = (cs.foldr addToWords ([], [])).1 :: others ∧
      (cs.foldr addToWords ([], [])).2 = others.filter (!·.isEmpty) := by
  induction cs with
  | nil => exact ⟨[], rfl, rfl⟩
  | cons c rest ih =>
    obtain ⟨others, split, later⟩ := ih
    rw [fieldsBy, split, List.foldr_cons, addToWords]
    dsimp only
    split
    · refine ⟨_, rfl, ?_⟩
      rw [List.filter_cons, ← later]
      cases (rest.foldr addToWords ([], [])).1 <;> rfl
    · exact ⟨others, rfl, later⟩

theorem words_eq (cs : List Char) : words cs = (fieldsBy isBlank cs).filter (!·.isEmpty) := by
  obtain ⟨others, split, later⟩ := fieldsBy_isBlank cs
  have folded : words cs = if (cs.foldr addToWords ([], [])).1.isEmpty
      then (cs.foldr addToWords ([], [])).2
      else (cs.foldr addToWords ([], [])).1 :: (cs.foldr addToWords ([], [])).2 := rfl
  rw [folded, split, List.filter_cons, later]
  cases (cs.foldr addToWords ([], [])).1 <;> rfl

/-! ### Words of letters and digits -/

/-- The words of ASCII letters and digits in a text, in lower case. -/
def slugWords (cs : List Char) : List (List Char) :=
  ((fieldsBy (fun c => !c.isAlphanum) cs).filter (!·.isEmpty)).map (·.map Char.toLower)

theorem slugWords_words {cs : List Char} :
    ∀ w ∈ slugWords cs, w ≠ [] ∧ ∀ c ∈ w, c.isAlphanum = true := by
  intro w member
  obtain ⟨f, kept, rfl⟩ := List.mem_map.mp member
  obtain ⟨field, filled⟩ := List.mem_filter.mp kept
  refine ⟨by simpa using filled, ?_⟩
  refine List.forall_mem_map.mpr fun c inside => ?_
  exact isAlphanum_toLower (by simpa using (mem_fieldsBy field inside).2)

theorem not_mem_slugWords {sep : Char} (other : sep.isAlphanum = false) {cs : List Char} :
    ∀ w ∈ slugWords cs, w ≠ [] ∧ sep ∉ w := by
  intro w member
  refine (slugWords_words w member).imp_right fun letters inside => ?_
  exact Bool.false_ne_true (other.symm.trans (letters sep inside))

theorem slug_eq_iff {s t : String} : slug s = slug t ↔ slugWords s.toList = slugWords t.toList := by
  rw [slug, slug, String.ofList_inj]
  exact join_inj (not_mem_slugWords rfl) (not_mem_slugWords rfl)

/-- Words of lower case are found again. -/
theorem slugWords_join {sep : Char} (other : sep.isAlphanum = false) {ws : List (List Char)}
    (words : ∀ w ∈ ws, w ≠ [] ∧ ∀ c ∈ w, c.isAlphanum = true)
    (lower : ∀ w ∈ ws, w.map Char.toLower = w) : slugWords (join [sep] ws) = ws := by
  have found : (fieldsBy (fun c => !c.isAlphanum) (join [sep] ws)).filter (!·.isEmpty) = ws := by
    refine filter_fieldsBy_join (by simpa using other) fun w member => ?_
    refine (words w member).imp_right fun letters c inside => ?_
    rw [letters c inside]
    rfl
  rw [slugWords, found]
  exact (List.map_congr_left lower).trans ws.map_id

theorem slugWords_eq_nil {cs : List Char} (other : ∀ c ∈ cs, c.isAlphanum = false) :
    slugWords cs = [] := by
  rw [slugWords, List.map_eq_nil_iff, List.filter_eq_nil_iff]
  intro f field
  cases f with
  | nil => simp
  | cons c more =>
    obtain ⟨within, letter⟩ := mem_fieldsBy field (.head more)
    rw [other c within] at letter
    cases letter

/-- A name of ASCII letters, digits and blanks. -/
def PlainName (name : String) : Prop := ∀ c ∈ name.toList, c.isAlphanum = true ∨ isBlank c = true

theorem words_plain {name : String} (plain : PlainName name) :
    ∀ w ∈ words name.toList, w ≠ [] ∧ ∀ c ∈ w, c.isAlphanum = true := by
  intro w member
  rw [words_eq] at member
  obtain ⟨field, filled⟩ := List.mem_filter.mp member
  refine ⟨by simpa using filled, fun c inside => ?_⟩
  obtain ⟨within, visible⟩ := mem_fieldsBy field inside
  exact (plain c within).resolve_right (by simp [visible])

theorem normalizedName_plain {name : String} (plain : PlainName name) :
    (normalizedName name).toList = join [' '] (slugWords (normalizedName name).toList) := by
  have words := words_plain plain
  have lowered : (normalizedName name).toList =
      join [' '] ((Text.words name.toList).map (·.map Char.toLower)) := by
    rw [normalizedName, String.toList_ofList, lower, lowerFrom_ascii]
    · exact map_join Char.toLower _
    · intro c inside
      rcases mem_join inside with rfl | ⟨w, member, inside⟩
      · decide
      · exact toNat_of_isAlphanum ((words w member).2 c inside)
  rw [lowered, slugWords_join rfl]
  · refine List.forall_mem_map.mpr fun v member => ?_
    refine ⟨by simpa using (words v member).1, List.forall_mem_map.mpr fun c inside => ?_⟩
    exact isAlphanum_toLower ((words v member).2 c inside)
  · refine List.forall_mem_map.mpr fun v _ => ?_
    rw [List.map_map]
    exact List.map_congr_left fun c _ => Char.toLower_toLower_eq_toLower c

/-- A plain name is all in its words. -/
theorem slug_normalizedName_iff {name name' : String} (plain : PlainName name)
    (plain' : PlainName name') : slug (normalizedName name) = slug (normalizedName name') ↔
      normalizedName name = normalizedName name' := by
  refine ⟨fun same => ?_, congrArg slug⟩
  rw [← String.toList_inj, normalizedName_plain plain, normalizedName_plain plain',
    slug_eq_iff.mp same]

/-! ### Names of ideographs -/

variable {name : String} (ideographs : ∀ c ∈ name.toList, Ideograph c)
include ideographs

theorem normalizedName_ideographs : normalizedName name = name := by
  have visible : ∀ c ∈ name.toList, isBlank c = false := by
    intro c inside
    obtain ⟨least, most⟩ := ideographs c inside
    rw [← Bool.not_eq_true]
    simp only [isBlank, Stretch.hasChar, blanks_eq, List.any_cons, List.any_nil, Stretch.contains,
      Bool.or_eq_true, Bool.and_eq_true, decide_eq_true_eq, Bool.false_eq_true, or_false,
      beq_iff_eq]
    omega
  have joined : join [' '] (words name.toList) = name.toList := by
    rw [words_eq, fieldsBy_eq_splitOnP, List.splitOnP_eq_singleton visible]
    cases name.toList <;> simp [join]
  rw [normalizedName, joined, lower, lowerFrom_ideographs ideographs, String.ofList_toList]

theorem slug_ideographs : slug (normalizedName name) = "" := by
  have words : slugWords name.toList = [] := by
    refine slugWords_eq_nil fun c inside => ?_
    rw [← Bool.not_eq_true, isAlphanum_iff]
    have := ideographs c inside
    unfold Ideograph at this
    omega
  rw [normalizedName_ideographs ideographs, slug, slugChars, ← slugWords, words]
  rfl

end RepoAudit.Text
