import Mathlib.Data.List.Basic
import RepoAudit.Proofs.Source.Literals
import RepoAudit.Proofs.Text.Fields
import RepoAudit.Proofs.Text.Search
import RepoAudit.Source.Marker

/-!
# Where markers are found

The comment of a line begins at the first mark outside of its literals, and a marker word counts if
it stands in the comment. `markers_of_line` shows that words in the literals in front of a comment
do not count. The comment itself is prose, in which quotes do not make a literal.
-/

namespace RepoAudit.Source

open Text

/-! ### Marker words -/

/-- Between `before` and `after` a word stands that marks work to do or code out of use. -/
inductive MarkerWord (before after : List Char) : List Char → Prop
  | task {word : String} (listed : word ∈ ["TODO", "FIXME", "HACK", "XXX", "DEPRECATED"])
    (begins : noWord before.getLast? = true) (ends : noWord after.head? = true) :
    MarkerWord before after word.toList
  | bug (begins : noWord before.getLast? = true) (ends : after.head? = some ':') :
    MarkerWord before after "BUG".toList
  | tag : MarkerWord before after "@deprecated".toList

variable {before after word line : List Char} {language : String}

theorem MarkerWord.congr {before' : List Char} (marks : MarkerWord before after word)
    (same : before'.getLast? = before.getLast?) : MarkerWord before' after word := by
  cases marks with
  | task listed begins ends => exact .task listed (same ▸ begins) ends
  | bug begins ends => exact .bug (same ▸ begins) ends
  | tag => exact .tag

theorem MarkerWord.length_le (marks : MarkerWord before after word) : word.length ≤ 11 := by
  cases marks with
  | task listed =>
    simp only [List.mem_cons, List.not_mem_nil, or_false] at listed
    rcases listed with rfl | rfl | rfl | rfl | rfl <;> decide
  | bug | tag => decide

/-- A marker word begins with a word character or with an at sign. -/
theorem MarkerWord.exists_cons (marks : MarkerWord before after word) :
    ∃ c cs, word = c :: cs ∧ (isWord c = true ∨ c = '@') := by
  cases marks with
  | task listed =>
    simp only [List.mem_cons, List.not_mem_nil, or_false] at listed
    rcases listed with rfl | rfl | rfl | rfl | rfl <;> exact ⟨_, _, rfl, .inl (by decide)⟩
  | bug => exact ⟨_, _, rfl, .inl (by decide)⟩
  | tag => exact ⟨_, _, rfl, .inr rfl⟩

theorem wordAt_task {word : String}
    (listed : word ∈ ["TODO", "FIXME", "HACK", "XXX", "DEPRECATED", "BUG"])
    (begins : noWord before.getLast? = true) (ends : noWord after.head? = true) :
    wordAt before.getLast? (word.toList ++ after) = some (word.toList, after) := by
  have solid : word.toList ≠ [] ∧ ∀ c ∈ word.toList, isWord c = true := by
    simp only [List.mem_cons, List.not_mem_nil, or_false] at listed
    rcases listed with rfl | rfl | rfl | rfl | rfl | rfl <;>
      exact ⟨by decide, List.all_eq_true.mp (by decide)⟩
  exact wordAt_eq_some_iff.mpr ⟨begins, solid.1, solid.2, ends, rfl⟩

/-- At a place a marker is found if a marker word begins there. -/
theorem tagAt_isSome_iff {cs : List Char} : (tagAt before.getLast? cs).isSome = true ↔
    ∃ word after, cs = word ++ after ∧ MarkerWord before after word := by
  unfold tagAt
  cases tagged : dropStart? "@deprecated".toList cs with
  | some rest => exact iff_of_true rfl ⟨_, rest, eq_of_dropStart? tagged, .tag⟩
  | none =>
    constructor
    · intro found
      cases at' : wordAt before.getLast? cs with
      | none => simp [at'] at found
      | some hit =>
        obtain ⟨word, rest⟩ := hit
        obtain ⟨begins, -, -, ends, rfl⟩ := wordAt_eq_some_iff.mp at'
        refine ⟨word, rest, rfl, ?_⟩
        simp only [at', Option.bind_eq_bind, Option.bind_some] at found
        split at found
        · rename_i listed
          have marks := MarkerWord.task (List.contains_iff_mem.mp listed) begins ends
          rwa [String.toList_ofList] at marks
        · split at found
          · rename_i bug
            obtain ⟨same, colon⟩ := Bool.and_eq_true_iff.mp bug
            rw [← String.toList_ofList (l := word), eq_of_beq same]
            exact .bug begins (of_decide_eq_true colon)
          · cases found
    · rintro ⟨word, after, rfl, marks⟩
      cases marks with
      | @task word listed begins ends =>
        have at' := wordAt_task (List.mem_append_left ["BUG"] listed) begins ends
        simp only [at', Option.bind_eq_bind, Option.bind_some, String.ofList_toList]
        rw [if_pos (List.contains_iff_mem.mpr listed), Option.isSome_some]
      | bug begins ends =>
        have listed : "BUG" ∈ ["TODO", "FIXME", "HACK", "XXX", "DEPRECATED", "BUG"] := by simp
        have at' := wordAt_task listed begins (by rw [ends]; decide)
        simp only [at', Option.bind_eq_bind, Option.bind_some, String.ofList_toList, ends]
        rw [if_neg (by decide), if_pos (by decide), Option.isSome_some]
      | tag =>
        rw [dropStart?_append] at tagged
        cases tagged

/-! ### Comments -/

/-- A word stands at place `i` of a line, and outside of its literals. -/
def Bare (word : String) (line : List Char) (i : Nat) : Prop :=
  word.toList <+: line.drop i ∧ ∀ j, i ≤ j → j < i + word.toList.length → ¬ Quoted line j

/-- What begins a comment up to the end of the line. -/
def BeginsComment (language mark : String) : Prop :=
  mark = "//" ∨ mark = "#" ∧ language ∈ hashLanguages

/-- The line begins as a block of comment lines does, or goes on with one. -/
def InBlock (line : List Char) : Prop := ∃ mark ∈ blockMarks, mark <+: trimStart line

instance (line : List Char) : Decidable (InBlock line) :=
  inferInstanceAs (Decidable (∃ mark ∈ blockMarks, mark <+: trimStart line))

/-- The first mark of a comment that stands outside of the literals of a line stands at place `i`.
Two dashes are such a mark in SQL and Lua, if the line has no other. -/
inductive MarkedAt (language : String) (line : List Char) (i : Nat) : Prop
  | mark {mark : String} (begins : BeginsComment language mark) (here : Bare mark line i)
    (first : ∀ other, BeginsComment language other → ∀ j, j < i → ¬ Bare other line j)
  | dashes (dialect : language = "sql" ∨ language = "lua") (here : Bare "--" line i)
    (first : ∀ j, j < i → ¬ Bare "--" line j)
    (only : ∀ other, BeginsComment language other → ∀ j, ¬ Bare other line j)

/-- The comment of a line begins at place `i`. -/
def CommentAt (language : String) (line : List Char) (i : Nat) : Prop :=
  InBlock line ∧ i = (line.takeWhile isBlank).length ∨ ¬ InBlock line ∧ MarkedAt language line i

theorem indexOf?_eq_some_iff (filled : word ≠ []) {cs : List Char} {i : Nat} :
    indexOf? word cs = some i ↔ word <+: cs.drop i ∧ ∀ j, j < i → ¬ word <+: cs.drop j := by
  induction cs generalizing i with
  | nil => simp [indexOf?, cutWord?, filled]
  | cons c rest ih =>
    cases begins : dropStart? word (c :: rest) with
    | some after =>
      have here : word <+: c :: rest := ⟨after, (eq_of_dropStart? begins).symm⟩
      have start : indexOf? word (c :: rest) = some 0 := by
        rw [indexOf?, cutWord?, begins]
        rfl
      rw [start]
      constructor
      · intro same
        obtain rfl := Option.some.inj same
        exact ⟨here, fun j early => absurd early (Nat.not_lt_zero j)⟩
      · rintro ⟨-, first⟩
        cases i with
        | zero => rfl
        | succ i => exact absurd here (first 0 (Nat.succ_pos i))
    | none =>
      have absent : ¬ word <+: c :: rest := dropStart?_eq_none_iff.mp begins
      have next : indexOf? word (c :: rest) = (indexOf? word rest).map (· + 1) := by
        rw [indexOf?, cutWord?, begins]
        simp [indexOf?, Function.comp_def]
      rw [next]
      cases i with
      | zero => simpa using absent
      | succ i =>
        rw [Option.map_eq_some_iff]
        simp only [Nat.add_right_cancel_iff, exists_eq_right, ih, List.drop_succ_cons]
        refine and_congr_right fun _ => ⟨fun first j early => ?_, fun first j early => ?_⟩
        · cases j with
          | zero => exact absent
          | succ j => exact first j (Nat.lt_of_succ_lt_succ early)
        · exact first (j + 1) (Nat.succ_lt_succ early)

/-- A mark is looked for on the line with its literals blanked out. -/
theorem indexOf?_maskLiterals_iff {mark : String} (filled : mark.toList ≠ [])
    (solid : ' ' ∉ mark.toList) {i : Nat} : indexOf? mark.toList (maskLiterals line) = some i ↔
      Bare mark line i ∧ ∀ j, j < i → ¬ Bare mark line j := by
  rw [indexOf?_eq_some_iff filled]
  simp only [prefix_drop_maskLiterals_iff solid, Bare]

theorem indexOf?_maskLiterals_eq_none {mark : String} (filled : mark.toList ≠ [])
    (solid : ' ' ∉ mark.toList) : indexOf? mark.toList (maskLiterals line) = none ↔
      ∀ j, ¬ Bare mark line j := by
  constructor
  · intro absent j
    induction j using Nat.strongRecOn with
    | ind j earlier =>
      intro here
      rw [(indexOf?_maskLiterals_iff filled solid).mpr ⟨here, earlier⟩] at absent
      cases absent
  · intro never
    refine Option.eq_none_iff_forall_ne_some.mpr fun i found => ?_
    exact never i ((indexOf?_maskLiterals_iff filled solid).mp found).1

/-- The marks that begin a comment in a language, as they are tried. -/
theorem mem_marks_iff {mark : String} :
    mark ∈ (if hashLanguages.contains language then ["#", "//"] else ["//"]) ↔
      BeginsComment language mark := by
  rw [BeginsComment]
  split <;> rename_i hash <;> simp_all [or_comm]

theorem BeginsComment.solid {mark : String} (begins : BeginsComment language mark) :
    mark.toList ≠ [] ∧ ' ' ∉ mark.toList := by
  rcases begins with rfl | ⟨rfl, -⟩ <;> decide

theorem exists_indexOf?_le {mark : String} (begins : BeginsComment language mark) {j : Nat}
    (here : Bare mark line j) : ∃ k, k ≤ j ∧ indexOf? mark.toList (maskLiterals line) = some k := by
  obtain ⟨filled, solid⟩ := begins.solid
  cases found : indexOf? mark.toList (maskLiterals line) with
  | none => exact absurd here ((indexOf?_maskLiterals_eq_none filled solid).mp found j)
  | some k =>
    refine ⟨k, Nat.le_of_not_lt fun early => ?_, rfl⟩
    exact ((indexOf?_maskLiterals_iff filled solid).mp found).2 j early here

/-- A line with marks is marked at the first of them. -/
theorem markedAt_iff_eq {mark : String} (begins : BeginsComment language mark) {k : Nat}
    (here : Bare mark line k)
    (first : ∀ other, BeginsComment language other → ∀ j, j < k → ¬ Bare other line j) {i : Nat} :
    MarkedAt language line i ↔ i = k := by
  constructor
  · intro marked
    cases marked with
    | mark begins' here' first' =>
      have notBefore : ¬ i < k := fun early => first _ begins' i early here'
      have notBehind : ¬ k < i := fun early => first' _ begins k early here
      omega
    | dashes _ _ _ only => exact absurd here (only mark begins k)
  · rintro rfl
    exact .mark begins here first

/-- A line without other marks is marked at its first two dashes. -/
theorem markedAt_iff_dashes
    (never : ∀ mark, BeginsComment language mark → ∀ j, ¬ Bare mark line j) {i : Nat} :
    MarkedAt language line i ↔ (language = "sql" ∨ language = "lua") ∧ Bare "--" line i ∧
      ∀ j, j < i → ¬ Bare "--" line j := by
  constructor
  · intro marked
    cases marked with
    | mark begins here => exact absurd here (never _ begins i)
    | dashes dialect here first => exact ⟨dialect, here, first⟩
  · rintro ⟨dialect, here, first⟩
    exact .dashes dialect here first never

theorem commentStart?_eq_some_iff {i : Nat} :
    commentStart? language line = some i ↔ MarkedAt language line i := by
  unfold commentStart?
  dsimp only
  generalize listed : (if hashLanguages.contains language then ["#", "//"] else ["//"]) = marks
  have among (mark : String) : mark ∈ marks ↔ BeginsComment language mark := listed ▸ mem_marks_iff
  cases least : (marks.filterMap fun m => indexOf? m.toList (maskLiterals line)).min? with
  | some k =>
    obtain ⟨member, low⟩ := List.min?_eq_some_iff.mp least
    simp only [List.mem_filterMap, among] at member low
    obtain ⟨mark, begins, found⟩ := member
    have here := ((indexOf?_maskLiterals_iff begins.solid.1 begins.solid.2).mp found).1
    have first (other : String) (begins' : BeginsComment language other) (j : Nat) (early : j < k) :
        ¬ Bare other line j := by
      intro here'
      obtain ⟨k', le, found'⟩ := exists_indexOf?_le begins' here'
      have := low k' ⟨other, begins', found'⟩
      omega
    rw [markedAt_iff_eq begins here first]
    exact Option.some_inj.trans eq_comm
  | none =>
    have never (mark : String) (begins : BeginsComment language mark) :
        ∀ j, ¬ Bare mark line j := by
      rw [List.min?_eq_none_iff, List.filterMap_eq_nil_iff] at least
      exact (indexOf?_maskLiterals_eq_none begins.solid.1 begins.solid.2).mp
        (least mark ((among mark).mpr begins))
    have dashed : indexOf? "--".toList (maskLiterals line) = some i ↔
        Bare "--" line i ∧ ∀ j, j < i → ¬ Bare "--" line j :=
      indexOf?_maskLiterals_iff (by decide) (by decide)
    rw [markedAt_iff_dashes never, ← dashed]
    dsimp only
    split
    · rename_i dialect
      exact (and_iff_right (by simpa using dialect)).symm
    · rename_i dialect
      exact iff_of_false (Option.some_ne_none i).symm
        fun marked => dialect (by simpa using marked.1)

theorem trimStart_eq_drop (line : List Char) :
    trimStart line = line.drop (line.takeWhile isBlank).length := by
  have whole := congrArg (List.drop (line.takeWhile isBlank).length)
    (List.takeWhile_append_dropWhile (p := isBlank) (l := line))
  rwa [List.drop_left] at whole

theorem comment?_eq_some_iff {text : List Char} : comment? language line = some text ↔
    ∃ i, CommentAt language line i ∧ text = line.drop i := by
  have blocked : blockMarks.any (·.isPrefixOf (trimStart line)) = true ↔ InBlock line := by
    simp [InBlock, List.any_eq_true]
  unfold comment?
  dsimp only
  split
  · rename_i block
    rw [blocked] at block
    rw [trimStart_eq_drop, Option.some_inj]
    constructor
    · rintro rfl
      exact ⟨_, .inl ⟨block, rfl⟩, rfl⟩
    · rintro ⟨i, ⟨-, rfl⟩ | ⟨free, -⟩, rfl⟩
      · rfl
      · exact absurd block free
  · rename_i free
    rw [blocked] at free
    rw [Option.map_eq_some_iff]
    simp only [commentStart?_eq_some_iff]
    constructor
    · rintro ⟨i, marked, rfl⟩
      exact ⟨i, .inr ⟨free, marked⟩, rfl⟩
    · rintro ⟨i, ⟨block, -⟩ | ⟨-, marked⟩, rfl⟩
      · exact absurd block free
      · exact ⟨i, marked, rfl⟩

/-- A comment begins with a character that begins no marker word. -/
theorem CommentAt.exists_cons {i : Nat} (at' : CommentAt language line i) :
    ∃ c rest, line.drop i = c :: rest ∧ isWord c = false ∧ c ≠ '@' := by
  have opened {mark : List Char} {c : Char} {cs : List Char} (split : mark = c :: cs)
      (apart : isWord c = false ∧ c ≠ '@') (here : mark <+: line.drop i) :
      ∃ c rest, line.drop i = c :: rest ∧ isWord c = false ∧ c ≠ '@' := by
    obtain ⟨rest, whole⟩ := here
    exact ⟨c, cs ++ rest, by rw [← whole, split, List.cons_append], apart⟩
  rcases at' with ⟨⟨mark, listed, begins⟩, rfl⟩ | ⟨-, marked⟩
  · rw [trimStart_eq_drop] at begins
    simp only [blockMarks, List.mem_cons, List.not_mem_nil, or_false] at listed
    rcases listed with rfl | rfl | rfl | rfl | rfl <;> exact opened rfl (by decide) begins
  · cases marked with
    | mark begins here => rcases begins with rfl | ⟨rfl, -⟩ <;> exact opened rfl (by decide) here.1
    | dashes _ here => exact opened rfl (by decide) here.1

theorem CommentAt.not_begins {i : Nat} (at' : CommentAt language line i)
    (marks : MarkerWord before after word) {rest : List Char} : line.drop i ≠ word ++ rest := by
  intro same
  obtain ⟨c, more, split, noWord, noTag⟩ := at'.exists_cons
  obtain ⟨d, cs, rfl, first⟩ := marks.exists_cons
  obtain ⟨rfl, -⟩ := List.cons.inj (split.symm.trans same)
  rcases first with isWord | tag
  · simp [isWord] at noWord
  · exact noTag tag

/-! ### Markers of a line -/

/-- A comment has a marker if a marker word stands in it. -/
theorem finds_tagAt_ne_nil_iff {i : Nat} (at' : CommentAt language line i) :
    finds tagAt (line.drop i) ≠ [] ↔ ∃ before word after, line = before ++ (word ++ after) ∧
      i ≤ before.length ∧ MarkerWord before after word := by
  rw [ne_eq, finds, findAll_eq_nil_iff]
  constructor
  · intro found
    simp only [not_forall, Option.or_none] at found
    obtain ⟨as, c, bs, split, found⟩ := found
    obtain ⟨word, after, same, marks⟩ :=
      tagAt_isSome_iff.mp (Option.isSome_iff_ne_none.mpr found)
    have filled : as ≠ [] := by
      rintro rfl
      exact at'.not_begins marks (split.trans same)
    have short : i ≤ line.length := by
      have := congrArg List.length split
      simp only [List.length_drop, List.length_append, List.length_cons] at this
      omega
    refine ⟨line.take i ++ as, word, after, ?_, ?_, marks.congr ?_⟩
    · rw [List.append_assoc, ← same, ← split, List.take_append_drop]
    · simp [short]
    · exact List.getLast?_append_of_ne_nil _ filled
  · rintro ⟨before, word, after, rfl, low, marks⟩ never
    have split : (before ++ (word ++ after)).drop i = before.drop i ++ (word ++ after) :=
      List.drop_append_of_le_length low
    have last : (before.drop i).getLast? = before.getLast? := by
      rw [List.getLast?_drop, if_neg]
      intro whole
      rw [List.drop_eq_nil_of_le whole] at split
      exact at'.not_begins marks split
    obtain ⟨c, cs, rfl, -⟩ := marks.exists_cons
    have found := tagAt_isSome_iff.mpr ⟨c :: cs, after, rfl, marks.congr last⟩
    rw [← Option.or_none (o := (before.drop i).getLast?), List.cons_append,
      never _ c (cs ++ after) split] at found
    cases found

/-- A line has a marker if a marker word stands in its comment. -/
theorem marker?_isSome_iff (plain : language = "rust" → isDeprecation line = false) (number : Nat) :
    (marker? language number line).isSome = true ↔ ∃ i, CommentAt language line i ∧
      ∃ before word after, line = before ++ (word ++ after) ∧ i ≤ before.length ∧
        MarkerWord before after word := by
  have searched : ¬ (language == "rust" && isDeprecation line) = true := by
    intro outOfUse
    obtain ⟨rust, deprecation⟩ := Bool.and_eq_true_iff.mp outOfUse
    simp [plain (eq_of_beq rust)] at deprecation
  rw [marker?, if_neg searched]
  constructor
  · intro found
    cases text : comment? language line with
    | none => simp [text] at found
    | some cs =>
      obtain ⟨i, at', rfl⟩ := comment?_eq_some_iff.mp text
      refine ⟨i, at', (finds_tagAt_ne_nil_iff at').mp fun none => ?_⟩
      simp [text, none] at found
  · rintro ⟨i, at', occurs⟩
    have text := comment?_eq_some_iff.mpr ⟨i, at', rfl⟩
    obtain ⟨tag, more, found⟩ :=
      List.exists_cons_of_ne_nil ((finds_tagAt_ne_nil_iff at').mpr occurs)
    simp [text, found]

theorem line_of_marker? {number : Nat} {m : Marker}
    (found : marker? language number line = some m) : m.line = number := by
  unfold marker? at found
  split at found
  · rw [← Option.some.inj found]
  · simp only [Option.bind_eq_bind, Option.bind_eq_some_iff, Option.some.injEq] at found
    obtain ⟨_, _, _, _, rfl⟩ := found
    rfl

theorem mem_markers_iff {content : String} {m : Marker} : m ∈ markers language content ↔
    ∃ i line, (lines content.toList)[i]? = some line ∧ marker? language (i + 1) line = some m := by
  rw [markers, List.mem_filterMap]
  constructor
  · rintro ⟨⟨line, i⟩, listed, found⟩
    obtain ⟨k, at'⟩ := List.mem_iff_getElem?.mp listed
    obtain ⟨there, same⟩ := List.getElem?_zip_eq_some.mp at'
    obtain ⟨short, same⟩ := List.getElem?_eq_some_iff.mp same
    obtain rfl : k = i := (List.getElem_range short).symm.trans same
    exact ⟨k, line, there, found⟩
  · rintro ⟨i, line, there, found⟩
    obtain ⟨short, -⟩ := List.getElem?_eq_some_iff.mp there
    refine ⟨(line, i), List.mem_iff_getElem?.mpr ⟨i, ?_⟩, found⟩
    exact List.getElem?_zip_eq_some.mpr ⟨there, List.getElem?_range short⟩

theorem exists_mem_markers_iff {content : String} {n : Nat}
    (listed : (lines content.toList)[n]? = some line) :
    (∃ m ∈ markers language content, m.line = n + 1) ↔
      (marker? language (n + 1) line).isSome = true := by
  simp only [mem_markers_iff, Option.isSome_iff_exists]
  constructor
  · rintro ⟨m, ⟨i, line', listed', found⟩, number⟩
    obtain rfl : i = n := Nat.succ.inj ((line_of_marker? found).symm.trans number)
    obtain rfl := Option.some.inj (listed.symm.trans listed')
    exact ⟨m, found⟩
  · rintro ⟨m, found⟩
    exact ⟨m, ⟨n, line, listed, found⟩, line_of_marker? found⟩

/-- A line has no marker if all of its marker words stand in literals in front of its comment. What
the comment of a line says is searched as it stands, also between quotes, and nothing else is. -/
theorem markers_of_line {language content : String} {n : Nat} {line : List Char}
    (listed : (lines content.toList)[n]? = some line)
    (plain : language = "rust" → isDeprecation line = false) :
    ((∀ before word after, line = before ++ (word ++ after) → MarkerWord before after word →
        ∃ i k, LiteralAt line i k ∧ i ≤ before.length ∧ before.length + word.length ≤ i + k ∧
          ∀ start, CommentAt language line start → i + k ≤ start) →
      ∀ m ∈ markers language content, m.line ≠ n + 1) ∧
    (¬ InBlock line → ((∃ m ∈ markers language content, m.line = n + 1) ↔
      ∃ start, MarkedAt language line start ∧
        ∃ before word after, line = before ++ (word ++ after) ∧ start ≤ before.length ∧
          MarkerWord before after word)) := by
  have found := (exists_mem_markers_iff listed).trans (marker?_isSome_iff plain (n + 1))
  constructor
  · intro enclosed m member number
    obtain ⟨start, at', before, word, after, split, low, marks⟩ := found.mp ⟨m, member, number⟩
    obtain ⟨i, k, -, -, high, ends⟩ := enclosed before word after split marks
    obtain ⟨c, cs, rfl, -⟩ := marks.exists_cons
    have := ends start at'
    simp only [List.length_cons] at high
    omega
  · intro free
    simp only [found, CommentAt, free, false_and, false_or, not_false_eq_true, true_and]

/-- All marker words of a line stand between two places, if the places at which markers are found
lie far enough in front of the second. -/
theorem enclosed_of_places {i k : Nat} (places : ∀ p, p < line.length →
      (tagAt (line.take p).getLast? (line.drop p)).isSome = true → i ≤ p ∧ p + 11 ≤ i + k)
    (split : line = before ++ (word ++ after)) (marks : MarkerWord before after word) :
    i ≤ before.length ∧ before.length + word.length ≤ i + k := by
  have short := marks.length_le
  obtain ⟨c, cs, rfl, -⟩ := marks.exists_cons
  obtain ⟨low, high⟩ := places before.length (by simp [split]) <| by
    rw [split, List.take_left, List.drop_left]
    exact tagAt_isSome_iff.mpr ⟨_, after, rfl, marks⟩
  exact ⟨low, by omega⟩

/-- A line with a marker word and a comment mark in a literal, and a comment behind it. -/
def quotedLine : List Char := "s = \"TODO in a # string\" # done".toList

theorem markers_of_quotedLine :
    (lines "s = \"TODO in a # string\" # done\n".toList)[0]? = some quotedLine ∧
    ("python" = "rust" → isDeprecation quotedLine = false) ∧
    ∀ m ∈ markers "python" "s = \"TODO in a # string\" # done\n", m.line ≠ 0 + 1 := by
  have listed : (lines "s = \"TODO in a # string\" # done\n".toList)[0]? = some quotedLine := by
    decide
  have plain : "python" = "rust" → isDeprecation quotedLine = false := by simp
  have free : ∀ c ∈ "s = ".toList, c ≠ '"' ∧ c ≠ '\'' := by simp
  have literal : LiteralAt quotedLine 4 20 :=
    literalAt_append free
      ⟨'"', "TODO in a # string".toList, .inl rfl, .of_plain (by simp), rfl⟩ " # done".toList
  have begins : commentStart? "python" quotedLine = some 25 := by decide +kernel
  refine ⟨listed, plain, (markers_of_line listed plain).1 fun before word after split marks => ?_⟩
  obtain ⟨low, high⟩ := enclosed_of_places (i := 4) (k := 20) (by decide +kernel) split marks
  refine ⟨4, 20, literal, low, high, fun start at' => ?_⟩
  rcases at' with ⟨block, -⟩ | ⟨-, marked⟩
  · exact absurd block (by decide +kernel)
  · have same := (commentStart?_eq_some_iff.mpr marked).symm.trans begins
    rw [Option.some.inj same]
    decide

/-- A comment with two apostrophes, which enclose what would be a literal in code. -/
def prose : List Char := "# it's a TODO that isn't done".toList

/-- Every marker word of the comment stands between its apostrophes, and a marker is found. -/
theorem marker_between_apostrophes :
    (∀ before word after, prose = before ++ (word ++ after) → MarkerWord before after word →
      ∃ i k, LiteralAt prose i k ∧ i ≤ before.length ∧ before.length + word.length ≤ i + k) ∧
    markers "python" "# it's a TODO that isn't done" =
      [⟨1, "TODO", .low, "# it's a TODO that isn't done"⟩] := by
  refine ⟨fun before word after split marks => ⟨4, 19, ?_, ?_⟩, by decide +kernel⟩
  · have free : ∀ c ∈ "# it".toList, c ≠ '"' ∧ c ≠ '\'' := by simp
    exact literalAt_append free
      ⟨'\'', "s a TODO that isn".toList, .inr rfl, .of_plain (by simp), rfl⟩ "t done".toList
  · exact enclosed_of_places (by decide +kernel) split marks

end RepoAudit.Source
