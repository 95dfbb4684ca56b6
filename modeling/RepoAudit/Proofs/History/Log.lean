import RepoAudit.History.Log
import RepoAudit.Proofs.Json.Numerals
import RepoAudit.Proofs.Text.Blank
import RepoAudit.Proofs.Text.Fields
import RepoAudit.Proofs.Time.Characters

/-!
# Logs read back

Records are read one after another: what stands before the mark of a record has no part in it, and a
record with a header that cannot be read takes its changes with it. So a printed log is read as the
commits it was printed from.
-/

namespace RepoAudit.History

open Text Decimal

/-! ### Lines of records -/

/-- The commits in the lines of a log. -/
def entriesIn (ls : List (List Char)) : List Entry := (records ls).filterMap entry?

theorem dropStart?_mark {line : List Char} (unmarked : line.head? ≠ some recordMark) :
    dropStart? [recordMark] line = none := by
  cases line with
  | nil => rfl
  | cons c rest =>
    have other : c ≠ recordMark := fun same => unmarked (congrArg some same)
    simp [dropStart?, other.symm]

theorem records_cons_of_ne {line : List Char} (unmarked : line.head? ≠ some recordMark)
    (rest : List (List Char)) : records (line :: rest) = records rest := by
  rw [records, dropStart?_mark unmarked]

/-- The lines before the next record. -/
def bodyOf (ls : List (List Char)) : List (List Char) :=
  ls.takeWhile fun l => !([recordMark].isPrefixOf l)

theorem records_mark (header : List Char) (rest : List (List Char)) :
    records ((recordMark :: header) :: rest) = (header, bodyOf rest) :: records rest := by
  have found := dropStart?_append [recordMark] header
  rw [List.singleton_append] at found
  rw [records, found, bodyOf]

theorem bodyOf_mark (header : List Char) (rest : List (List Char)) :
    bodyOf ((recordMark :: header) :: rest) = [] :=
  List.takeWhile_cons_of_neg (by simp [List.isPrefixOf])

theorem bodyOf_cons_of_ne {line : List Char} (unmarked : line.head? ≠ some recordMark)
    (rest : List (List Char)) : bodyOf (line :: rest) = line :: bodyOf rest := by
  refine List.takeWhile_cons_of_pos ?_
  rw [Bool.not_eq_true', ← Bool.not_eq_true, List.isPrefixOf_iff_prefix]
  rintro ⟨more, rfl⟩
  exact unmarked rfl

theorem bodyOf_append (a : List (List Char)) {b : List (List Char)}
    (begins : ∀ l ∈ b.head?, l.head? = some recordMark) : bodyOf (a ++ b) = bodyOf a := by
  induction a with
  | nil =>
    cases b with
    | nil => rfl
    | cons l rest =>
      obtain ⟨header, rfl⟩ := List.head?_eq_some_iff.mp (begins l rfl)
      exact bodyOf_mark header rest
  | cons l rest ih =>
    by_cases marked : l.head? = some recordMark
    · obtain ⟨header, rfl⟩ := List.head?_eq_some_iff.mp marked
      rw [List.cons_append, bodyOf_mark, bodyOf_mark]
    · rw [List.cons_append, bodyOf_cons_of_ne marked, bodyOf_cons_of_ne marked, ih]

theorem records_append (a : List (List Char)) {b : List (List Char)}
    (begins : ∀ l ∈ b.head?, l.head? = some recordMark) :
    records (a ++ b) = records a ++ records b := by
  induction a with
  | nil => rfl
  | cons line rest ih =>
    by_cases marked : line.head? = some recordMark
    · obtain ⟨header, rfl⟩ := List.head?_eq_some_iff.mp marked
      rw [List.cons_append, records_mark, records_mark, bodyOf_append rest begins, ih,
        List.cons_append]
    · rw [List.cons_append, records_cons_of_ne marked, records_cons_of_ne marked, ih]

theorem unmarked_lines {body : List (List Char)}
    (unmarked : ∀ l ∈ body, l.head? ≠ some recordMark) : records body = [] ∧ bodyOf body = body := by
  induction body with
  | nil => exact ⟨rfl, rfl⟩
  | cons line rest ih =>
    obtain ⟨head, tail⟩ := List.forall_mem_cons.mp unmarked
    obtain ⟨none, all⟩ := ih tail
    rw [records_cons_of_ne head, bodyOf_cons_of_ne head, none, all]
    exact ⟨rfl, rfl⟩

/-- A record has the lines up to the next mark. -/
theorem records_record (header : List Char) {body : List (List Char)}
    (unmarked : ∀ l ∈ body, l.head? ≠ some recordMark) :
    records ((recordMark :: header) :: body) = [(header, body)] := by
  obtain ⟨none, all⟩ := unmarked_lines unmarked
  rw [records_mark, none, all]

/-! ### Empty lines -/

theorem change?_nil : change? [] = none := rfl

theorem changes_filter (ls : List (List Char)) :
    (bodyOf (ls.filter fun l => !l.isEmpty)).filterMap change? = (bodyOf ls).filterMap change? := by
  induction ls with
  | nil => rfl
  | cons l rest ih =>
    cases l with
    | nil =>
      rw [List.filter_cons_of_neg (by simp), ih, bodyOf_cons_of_ne (by simp),
        List.filterMap_cons_none change?_nil]
    | cons c more =>
      rw [List.filter_cons_of_pos (by simp)]
      by_cases marked : (c :: more).head? = some recordMark
      · obtain ⟨header, same⟩ := List.head?_eq_some_iff.mp marked
        rw [same, bodyOf_mark, bodyOf_mark]
      · rw [bodyOf_cons_of_ne marked, bodyOf_cons_of_ne marked, List.filterMap_cons,
          List.filterMap_cons, ih]

theorem record_congr (header : List Char) {body body' : List (List Char)}
    (same : body.filterMap change? = body'.filterMap change?) :
    entry? (header, body) = entry? (header, body') := by
  unfold entry?
  rw [same]

/-- Empty lines do not count. -/
theorem entriesIn_filter (ls : List (List Char)) :
    entriesIn (ls.filter fun l => !l.isEmpty) = entriesIn ls := by
  induction ls with
  | nil => rfl
  | cons l rest ih =>
    rw [entriesIn, entriesIn] at ih ⊢
    by_cases marked : l.head? = some recordMark
    · obtain ⟨header, rfl⟩ := List.head?_eq_some_iff.mp marked
      rw [List.filter_cons_of_pos (by simp), records_mark, records_mark, List.filterMap_cons,
        List.filterMap_cons, record_congr header (changes_filter rest), ih]
    · cases l with
      | nil => rw [List.filter_cons_of_neg (by simp), records_cons_of_ne marked, ih]
      | cons c more =>
        rw [List.filter_cons_of_pos (by simp), records_cons_of_ne marked, records_cons_of_ne marked,
          ih]

/-! ### Texts -/

/-- Lines with line feeds between them, so that an empty one at the end ends the text with one. -/
def textOf (ls : List (List Char)) : String := String.ofList (join ['\n'] ls)

theorem entries_textOf {before : List (List Char)} {last : List Char}
    (free : ∀ l ∈ before ++ [last], '\n' ∉ l) :
    entries (textOf (before ++ [last])) = entriesIn (before.map dropReturn ++ [last]) := by
  rw [textOf, entries, String.toList_ofList, lines_join free, ← entriesIn,
    ← entriesIn_filter (_ ++ [last]), ← entriesIn_filter]
  cases last with
  | nil => simp
  | cons c more => rfl

/-- A text after which a line begins. -/
def Closed (t : String) : Prop := t = "" ∨ t.toList.getLast? = some '\n'

/-- A text that begins with a record, if with anything. -/
def Opened (t : String) : Prop := t = "" ∨ t.toList.head? = some recordMark

theorem entries_append {t t' : String} (closed : Closed t) (opened : Opened t') :
    entries (t ++ t') = entries t ++ entries t' := by
  have begins : ∀ l ∈ (lines t'.toList).head?, l.head? = some recordMark := by
    rcases opened with rfl | opened
    · exact nofun
    · obtain ⟨rest, split⟩ := List.head?_eq_some_iff.mp opened
      obtain ⟨line, later, first⟩ := lines_cons (c := recordMark) (by decide) (by decide) rest
      rw [split, first]
      rintro l ⟨⟩
      rfl
  have ended : t.toList = [] ∨ t.toList.getLast? = some '\n' :=
    closed.imp_left fun empty => congrArg String.toList empty
  rw [entries, String.toList_append, lines_append ended, records_append _ begins,
    List.filterMap_append, entries, entries]

/-! ### Printed commits -/

/-- A commit as it is printed, with a text for its time and the number of empty lines behind it: in a
log there is one behind changes. -/
structure Printed where
  entry : Entry
  stamp : List Char
  gap : Nat

def changeLine (c : Change) : List Char :=
  join ['\t'] [digits c.added, digits c.deleted, c.path.toList]

def headerOf (e : Entry) (stamp : List Char) : List Char :=
  join [unitMark] [e.sha.toList, e.name.toList, e.email.toList, stamp, e.message.toList]

def Printed.body (p : Printed) : List (List Char) :=
  p.entry.changes.map changeLine ++ List.replicate p.gap []

def Printed.lines (p : Printed) : List (List Char) :=
  (recordMark :: headerOf p.entry p.stamp) :: p.body

def logText (ps : List Printed) : String := textOf (ps.flatMap Printed.lines)

structure Change.Printable (c : Change) : Prop where
  filled : c.path ≠ ""
  line : '\n' ∉ c.path.toList
  plain : ¬ arrow <:+: c.path.toList
  closed : ∀ d ∈ c.path.toList.getLast?, isBlank d = false
  added : c.added < 2 ^ 64
  deleted : c.deleted < 2 ^ 64

structure Printed.Printable (p : Printed) : Prop where
  sha : '\n' ∉ p.entry.sha.toList ∧ unitMark ∉ p.entry.sha.toList
  name : '\n' ∉ p.entry.name.toList ∧ unitMark ∉ p.entry.name.toList
  email : '\n' ∉ p.entry.email.toList ∧ unitMark ∉ p.entry.email.toList
  message : '\n' ∉ p.entry.message.toList
  messageEnd : p.entry.message.toList.getLast? ≠ some '\r'
  time : Time.rfc3339? p.stamp = some p.entry.time
  changes : ∀ c ∈ p.entry.changes, c.Printable

theorem lineNumber_digits {n : Nat} (small : n < 2 ^ 64) : lineNumber (digits n) = n := by
  have written := Json.digits_digits n
  have number : nat? (digits n) = some n := by
    rw [nat?, if_neg, Json.natOfDigits_digits]
    simpa [written.1] using written.2
  have unsigned : word? 64 (digits n) = some n := by
    unfold word?
    split
    · rename_i rest split
      have digit := written.2 '+' (split ▸ .head rest)
      cases digit
    · simp only [number]
      exact Option.filter_eq_some_iff.mpr ⟨rfl, decide_eq_true small⟩
  rw [lineNumber, trim_eq_self fun c member => isBlank_of_isDigit (written.2 c member), unsigned]
  rfl

theorem not_mem_digits {c : Char} (other : c.isDigit = false) (n : Nat) : c ∉ digits n :=
  fun member => Bool.false_ne_true (other.symm.trans ((Json.digits_digits n).2 c member))

theorem getLast?_changeLine {c : Change} (filled : c.path ≠ "") :
    (changeLine c).getLast? = c.path.toList.getLast? := by
  have last : (changeLine c).getLast? = some (c.path.toList.getLast?.getD '\t') :=
    getLast?_join (List.cons_ne_nil (digits c.added) [digits c.deleted]) c.path.toList
  rw [last]
  cases split : c.path.toList.getLast? with
  | none => exact absurd (String.toList_eq_nil_iff.mp (List.getLast?_eq_none_iff.mp split)) filled
  | some d => rfl

theorem change?_changeLine {c : Change} (printable : c.Printable) :
    change? (changeLine c) = some c := by
  have free : ∀ f ∈ [digits c.added, digits c.deleted], '\t' ∉ f := by
    intro f member
    obtain rfl | rfl := List.mem_pair.mp member
    · exact not_mem_digits rfl c.added
    · exact not_mem_digits rfl c.deleted
  have whole : trimEnd (changeLine c) = changeLine c :=
    trimEnd_eq_self (getLast?_changeLine printable.filled ▸ printable.closed)
  have kept : newPathOf c.path.toList = c.path.toList := by
    rw [newPathOf, if_pos]
    rw [Bool.not_eq_true', ← Bool.not_eq_true, occurs_iff]
    exact printable.plain
  have split : fieldsAtMost '\t' 3 (changeLine c) =
      [digits c.added, digits c.deleted, c.path.toList] := fieldsAtMost_join free
  rw [change?, whole, split]
  simp only [kept, lineNumber_digits printable.added, lineNumber_digits printable.deleted,
    String.ofList_toList]

theorem Printed.Printable.fields {p : Printed} (printable : p.Printable) :
    ∀ f ∈ [p.entry.sha.toList, p.entry.name.toList, p.entry.email.toList, p.stamp],
      '\n' ∉ f ∧ unitMark ∉ f := by
  have plain := Time.isTimeChar_of_rfc3339? printable.time
  have stamp : '\n' ∉ p.stamp ∧ unitMark ∉ p.stamp := by
    constructor <;> exact fun inside => absurd (plain _ inside) (by decide)
  simpa using ⟨printable.sha, printable.name, printable.email, stamp⟩

theorem header?_headerOf {p : Printed} (printable : p.Printable) :
    header? (headerOf p.entry p.stamp) = some { p.entry with changes := [] } := by
  have split : fieldsAtMost unitMark 5 (headerOf p.entry p.stamp) =
      [p.entry.sha.toList, p.entry.name.toList, p.entry.email.toList, p.stamp,
        p.entry.message.toList] := fieldsAtMost_join fun f member => (printable.fields f member).2
  rw [header?, split]
  simp only [printable.time, Option.bind_eq_bind, Option.bind_some, String.ofList_toList,
    List.headD_cons, Option.pure_def]

theorem unmarked_changeLine (c : Change) : (changeLine c).head? ≠ some recordMark := by
  intro marked
  obtain ⟨rest, split⟩ := List.head?_eq_some_iff.mp marked
  rw [changeLine, join_cons (List.cons_ne_nil _ _)] at split
  cases written : digits c.added with
  | nil => exact (Json.digits_digits c.added).1 written
  | cons d more =>
    rw [written, List.cons_append] at split
    obtain rfl := (List.cons.inj split).1
    have inside : recordMark ∈ digits c.added := written ▸ .head more
    exact not_mem_digits rfl c.added inside

theorem forall_mem_body {P : List Char → Prop} {p : Printed}
    (changes : ∀ c ∈ p.entry.changes, P (changeLine c)) (blank : P []) : ∀ l ∈ p.body, P l := by
  refine List.forall_mem_append.mpr ⟨List.forall_mem_map.mpr changes, fun l member => ?_⟩
  rw [List.eq_of_mem_replicate member]
  exact blank

theorem unmarked_body (p : Printed) : ∀ l ∈ p.body, l.head? ≠ some recordMark :=
  forall_mem_body (fun c _ => unmarked_changeLine c) nofun

theorem record_lines {p : Printed} (printable : p.Printable) :
    entry? (headerOf p.entry p.stamp, p.body) = some p.entry := by
  have blank : (List.replicate p.gap []).filterMap change? = [] := by
    rw [List.filterMap_eq_nil_iff]
    intro l member
    rw [List.eq_of_mem_replicate member]
    rfl
  have changes : (p.entry.changes.map changeLine).filterMap change? = p.entry.changes := by
    have each : ∀ c ∈ p.entry.changes, change? (changeLine c) = some c :=
      fun c member => change?_changeLine (printable.changes c member)
    rw [List.filterMap_map]
    exact (List.filterMap_congr each).trans List.filterMap_some
  unfold entry?
  rw [header?_headerOf printable, Printed.body, List.filterMap_append, blank, changes,
    List.append_nil]
  rfl

theorem entriesIn_lines {ps : List Printed} (printable : ∀ p ∈ ps, p.Printable) :
    entriesIn (ps.flatMap Printed.lines) = ps.map Printed.entry := by
  induction ps with
  | nil => rfl
  | cons p rest ih =>
    obtain ⟨head, tail⟩ := List.forall_mem_cons.mp printable
    have begins : ∀ l ∈ (rest.flatMap Printed.lines).head?, l.head? = some recordMark := by
      cases rest with
      | nil => exact nofun
      | cons q more =>
        rintro l ⟨⟩
        rfl
    have first : records p.lines = _ := records_record _ (unmarked_body p)
    rw [List.flatMap_cons, entriesIn, records_append _ begins, List.filterMap_append, ← entriesIn,
      ← entriesIn, ih tail, entriesIn, first, List.filterMap_cons_some (record_lines head)]
    rfl

theorem lineFeed_lines {p : Printed} (printable : p.Printable) : ∀ l ∈ p.lines, '\n' ∉ l := by
  refine List.forall_mem_cons.mpr ⟨?_, forall_mem_body (fun c member => ?_) List.not_mem_nil⟩
  · refine mt List.mem_cons.mp (not_or.mpr ⟨by decide, not_mem_join (by decide) ?_⟩)
    have fields := printable.fields
    simp only [List.forall_mem_cons] at fields ⊢
    exact ⟨fields.1.1, fields.2.1.1, fields.2.2.1.1, fields.2.2.2.1.1, printable.message, nofun⟩
  · refine not_mem_join (by decide) ?_
    simp only [List.forall_mem_cons]
    exact ⟨not_mem_digits rfl _, not_mem_digits rfl _, (printable.changes c member).line, nofun⟩

theorem dropReturn_lines {p : Printed} (printable : p.Printable) :
    ∀ l ∈ p.lines, dropReturn l = l := by
  refine List.forall_mem_cons.mpr ⟨?_, forall_mem_body (fun c member => ?_) rfl⟩
  · have last : (headerOf p.entry p.stamp).getLast? =
        some (p.entry.message.toList.getLast?.getD unitMark) :=
      getLast?_join (List.cons_ne_nil p.entry.sha.toList
        [p.entry.name.toList, p.entry.email.toList, p.stamp]) _
    refine dropReturn_of_ne ?_
    rw [List.getLast?_cons, last]
    cases split : p.entry.message.toList.getLast? with
    | none => decide
    | some d => exact split ▸ printable.messageEnd
  · refine dropReturn_of_ne ?_
    rw [getLast?_changeLine (printable.changes c member).filled]
    intro last
    have filled := (printable.changes c member).closed '\r' last
    have blank : isBlank '\r' = true := (isBlank_ascii (by decide)).mpr (by decide)
    exact Bool.false_ne_true (filled.symm.trans blank)

theorem entries_logText {ps : List Printed} (printable : ∀ p ∈ ps, p.Printable) :
    entries (logText ps) = ps.map Printed.entry := by
  have each {P : List Char → Prop} (one : ∀ p ∈ ps, ∀ l ∈ p.lines, P l) :
      ∀ l ∈ ps.flatMap Printed.lines, P l := by
    intro l member
    obtain ⟨p, printed, member⟩ := List.mem_flatMap.mp member
    exact one p printed l member
  rw [← entriesIn_lines printable, logText]
  rcases (ps.flatMap Printed.lines).eq_nil_or_concat' with empty | ⟨before, last, split⟩
  · rw [empty]
    rfl
  · have free : ∀ l ∈ before ++ [last], '\n' ∉ l :=
      split ▸ each fun p printed => lineFeed_lines (printable p printed)
    have kept : ∀ l ∈ before ++ [last], dropReturn l = l :=
      split ▸ each fun p printed => dropReturn_lines (printable p printed)
    rw [split, entries_textOf free,
      (List.map_congr_left fun l member => kept l (List.mem_append_left _ member)).trans
        before.map_id]

/-- A record with a header that cannot be read, followed by lines without a mark. -/
structure Refused (header : List Char) (body : List (List Char)) : Prop where
  line : '\n' ∉ header
  unread : header? (dropReturn header) = none
  lines : ∀ l ∈ body, '\n' ∉ l
  unmarked : ∀ l ∈ body, l.head? ≠ some recordMark

def refusedText (header : List Char) (body : List (List Char)) : String :=
  textOf ((recordMark :: header) :: body ++ [[]])

theorem closed_refusedText (header : List Char) (body : List (List Char)) :
    Closed (refusedText header body) := by
  right
  rw [refusedText, textOf, String.toList_ofList, getLast?_join (List.cons_ne_nil _ body)]
  rfl

theorem opened_refusedText (header : List Char) (body : List (List Char)) (t : String) :
    Opened (refusedText header body ++ t) := by
  right
  rw [refusedText, textOf, String.toList_append, String.toList_ofList, List.cons_append,
    join_cons (List.append_ne_nil_of_right_ne_nil body (List.cons_ne_nil [] []))]
  rfl

theorem entries_refusedText {header : List Char} {body : List (List Char)}
    (refused : Refused header body) : entries (refusedText header body) = [] := by
  have free : ∀ l ∈ (recordMark :: header) :: body ++ [[]], '\n' ∉ l := by
    refine List.forall_mem_cons.mpr ⟨?_, List.forall_mem_append.mpr ⟨refused.lines, by simp⟩⟩
    exact mt List.mem_cons.mp (not_or.mpr ⟨by decide, refused.line⟩)
  have unmarked : ∀ l ∈ body.map dropReturn ++ [[]], l.head? ≠ some recordMark := by
    refine List.forall_mem_append.mpr ⟨List.forall_mem_map.mpr fun l member marked => ?_, by simp⟩
    obtain ⟨rest, split⟩ := List.head?_eq_some_iff.mp marked
    obtain ⟨more, whole⟩ := dropReturn_prefix l
    rw [split, List.cons_append] at whole
    exact refused.unmarked l member (whole ▸ rfl)
  rw [refusedText, entries_textOf free, List.map_cons, dropReturn_cons (by decide),
    List.cons_append, entriesIn, records_record _ unmarked, List.filterMap_cons_none]
  · rfl
  · unfold entry?
    rw [refused.unread]
    rfl

/-- A log is read as the commits it was printed from; of two logs one behind the other, each is read
as it is alone; and a record that cannot be read takes its changes with it. -/
theorem log_readings :
    (∀ ps : List Printed, (∀ p ∈ ps, p.Printable) → entries (logText ps) = ps.map Printed.entry) ∧
    (∀ t t', Closed t → Opened t' → entries (t ++ t') = entries t ++ entries t') ∧
    ∀ t t' header body, Closed t → Opened t' → Refused header body →
      entries (t ++ refusedText header body ++ t') = entries t ++ entries t' := by
  refine ⟨fun ps => entries_logText, fun t t' => entries_append, ?_⟩
  intro t t' header body closed opened refused
  rw [String.append_assoc, entries_append closed (opened_refusedText header body t'),
    entries_append (closed_refusedText header body) opened, entries_refusedText refused,
    List.nil_append]

theorem log_readings_between :
    let first : Printed := ⟨⟨"abc123", "Ann", "ann@x.io", ⟨1704164645, 0⟩, "Add things",
      [⟨"src/a.rs", 3, 1⟩, ⟨"b c.md", 0, 12⟩]⟩, "2024-01-02T03:04:05+00:00".toList, 1⟩
    let second : Printed := ⟨⟨"def456", "Bob", "", ⟨1704067200, 0⟩, "", []⟩,
      "2024-01-01T02:00:00+02:00".toList, 0⟩
    entries (logText [first, second]) = [first.entry, second.entry] ∧
    entries (logText [first] ++ refusedText "garbage".toList ["1\t1\tx.rs".toList] ++
      logText [second]) = [first.entry, second.entry] := by
  intro first second
  have printable : first.Printable := by
    refine ⟨by decide +kernel, by decide +kernel, by decide +kernel, by decide +kernel,
      by decide +kernel, by decide +kernel, ?_⟩
    intro c member
    obtain rfl | rfl := List.mem_pair.mp member
    · refine ⟨by decide, by decide +kernel, by decide +kernel, ?_, by decide, by decide⟩
      rintro d ⟨⟩
      rw [← Bool.not_eq_true, isBlank_ascii (by decide)]
      decide
    · refine ⟨by decide, by decide +kernel, by decide +kernel, ?_, by decide, by decide⟩
      rintro d ⟨⟩
      rw [← Bool.not_eq_true, isBlank_ascii (by decide)]
      decide
  have printable' : second.Printable := by
    refine ⟨by decide +kernel, by decide +kernel, by decide +kernel, by decide +kernel,
      by decide +kernel, by decide +kernel, nofun⟩
  have refused : Refused "garbage".toList ["1\t1\tx.rs".toList] := by
    constructor <;> decide +kernel
  have closed : Closed (logText [first]) := .inr (by decide +kernel)
  have opened : Opened (logText [second]) := .inr (by decide +kernel)
  have read := log_readings.1 [first] (by simpa using printable)
  have read' := log_readings.1 [second] (by simpa using printable')
  constructor
  · exact log_readings.1 [first, second] (by simpa using ⟨printable, printable'⟩)
  · rw [log_readings.2.2 _ _ _ _ closed opened refused, read, read']
    rfl

end RepoAudit.History
