import RepoAudit.Proofs.Turtle.Document

/-!
# Blocks of statements

Documents that people write put a node in brackets where it is used, with one statement on each
line. What such a document adds to a graph is computed here from its statements, and reading it is
shown to add just that.
-/

namespace RepoAudit.Rdf.Turtle

open Text

/-! ### Statements as they are written -/

/-- An object: a name with a prefix, a number, a text or a collection of texts. -/
inductive Value where
  | name (pre part : String)
  | number (digits : String)
  | quoted (text : String)
  | list (texts : List String)

namespace Value

def chars : Value → List Char
  | .name pre part => pre.toList ++ ':' :: part.toList
  | .number digits => digits.toList
  | .quoted text => (Term.quoted text).toList
  | .list texts => '(' :: ' ' :: (texts.flatMap (fun t => (Term.quoted t).toList ++ [' ']) ++ [')'])

/-- The term that is read, and the graph with the cells that this takes. -/
def put (namespaces : String → String) (g : Graph) : Value → Term × Graph
  | .name pre part => (.iri (namespaces pre ++ part), g)
  | .number digits =>
    (.typed digits (xsd (if readsAsInteger digits then "integer" else "decimal")), g)
  | .quoted text => (.string text, g)
  | .list texts => g.addList (texts.map .string)

end Value

/-- A predicate with its object. -/
structure Line where
  pre : String
  part : String
  value : Value

def Line.chars (l : Line) : List Char :=
  l.pre.toList ++ ':' :: (l.part.toList ++ ' ' :: l.value.chars)

def Line.put (namespaces : String → String) (subject : Term) (g : Graph) (l : Line) : Graph :=
  (l.value.put namespaces g).2.insert
    ⟨subject, .iri (namespaces l.pre ++ l.part), (l.value.put namespaces g).1⟩

/-- Items on a line each, with a semicolon behind all but the last. -/
def joined {α : Type} (chars : α → List Char) (indent : List Char) : List α → List Char
  | [] => []
  | [item] => chars item
  | item :: next :: rest => chars item ++ ' ' :: ';' :: (indent ++ joined chars indent (next :: rest))

/-- A line break and some blanks. -/
def indent (n : Nat) : List Char := '\n' :: List.replicate n ' '

theorem length_indent (n : Nat) : (indent n).length = n + 1 := by simp [indent]

/-- What is said of a subject: its type, a line, or a predicate with a node in brackets. -/
inductive Entry where
  | type (pre part : String)
  | line (l : Line)
  | block (pre part : String) (lines : List Line)

namespace Entry

def chars : Entry → List Char
  | .type pre part => 'a' :: ' ' :: (pre.toList ++ ':' :: part.toList)
  | .line l => l.chars
  | .block pre part lines => pre.toList ++ ':' :: (part.toList ++ ' ' :: '[' ::
      (indent 8 ++ (joined Line.chars (indent 8) lines ++ (indent 4 ++ [']']))))

def put (namespaces : String → String) (subject : Term) (g : Graph) : Entry → Graph
  | .type pre part => g.insert ⟨subject, .iri (rdf "type"), .iri (namespaces pre ++ part)⟩
  | .line l => l.put namespaces subject g
  | .block pre part lines =>
    (lines.foldl (Line.put namespaces g.blank.1) g.blank.2).insert
      ⟨subject, .iri (namespaces pre ++ part), g.blank.1⟩

end Entry

/-- A subject with what is said of it. -/
structure Paragraph where
  pre : String
  part : String
  entries : List Entry

namespace Paragraph

def chars (p : Paragraph) : List Char :=
  '\n' :: (p.pre.toList ++ ':' :: (p.part.toList ++ ' ' ::
    (joined Entry.chars (indent 4) p.entries ++ [' ', '.', '\n'])))

def subject (namespaces : String → String) (p : Paragraph) : Term :=
  .iri (namespaces p.pre ++ p.part)

def put (namespaces : String → String) (g : Graph) (p : Paragraph) : Graph :=
  p.entries.foldl (Entry.put namespaces (p.subject namespaces)) g

end Paragraph

/-- A document that declares prefixes and has a paragraph on each subject. -/
structure Document where
  prefixes : List (String × String)
  paragraphs : List Paragraph

def Document.chars (d : Document) : List Char :=
  '\n' :: (d.prefixes.flatMap (fun e => (prefixText e).toList) ++
    d.paragraphs.flatMap Paragraph.chars)

/-- The prefixes that a document declares. -/
def Document.declared (d : Document) : SortedMap String String :=
  d.prefixes.foldl (fun m e => m.insert e.1 e.2) ∅

/-! ### What can be read -/

/-- A name with a declared prefix. -/
structure PlainName (prefixes : SortedMap String String) (namespaces : String → String)
    (pre part : String) : Prop where
  begins : PlainPrefix pre.toList
  ends : isPlainName part.toList = true
  bound : prefixes.get? pre = some (namespaces pre)

def Value.Plain (prefixes : SortedMap String String) (namespaces : String → String) : Value → Prop
  | .name pre part => PlainName prefixes namespaces pre part
  | .number digits => readsAsInteger digits = true ∨ readsAsDecimal digits = true
  | .quoted _ => True
  | .list _ => True

structure Line.Plain (prefixes : SortedMap String String) (namespaces : String → String)
    (l : Line) : Prop where
  predicate : PlainName prefixes namespaces l.pre l.part
  value : l.value.Plain prefixes namespaces

def Entry.Plain (prefixes : SortedMap String String) (namespaces : String → String) : Entry → Prop
  | .type pre part => PlainName prefixes namespaces pre part
  | .line l => l.Plain prefixes namespaces
  | .block pre part lines => PlainName prefixes namespaces pre part ∧ lines ≠ [] ∧
      ∀ l ∈ lines, l.Plain prefixes namespaces

structure Paragraph.Plain (prefixes : SortedMap String String) (namespaces : String → String)
    (p : Paragraph) : Prop where
  subject : PlainName prefixes namespaces p.pre p.part
  filled : p.entries ≠ []
  entries : ∀ e ∈ p.entries, e.Plain prefixes namespaces

structure Document.Plain (namespaces : String → String) (d : Document) : Prop where
  prefixes : ∀ e ∈ d.prefixes, PlainPrefix e.1.toList ∧ PlainIri e.2.toList
  paragraphs : ∀ p ∈ d.paragraphs, p.Plain d.declared namespaces

/-- A state with another graph. -/
def State.holding (s : State) (g : Graph) : State := { s with graph := g }

/-- The prefixes that a reader knows, which has no base. -/
structure State.Declares (s : State) (prefixes : SortedMap String String) : Prop where
  base : s.base = none
  prefixes : s.prefixes = prefixes

theorem State.Declares.holding {s : State} {prefixes : SortedMap String String}
    (declares : s.Declares prefixes) (g : Graph) : (s.holding g).Declares prefixes :=
  ⟨declares.base, declares.prefixes⟩

/-- Blanks that end a term. -/
def Gap (gap : List Char) : Prop := ∃ d rest, gap = d :: rest ∧ Delimiter d ∧ Blanks gap

theorem gap_indent (n : Nat) : Gap (indent n) := by
  refine ⟨'\n', _, rfl, .inr (.inr rfl), blanks_of_spaces ?_⟩
  simp [indent]

theorem gap_blank : Gap [' '] := ⟨' ', [], rfl, .inl rfl, blanks_of_spaces rfl⟩

namespace Reader

-- the equations of these steps are made here once, and not by every proof that unfolds them
attribute [local simp] object blankNodePropertyList collection collectionItems predicateObjectList
  objectList verb

variable {s : State} {prefixes : SortedMap String String} {namespaces : String → String}
  {fuel : Nat}

/-! ### Names -/

theorem reads_name {pre part : String} (plain : PlainName prefixes namespaces pre part)
    (declares : s.Declares prefixes) {d : Char} (stop : Delimiter d) (rest : List Char) :
    ∃ c more, pre.toList ++ ':' :: (part.toList ++ d :: rest) = c :: more ∧ NameHead c more ∧
      Reads prefixedName s (c :: more) (namespaces pre ++ part) s (d :: rest) := by
  obtain ⟨c, more, begins, head⟩ := nameHead_of_plain plain.begins (part.toList ++ d :: rest)
  have bound : s.prefixes.get? (String.ofList pre.toList) = some (namespaces pre) := by
    rw [String.ofList_toList, declares.prefixes, plain.bound]
  have read := reads_prefixedName plain.begins.named plain.ends bound stop rest
  rw [begins, String.ofList_toList] at read
  exact ⟨c, more, begins, head, read⟩

theorem verbHead_name {pre part : String} (plain : PlainName prefixes namespaces pre part)
    (rest : List Char) : ∃ c more, pre.toList ++ ':' :: rest = c :: more ∧ VerbHead c := by
  obtain ⟨c, more, begins, head⟩ := nameHead_of_plain plain.begins rest
  exact ⟨c, more, begins, head.visible, head.ne (by decide) (by decide), head.notNumber.2.2,
    head.ne (by decide) (by decide)⟩

theorem verb_name {pre part : String} (plain : PlainName prefixes namespaces pre part)
    (declares : s.Declares prefixes) {blanks : List Char} (blank : Blanks blanks)
    (rest : List Char) :
    Reads verb s (blanks ++ pre.toList ++ ':' :: (part.toList ++ ' ' :: rest))
      (.iri (namespaces pre ++ part)) s (' ' :: rest) := by
  obtain ⟨c, more, begins, head, read⟩ := reads_name plain declares (.inl rfl) rest
  rw [List.append_assoc, begins]
  exact verb_prefixedName blank head read

theorem verb_type {blanks : List Char} (blank : Blanks blanks) (rest : List Char) :
    Reads verb s (blanks ++ 'a' :: ' ' :: rest) (.iri (rdf "type")) s (' ' :: rest) := by
  have visible : Visible 'a' := visible_ascii (by decide) (by decide)
  rw [verb]
  refine (reads_skipSpace _ blank (spaceLength_visible visible _)).bind (reads_rest.bind ?_)
  exact (reads_take 1).bind (reads_pure _)

/-! ### Values -/

/-- The texts of a collection are read to its closing bracket. -/
theorem reads_items (left : List Char) : ∀ {texts : List String} {fuel : Nat},
    texts.length + 2 ≤ fuel →
    Reads (collectionItems fuel) s
      (' ' :: (texts.flatMap (fun t => (Term.quoted t).toList ++ [' ']) ++ ')' :: left))
      (texts.map .string) s left
  | [], fuel, enough => by
    obtain ⟨fuel, rfl⟩ : ∃ n, fuel = n + 1 := ⟨fuel - 1, by simp at enough; omega⟩
    rw [collectionItems]
    refine (reads_blank (visible_ascii (by decide) (by decide))).bind (reads_peek.bind ?_)
    exact (reads_take 1).bind (reads_pure _)
  | text :: rest, fuel, enough => by
    obtain ⟨fuel, rfl⟩ : ∃ n, fuel = n + 2 := ⟨fuel - 2, by simp at enough; omega⟩
    have enough' : rest.length + 2 ≤ fuel + 1 := by
      simp only [List.length_cons] at enough
      omega
    let behind := rest.flatMap (fun t => (Term.quoted t).toList ++ [' ']) ++ ')' :: left
    have ahead : (text :: rest).flatMap (fun t => (Term.quoted t).toList ++ [' ']) ++ ')' :: left =
        (Term.quoted text).toList ++ ' ' :: behind := by simp [behind]
    have begins : ∃ more, (Term.quoted text).toList ++ ' ' :: behind = '"' :: more :=
      ⟨_, by simp [Term.quoted]; rfl⟩
    obtain ⟨more, begins⟩ := begins
    have first : Reads (object (fuel + 1)) s ('"' :: more) (.string text) s (' ' :: behind) := by
      have none : Blanks [] := blanks_of_spaces rfl
      have leads : Leads (object (fuel + 1)) s ([] ++ ((Term.quoted text).toList ++ ' ' :: behind))
        literal s _ := leads_quoted none text (' ' :: behind)
      rw [List.nil_append, begins] at leads
      exact leads.reads (begins ▸ literal_string text (.inl rfl))
    rw [ahead, begins, collectionItems]
    refine (reads_blank (visible_ascii (by decide) (by decide))).bind (reads_peek.bind ?_)
    exact first.bind ((reads_items left enough').bind (reads_pure _))

theorem reads_collection (texts : List String) (enough : texts.length + 3 ≤ fuel)
    (left : List Char) :
    Reads (collection fuel) s
      ('(' :: ' ' :: (texts.flatMap (fun t => (Term.quoted t).toList ++ [' ']) ++ ')' :: left))
      (s.graph.addList (texts.map .string)).1 (s.holding (s.graph.addList (texts.map .string)).2)
      left := by
  obtain ⟨fuel, rfl⟩ : ∃ n, fuel = n + 1 := ⟨fuel - 1, by omega⟩
  rw [collection]
  refine (reads_expect (visible_ascii (by decide) (by decide))).bind ?_
  refine (reads_items left (by omega)).bind (reads_know fun c => ?_)
  exact (reads_learned fun c => rfl).bind (reads_pure _)

/-- An object is read up to the character behind it. -/
theorem reads_value {v : Value} (plain : v.Plain prefixes namespaces)
    (declares : s.Declares prefixes) (enough : v.chars.length + 4 ≤ fuel) {d : Char}
    (stop : Delimiter d) (rest : List Char) :
    Reads (object fuel) s (' ' :: (v.chars ++ d :: rest)) (v.put namespaces s.graph).1
      (s.holding (v.put namespaces s.graph).2) (d :: rest) := by
  obtain ⟨fuel, rfl⟩ : ∃ n, fuel = n + 1 := ⟨fuel - 1, by omega⟩
  cases v with
  | name pre part =>
    obtain ⟨c, more, begins, head, read⟩ := reads_name plain declares stop rest
    have ahead : (Value.name pre part).chars ++ d :: rest = c :: more := by
      rw [← begins]
      simp [Value.chars]
    rw [ahead]
    exact object_prefixedName head read
  | number digits =>
    by_cases integer : readsAsInteger digits = true
    · have read := reads_number (s := s) (scanNumber_integer integer stop rest)
      rw [String.ofList_toList] at read
      simp only [Value.put, integer, if_true]
      exact object_number (numberHead_integer integer) read
    · have decimal := plain.resolve_left integer
      have read := reads_number (s := s) (scanNumber_decimal decimal stop rest)
      rw [String.ofList_toList] at read
      simp only [Value.put, integer]
      exact object_number (numberHead_decimal decimal) read
  | quoted text => exact (leads_literal text _).reads (literal_string text stop)
  | list texts =>
    have ahead : (Value.list texts).chars ++ d :: rest = '(' :: ' ' ::
        (texts.flatMap (fun t => (Term.quoted t).toList ++ [' ']) ++ ')' :: d :: rest) := by
      simp [Value.chars]
    have short (texts : List String) : texts.length ≤
        (texts.flatMap fun t => (Term.quoted t).toList ++ [' ']).length :=
      length_le_flatMap (fun t => by simp) texts
    rw [ahead]
    refine object_collection (reads_collection texts ?_ _)
    have := short texts
    simp only [Value.chars, List.length_cons, List.length_append, List.length_nil] at enough
    omega

/-! ### Statements -/

/-- A text that is read as a statement about a subject, behind blanks and before some more. -/
structure Stated (prefixes : SortedMap String String) (fuel : Nat) (subject : Term)
    (text : List Char) (put : Graph → Graph) : Prop where
  begins : ∀ rest, ∃ c more, text ++ rest = c :: more ∧ VerbHead c
  reads : ∀ {s : State} {blanks gap : List Char} {e : Char} (more : List Char),
    s.Declares prefixes → Blanks blanks → Gap gap → Visible e → e ≠ ',' →
    Reads (verb >>= objectList fuel subject) s (blanks ++ (text ++ (gap ++ e :: more))) ()
      (s.holding (put s.graph)) (e :: more)

theorem stated_line {l : Line} (plain : l.Plain prefixes namespaces)
    (enough : l.chars.length + 4 ≤ fuel) (subject : Term) :
    Stated prefixes fuel subject l.chars (l.put namespaces subject) := by
  refine ⟨fun rest => ?_, fun {s blanks gap e} more declares blank ends visible last => ?_⟩
  · rw [Line.chars, List.append_assoc, List.cons_append]
    exact verbHead_name plain.predicate _
  · obtain ⟨fuel, rfl⟩ : ∃ n, fuel = n + 1 := ⟨fuel - 1, by omega⟩
    obtain ⟨d, rest, rfl, stop, blank'⟩ := ends
    have enough' : l.value.chars.length + 4 ≤ fuel := by
      simp only [Line.chars, List.length_append, List.length_cons] at enough
      omega
    have verb := verb_name plain.predicate declares blank (l.value.chars ++ (d :: rest ++ e :: more))
    have value : Reads (object fuel) s (' ' :: (l.value.chars ++ (d :: rest ++ e :: more)))
        (l.value.put namespaces s.graph).1 (s.holding (l.value.put namespaces s.graph).2)
        (d :: rest ++ e :: more) :=
      reads_value plain.value declares enough' stop (rest ++ e :: more)
    have ahead : blanks ++ (l.chars ++ (d :: rest ++ e :: more)) = blanks ++ l.pre.toList ++
        ':' :: (l.part.toList ++ ' ' :: (l.value.chars ++ (d :: rest ++ e :: more))) := by
      simp [Line.chars]
    rw [ahead]
    exact verb.bind (reads_lastObject value blank' visible last)

theorem stated_type {pre part : String} (plain : PlainName prefixes namespaces pre part)
    (subject : Term) : Stated prefixes (fuel + 2) subject (Entry.type pre part).chars
      ((Entry.type pre part).put namespaces subject) := by
  refine ⟨fun rest => ⟨'a', _, rfl, visible_ascii (by decide) (by decide), by decide, by decide⟩,
    fun {s blanks gap e} more declares blank ends visible last => ?_⟩
  obtain ⟨d, rest, rfl, stop, blank'⟩ := ends
  obtain ⟨c, text, begins, head, read⟩ := reads_name plain declares stop (rest ++ e :: more)
  have ahead : blanks ++ ((Entry.type pre part).chars ++ (d :: rest ++ e :: more)) =
      blanks ++ 'a' :: ' ' :: c :: text := by
    rw [← begins]
    simp [Entry.chars]
  rw [ahead]
  exact (verb_type blank _).bind
    (reads_lastObject (object_prefixedName head read) blank' visible last)

/-! ### Lists of statements -/

section Lists

variable {α : Type} {chars : α → List Char} {put : Graph → α → Graph} {subject : Term}

theorem joined_cons (chars : α → List Char) (gap : List Char) (item next : α) (rest : List α) :
    joined chars gap (item :: next :: rest) =
      chars item ++ ' ' :: ';' :: (gap ++ joined chars gap (next :: rest)) := rfl

/-- Statements with semicolons between them are read to the sign behind the last one. -/
theorem reads_joined {between gap : List Char} (blank' : Blanks between) (ends : Gap gap) {e : Char}
    (closing : e = '.' ∨ e = ']') (more : List Char) :
    ∀ {items : List α} {fuel : Nat} {s : State} (blanks : List Char), items ≠ [] →
      (∀ item ∈ items, ∀ fuel, (chars item).length + 4 ≤ fuel →
        Stated prefixes fuel subject (chars item) (put · item)) →
      s.Declares prefixes → Blanks blanks → (joined chars between items).length + 5 ≤ fuel →
      Reads (predicateObjectList fuel subject) s
        (blanks ++ (joined chars between items ++ (gap ++ e :: more))) ()
        (s.holding (items.foldl put s.graph)) (e :: more)
  | [], _, _, _, empty, _, _, _, _ => absurd rfl empty
  | [item], fuel, s, blanks, _, stated, declares, blank, enough => by
    obtain ⟨fuel, rfl⟩ : ∃ n, fuel = n + 1 := ⟨fuel - 1, by omega⟩
    have enough' : (chars item).length + 4 ≤ fuel := by
      simp only [joined] at enough
      omega
    have visible : Visible e := by
      rcases closing with rfl | rfl <;> exact visible_ascii (by decide) (by decide)
    have last : e ≠ ',' ∧ e ≠ ';' := by rcases closing with rfl | rfl <;> decide
    have read := (stated item (.head _) fuel enough').reads more declares blank ends visible last.1
    exact reads_lastProperty visible last.2 read
  | item :: next :: rest, fuel, s, blanks, _, stated, declares, blank, enough => by
    obtain ⟨fuel, rfl⟩ : ∃ n, fuel = n + 1 := ⟨fuel - 1, by omega⟩
    rw [joined_cons] at enough ⊢
    simp only [List.length_append, List.length_cons] at enough
    have semicolon : Visible ';' := visible_ascii (by decide) (by decide)
    let behind := joined chars between (next :: rest) ++ (gap ++ e :: more)
    have read := (stated item (.head _) fuel (by omega)).reads (between ++ behind) declares blank
      gap_blank semicolon (by decide)
    have none : Blanks [] := blanks_of_spaces rfl
    have ih : Reads (predicateObjectList fuel subject) (s.holding (put s.graph item)) behind ()
        (s.holding ((item :: next :: rest).foldl put s.graph)) (e :: more) :=
      reads_joined blank' ends closing more [] (by simp)
        (fun other member => stated other (.tail _ member)) (declares.holding (put s.graph item))
        none (by omega)
    have begins : ∃ c text, behind = c :: text ∧ VerbHead c := by
      have first := (stated next (.tail _ (.head _)) _ (Nat.le_refl _)).begins
      cases rest with
      | nil => exact first _
      | cons =>
        simp only [behind, joined_cons, List.append_assoc]
        exact first _
    have ahead : blanks ++ (chars item ++ ' ' :: ';' :: (between ++ joined chars between
        (next :: rest)) ++ (gap ++ e :: more)) =
          blanks ++ (chars item ++ ([' '] ++ ';' :: (between ++ behind))) := by
      simp [behind]
    obtain ⟨c, text, begins, head⟩ := begins
    rw [ahead]
    rw [begins] at read ih ⊢
    exact (leads_nextProperty blank' head read).reads ih

end Lists

/-! ### Nodes in brackets -/

theorem reads_freshBlank (ahead : List Char) :
    Reads freshBlank s ahead s.graph.blank.1 (s.holding s.graph.blank.2) ahead :=
  reads_know fun _ => (reads_learned fun _ => rfl).bind (reads_pure _)

theorem reads_brackets {lines : List Line} (filled : lines ≠ [])
    (plain : ∀ l ∈ lines, l.Plain prefixes namespaces) (declares : s.Declares prefixes)
    (enough : (joined Line.chars (indent 8) lines).length + 6 ≤ fuel) (left : List Char) :
    Reads (blankNodePropertyList fuel) s ('[' :: (indent 8 ++
        (joined Line.chars (indent 8) lines ++ (indent 4 ++ ']' :: left)))) s.graph.blank.1
      (s.holding (lines.foldl (Line.put namespaces s.graph.blank.1) s.graph.blank.2)) left := by
  obtain ⟨fuel, rfl⟩ : ∃ n, fuel = n + 1 := ⟨fuel - 1, by omega⟩
  have stated : ∀ l ∈ lines, ∀ fuel, l.chars.length + 4 ≤ fuel → Stated prefixes fuel
      s.graph.blank.1 l.chars (Line.put namespaces s.graph.blank.1 · l) :=
    fun l member fuel enough => stated_line (plain l member) enough s.graph.blank.1
  obtain ⟨-, -, -, -, blank⟩ := gap_indent 8
  have none : Blanks [] := blanks_of_spaces rfl
  have read : Reads (predicateObjectList fuel s.graph.blank.1) (s.holding s.graph.blank.2)
      (joined Line.chars (indent 8) lines ++ (indent 4 ++ ']' :: left)) () (s.holding
        (lines.foldl (Line.put namespaces s.graph.blank.1) s.graph.blank.2)) (']' :: left) :=
    reads_joined blank (gap_indent 4) (.inr rfl) left [] filled stated
      (declares.holding s.graph.blank.2) none (by omega)
  have begins : ∃ c text, joined Line.chars (indent 8) lines ++ (indent 4 ++ ']' :: left) =
      c :: text ∧ VerbHead c := by
    obtain ⟨l, rest, rfl⟩ := List.exists_cons_of_ne_nil filled
    have first := (stated l (.head _) _ (Nat.le_refl _)).begins
    cases rest with
    | nil => exact first _
    | cons =>
      simp only [joined_cons, List.append_assoc]
      exact first _
  obtain ⟨c, text, begins, head⟩ := begins
  rw [begins] at read
  have closed : Reads (expect ']') (s.holding (lines.foldl (Line.put namespaces s.graph.blank.1)
      s.graph.blank.2)) (']' :: left) () _ left := reads_expect (visible_ascii (by decide) (by decide))
  rw [begins, blankNodePropertyList]
  refine (reads_expect (visible_ascii (by decide) (by decide))).bind ((reads_freshBlank _).bind ?_)
  refine (reads_skipSpace _ blank (spaceLength_visible head.visible _)).bind (reads_peek.bind ?_)
  rw [List.head?_cons, if_pos (by simpa using head.notEnd.2)]
  exact read.bind (closed.bind (reads_pure _))

theorem object_brackets {more left : List Char} {u : Term} {t : State}
    (read : Reads (blankNodePropertyList fuel) s ('[' :: more) u t left) :
    Reads (object (fuel + 1)) s (' ' :: '[' :: more) u t left := by
  rw [object]
  exact (reads_blank (visible_ascii (by decide) (by decide))).bind (reads_rest.bind read)

theorem stated_entry {entry : Entry} (plain : entry.Plain prefixes namespaces)
    (enough : entry.chars.length + 4 ≤ fuel) (subject : Term) :
    Stated prefixes fuel subject entry.chars (entry.put namespaces subject) := by
  cases entry with
  | type pre part =>
    obtain ⟨fuel, rfl⟩ : ∃ n, fuel = n + 2 := ⟨fuel - 2, by omega⟩
    exact stated_type plain subject
  | line l => exact stated_line plain enough subject
  | block pre part lines =>
    obtain ⟨named, filled, plain⟩ := plain
    refine ⟨fun rest => ?_, fun {s blanks gap e} more declares blank ends visible last => ?_⟩
    · rw [Entry.chars, List.append_assoc, List.cons_append]
      exact verbHead_name named _
    · obtain ⟨fuel, rfl⟩ : ∃ n, fuel = n + 2 := ⟨fuel - 2, by omega⟩
      obtain ⟨-, -, -, -, blank'⟩ := ends
      have enough' : (joined Line.chars (indent 8) lines).length + 6 ≤ fuel := by
        simp only [Entry.chars, List.length_append, List.length_cons, length_indent] at enough
        omega
      have read := reads_brackets (s := s) filled plain declares enough' (gap ++ e :: more)
      have verb := verb_name named declares blank ('[' :: (indent 8 ++
        (joined Line.chars (indent 8) lines ++ (indent 4 ++ ']' :: (gap ++ e :: more)))))
      have ahead : blanks ++ ((Entry.block pre part lines).chars ++ (gap ++ e :: more)) =
          blanks ++ pre.toList ++ ':' :: (part.toList ++ ' ' :: '[' :: (indent 8 ++
            (joined Line.chars (indent 8) lines ++ (indent 4 ++ ']' :: (gap ++ e :: more))))) := by
        simp [Entry.chars]
      rw [ahead]
      exact verb.bind (reads_lastObject (object_brackets read) blank' visible last)

/-! ### Documents -/

theorem reads_paragraph {p : Paragraph} (plain : p.Plain prefixes namespaces)
    (declares : s.Declares prefixes) (enough : p.chars.length ≤ fuel) (n : Nat)
    {blanks : List Char} (blank : Blanks blanks) (rest : List Char) :
    Leads (statements fuel (n + 1)) s (blanks ++ (p.chars ++ rest)) (statements fuel n)
      (s.holding (p.put namespaces s.graph)) ('\n' :: rest) := by
  let behind := joined Entry.chars (indent 4) p.entries ++ ([' '] ++ '.' :: '\n' :: rest)
  obtain ⟨c, more, begins, head, read⟩ := reads_name plain.subject declares (.inl rfl) behind
  have sum : p.chars.length = p.pre.toList.length + p.part.toList.length +
      (joined Entry.chars (indent 4) p.entries).length + 6 := by
    simp [Paragraph.chars]
    omega
  have stated : ∀ e ∈ p.entries, ∀ fuel, e.chars.length + 4 ≤ fuel → Stated prefixes fuel
      (p.subject namespaces) e.chars (Entry.put namespaces (p.subject namespaces) · e) :=
    fun e member fuel enough => stated_entry (plain.entries e member) enough _
  obtain ⟨-, -, -, -, between⟩ := gap_indent 4
  have single : Blanks [' '] := blanks_of_spaces rfl
  have list : Reads (predicateObjectList fuel (p.subject namespaces)) s ([' '] ++ behind) ()
      (s.holding (p.put namespaces s.graph)) ('.' :: '\n' :: rest) :=
    reads_joined between gap_blank (.inl rfl) _ [' '] plain.filled stated declares single
      (by omega)
  have subject : SubjectHead c more := subjectHead_of_name head
  have keyword {word : String} (member : word ∈ ["@prefix", "@base", "prefix", "base"]) :
      Reads (atKeyword word) s (c :: more) false s (c :: more) :=
    reads_atKeyword (subject.noKeyword word member)
  have dot : Reads (expect '.') (s.holding (p.put namespaces s.graph)) ('.' :: '\n' :: rest) () _
    ('\n' :: rest) := reads_expect (visible_ascii (by decide) (by decide))
  have whole : Reads (statement fuel) s (c :: more) () (s.holding (p.put namespaces s.graph))
      ('\n' :: rest) := by
    rw [statement]
    refine (keyword (by simp)).bind ((keyword (by simp)).bind ((keyword (by simp)).bind
      ((keyword (by simp)).bind (Reads.bind (a := ()) ?_ dot))))
    rw [triples]
    refine (reads_noSpace head.visible).bind (reads_peek.bind ?_)
    rw [List.head?_cons, if_neg (by simpa using subject.notBracket)]
    exact (subject_prefixedName head read).bind list
  have ahead : blanks ++ (p.chars ++ rest) = (blanks ++ ['\n']) ++ c :: more := by
    rw [← begins]
    simp [Paragraph.chars, behind]
  have newline : Blanks ['\n'] := blanks_of_spaces rfl
  have blank' : Blanks (blanks ++ ['\n']) := fun d member =>
    (List.mem_append.mp member).elim (blank d) (newline d)
  rw [ahead]
  exact (leads_statements head.visible blank' more n).trans (whole.leads (leads_refl _))

theorem reads_paragraphs : ∀ {ps : List Paragraph} {n : Nat} {s : State} {blanks : List Char},
    (∀ p ∈ ps, p.Plain prefixes namespaces) → s.Declares prefixes →
    (ps.flatMap Paragraph.chars).length ≤ fuel → ps.length < n → Blanks blanks →
    Reads (statements fuel n) s (blanks ++ ps.flatMap Paragraph.chars) ()
      (s.holding (ps.foldl (Paragraph.put namespaces) s.graph)) []
  | [], n, s, blanks, _, _, _, enough, blank => by
    obtain ⟨n, rfl⟩ : ∃ k, n = k + 1 := ⟨n - 1, by simp at enough; omega⟩
    rw [List.flatMap_nil, List.append_nil]
    exact statements_nil blank n
  | p :: rest, n, s, blanks, plain, declares, long, enough, blank => by
    obtain ⟨n, rfl⟩ : ∃ k, n = k + 1 := ⟨n - 1, by simp at enough; omega⟩
    simp only [List.flatMap_cons, List.length_append, List.length_cons] at long enough ⊢
    have newline : Blanks ['\n'] := blanks_of_spaces rfl
    have short : p.chars.length ≤ fuel := by omega
    have first := reads_paragraph (plain p (.head _)) declares short n blank
      (rest.flatMap Paragraph.chars)
    exact first.reads (reads_paragraphs (fun q member => plain q (.tail _ member))
      (declares.holding _) (by omega) (by omega) newline)

end Reader

theorem Document.length_le (d : Document) : d.prefixes.length + d.paragraphs.length ≤ d.chars.length := by
  have lines := length_le_flatMap (f := fun e => (prefixText e).toList)
    (fun e => by simp [prefixText]) d.prefixes
  have paragraphs := length_le_flatMap (f := Paragraph.chars)
    (fun p => by simp [Paragraph.chars]) d.paragraphs
  simp only [Document.chars, List.length_cons, List.length_append]
  omega

/-- Reading a document into a new graph adds one paragraph after another. -/
theorem read_document {d : Document} {namespaces : String → String} (plain : d.Plain namespaces)
    {text : String} (written : text.toList = d.chars) (source : String) :
    ∃ g : Graph, (∀ t, t ∉ g) ∧
      read text source = .ok (d.paragraphs.foldl (Paragraph.put namespaces) g) := by
  have short := d.length_le
  obtain ⟨n, enough⟩ : ∃ n, d.chars.length + 1 = n + d.prefixes.length :=
    ⟨d.chars.length + 1 - d.prefixes.length, by omega⟩
  have newline : Blanks ['\n'] := blanks_of_spaces rfl
  obtain ⟨t, blanks, known, blank, leads⟩ := Reader.leads_lines (4 * d.chars.length + 4)
    (d.paragraphs.flatMap Paragraph.chars) n ['\n'] d.prefixes plain.prefixes knows_nothing newline
  have declares : t.Declares d.declared := ⟨known.base, known.prefixes⟩
  have long : (d.paragraphs.flatMap Paragraph.chars).length ≤ 4 * d.chars.length + 4 := by
    simp only [Document.chars, List.length_cons, List.length_append]
    omega
  have paragraphs := Reader.reads_paragraphs plain.paragraphs declares long (n := n) (by omega) blank
  rw [← enough] at leads
  have whole : Reader.Reads Reader.document { cursor := ⟨[], [], 1, 1⟩, graph := ∅ } d.chars () _ [] :=
    (Reader.reads_rest.leads leads).reads paragraphs
  obtain ⟨c, -, ran⟩ := whole ⟨[], text.toList, 1, 1⟩ written
  refine ⟨t.graph, fun u held => ?_, ?_⟩
  · obtain ⟨v, none, -⟩ := (known.held u).mp held
    cases none
  · change Reader.document.run { cursor := ⟨[], text.toList, 1, 1⟩, graph := ∅ } = _ at ran
    rw [Turtle.read, readInto, ran]
    rfl

end RepoAudit.Rdf.Turtle
