import RepoAudit.Proofs.Turtle.Lexemes
import RepoAudit.Rdf.Turtle.Reader

/-!
# Steps of reading

A successful step is described by what lies ahead before and after it and by what the reader knows.
Lines and columns, which only errors show, are left open.
-/

namespace RepoAudit.Rdf.Turtle

namespace Reader

variable {α β : Type} {m : Reader α} {s t u : State} {ahead between left : List Char}

/-! ### What is read after what -/

theorem bind_finish (m : Reader α) : m.bind finish = m := by
  induction m with
  | finish a | fail e => rfl
  | look next ih => exact congrArg look (funext ih)
  | move n next ih | back n next ih | learn change next ih => rw [Reader.bind, ih]

theorem bind_bind {γ : Type} (m : Reader α) (f : α → Reader β) (g : β → Reader γ) :
    (m.bind f).bind g = m.bind fun a => (f a).bind g := by
  induction m with
  | finish a | fail e => rfl
  | look next ih => exact congrArg look (funext ih)
  | move n next ih | back n next ih | learn change next ih =>
    rw [Reader.bind, Reader.bind, ih, Reader.bind]

instance : LawfulMonad Reader := .mk' Reader bind_finish (fun _ _ => rfl) bind_bind

theorem run_bind (m : Reader α) (f : α → Reader β) (s : State) : (m >>= f).run s =
    match m.run s with
    | (.ok a, t) => (f a).run t
    | (.error e, t) => (.error e, t) := by
  change (m.bind f).run s = _
  induction m generalizing s with
  | finish a | fail e => rfl
  | look next ih => exact ih s s
  | move n next ih | back n next ih | learn change next ih => exact ih _

/-! ### What a reader comes to -/

/-- Wherever `ahead` lies ahead, `m` finds `a`, passes from `s` to `t` and stops before `left`. -/
def Reads (m : Reader α) (s : State) (ahead : List Char) (a : α) (t : State)
    (left : List Char) : Prop :=
  ∀ c : Cursor, c.rest = ahead → ∃ d : Cursor, d.rest = left ∧ m.run (s.at c) = (.ok a, t.at d)

/-- Wherever `ahead` lies ahead, `m` comes from `s` to what `m'` comes to from `t` before `between`. -/
def Leads (m : Reader α) (s : State) (ahead : List Char) (m' : Reader α) (t : State)
    (between : List Char) : Prop :=
  ∀ c : Cursor, c.rest = ahead →
    ∃ d : Cursor, d.rest = between ∧ m.run (s.at c) = m'.run (t.at d)

/-- Wherever `ahead` lies ahead, `m` fails. -/
def Refuses (m : Reader α) (s : State) (ahead : List Char) : Prop :=
  ∀ c : Cursor, c.rest = ahead → ∃ e t, m.run (s.at c) = (.error e, t)

/-! ### Sequences -/

theorem leads_refl (m : Reader α) : Leads m s ahead m s ahead := fun c place => ⟨c, place, rfl⟩

theorem Leads.trans {m' m'' : Reader α} (first : Leads m s ahead m' t between)
    (second : Leads m' t between m'' u left) : Leads m s ahead m'' u left := by
  intro c place
  obtain ⟨d, between, same⟩ := first c place
  obtain ⟨e, left, same'⟩ := second d between
  exact ⟨e, left, same.trans same'⟩

theorem Leads.bind {m' : Reader α} (leads : Leads m s ahead m' t between) (f : α → Reader β) :
    Leads (m >>= f) s ahead (m' >>= f) t between := by
  intro c place
  obtain ⟨d, between, same⟩ := leads c place
  refine ⟨d, between, ?_⟩
  rw [run_bind, run_bind, same]

theorem Leads.reads {m' : Reader α} {a : α} (leads : Leads m s ahead m' t between)
    (reads : Reads m' t between a u left) : Reads m s ahead a u left := by
  intro c place
  obtain ⟨d, between, same⟩ := leads c place
  rw [same]
  exact reads d between

theorem Leads.refuses {m' : Reader α} (leads : Leads m s ahead m' t between)
    (refuses : Refuses m' t between) : Refuses m s ahead := by
  intro c place
  obtain ⟨d, between, same⟩ := leads c place
  rw [same]
  exact refuses d between

theorem reads_pure (a : α) : Reads (pure a) s ahead a s ahead := fun c place => ⟨c, place, rfl⟩

theorem Reads.leads {f : α → Reader β} {a : α} {m' : Reader β}
    (first : Reads m s ahead a t between) (second : Leads (f a) t between m' u left) :
    Leads (m >>= f) s ahead m' u left := by
  intro c place
  obtain ⟨d, between, ran⟩ := first c place
  obtain ⟨e, left, same⟩ := second d between
  refine ⟨e, left, ?_⟩
  rw [run_bind, ran]
  exact same

theorem Reads.bind {f : α → Reader β} {a : α} {b : β} (first : Reads m s ahead a t between)
    (second : Reads (f a) t between b u left) : Reads (m >>= f) s ahead b u left :=
  (first.leads (leads_refl _)).reads second

theorem Reads.refuses {f : α → Reader β} {a : α} (first : Reads m s ahead a t between)
    (second : Refuses (f a) t between) : Refuses (m >>= f) s ahead :=
  (first.leads (leads_refl _)).refuses second

theorem refuses_fail (e : SyntaxError) : Refuses (fail e : Reader α) s ahead :=
  fun c _ => ⟨e, s.at c, rfl⟩

theorem Refuses.bind (refuses : Refuses m s ahead) (f : α → Reader β) :
    Refuses (m >>= f) s ahead := by
  intro c place
  obtain ⟨e, t, ran⟩ := refuses c place
  refine ⟨e, t, ?_⟩
  rw [run_bind, ran]

theorem reads_know {f : State → Reader β} {b : β}
    (next : ∀ c, Reads (f (s.at c)) s ahead b t left) : Reads (know >>= f) s ahead b t left :=
  fun c place => next c c place

theorem reads_learned {change : State → State} (known : ∀ c, (change (s.at c)).at c = t.at c) :
    Reads (learned change) s ahead () t ahead := by
  refine fun c place => ⟨c, place, ?_⟩
  change (Except.ok (), (change (s.at c)).at c) = _
  rw [known]

/-! ### Characters -/

theorem reads_rest : Reads rest s ahead ahead s ahead := by
  rintro c rfl
  exact ⟨c, rfl, rfl⟩

theorem reads_peek : Reads peek s ahead ahead.head? s ahead := by
  rintro c rfl
  exact ⟨c, rfl, rfl⟩

theorem reads_take (n : Nat) : Reads (take n) s ahead () s (ahead.drop n) := by
  rintro c rfl
  exact ⟨c.advance n, c.rest_advance n, rfl⟩

theorem reads_take_append (passed : List Char) :
    Reads (take passed.length) s (passed ++ left) () s left := by
  have taken : Reads (take passed.length) s (passed ++ left) () s _ := reads_take passed.length
  rwa [List.drop_left] at taken

theorem reads_giveBack_zero : Reads (giveBack 0) s ahead () s ahead :=
  fun c place => ⟨c, place, rfl⟩

theorem reads_skipSpace (blanks : List Char) (blank : Blanks blanks)
    (ends : spaceLength false left = 0) : Reads skipSpace s (blanks ++ left) () s left := by
  have length := spaceLength_append blank ends
  refine reads_rest.bind ?_
  rw [length]
  exact reads_take_append blanks

/-- There is nothing to skip before a visible character. -/
theorem reads_noSpace {c : Char} (visible : Visible c) {rest : List Char} :
    Reads skipSpace s (c :: rest) () s (c :: rest) :=
  reads_skipSpace [] (blanks_of_spaces rfl) (spaceLength_visible visible rest)

theorem reads_blank {c : Char} (visible : Visible c) {rest : List Char} :
    Reads skipSpace s (' ' :: c :: rest) () s (c :: rest) :=
  reads_skipSpace [' '] (blanks_of_spaces rfl) (spaceLength_visible visible rest)

theorem reads_scan {f : List Char → Scan α} {a : α} {passed : List Char}
    (found : f (passed ++ left) = .found a passed.length) :
    Reads (scan f) s (passed ++ left) a s left := by
  refine reads_rest.bind ?_
  rw [found]
  exact (reads_take_append passed).bind (reads_pure a)

theorem reads_expect {c : Char} (visible : Visible c) :
    Reads (expect c) s (c :: left) () s left := by
  refine (reads_noSpace visible).bind (reads_peek.bind ?_)
  rw [List.head?_cons, if_pos rfl]
  exact reads_take 1

theorem reads_expect_blank {c : Char} (visible : Visible c) :
    Reads (expect c) s (' ' :: c :: left) () s left := by
  refine (reads_blank visible).bind (reads_peek.bind ?_)
  rw [List.head?_cons, if_pos rfl]
  exact reads_take 1

theorem reads_atKeyword {keyword : String} {found : Bool}
    (keyed : startsWithKeyword keyword.toList ahead = found) :
    Reads (atKeyword keyword) s ahead found s ahead :=
  reads_rest.bind (keyed ▸ reads_pure _)

end Reader
end RepoAudit.Rdf.Turtle
