import RepoAudit.Glob.Path

/-!
# Wildcards and what is matched

`Matches` says what wildcards stand for. `Accepts` differs from it in one place: a star of the
pattern that meets a star of the text is spent on it. The matcher gives up a star only for a later
one; `matchesSegment_iff_accepts` shows that it decides `Accepts` all the same, and
`matchesSegment_agrees` for which texts and for which patterns both relations are one.
-/

namespace RepoAudit.Glob

/-- A star stands for any characters, a question mark for one, and others stand for themselves. -/
inductive Matches : List Char → List Char → Prop
  | nil : Matches [] []
  | star {p t rest : List Char} (skips : rest <:+ t) (later : Matches p rest) : Matches ('*' :: p) t
  | any {c : Char} {p t : List Char} (later : Matches p t) : Matches ('?' :: p) (c :: t)
  | literal {c : Char} {p t : List Char} (noStar : c ≠ '*') (noMark : c ≠ '?')
    (later : Matches p t) : Matches (c :: p) (c :: t)

/-- As `Matches`, but a star that meets a star stands for that star only. -/
inductive Accepts : List Char → List Char → Prop
  | nil : Accepts [] []
  | star {p t rest : List Char} (apart : t.head? ≠ some '*') (skips : rest <:+ t)
    (later : Accepts p rest) : Accepts ('*' :: p) t
  | any {c : Char} {p t : List Char} (later : Accepts p t) : Accepts ('?' :: p) (c :: t)
  | same {c : Char} {p t : List Char} (later : Accepts p t) : Accepts (c :: p) (c :: t)

theorem Accepts.matches {p t : List Char} (accepted : Accepts p t) : Matches p t := by
  induction accepted with
  | nil => exact .nil
  | star _ skips _ ih => exact .star skips ih
  | any _ ih => exact .any ih
  | @same c p t _ ih =>
    by_cases star : c = '*'
    · subst star
      exact .star (List.suffix_cons '*' t) ih
    by_cases mark : c = '?'
    · subst mark
      exact .any ih
    · exact .literal star mark ih

/-- A star is never met by another if one of the two has none. -/
theorem Matches.accepts {p t : List Char} (matched : Matches p t) (starless : '*' ∉ p ∨ '*' ∉ t) :
    Accepts p t := by
  induction matched with
  | nil => exact .nil
  | star skips _ ih =>
    replace starless := starless.resolve_left (by simp)
    have apart := fun first => starless (List.mem_of_head? first)
    exact .star apart skips (ih (.inr fun later => starless (skips.mem later)))
  | any _ ih => exact .any (ih (starless.imp (mt (.tail _)) (mt (.tail _))))
  | literal _ _ _ ih => exact .same (ih (starless.imp (mt (.tail _)) (mt (.tail _))))

/-! ### Beginnings -/

theorem accepts_nil {p : List Char} : Accepts p [] ↔ ∀ c ∈ p, c = '*' := by
  constructor
  · intro accepted
    generalize empty : [] = t at accepted
    induction accepted with
    | nil => simp
    | star _ skips _ ih =>
      subst empty
      simpa using ih (List.suffix_nil.mp skips).symm
    | any | same => cases empty
  · intro stars
    induction p with
    | nil => exact .nil
    | cons c p ih =>
      obtain ⟨rfl, later⟩ := List.forall_mem_cons.mp stars
      exact .star (by simp) (List.suffix_refl []) (ih later)

/-- Where pattern and text begin alike, what they begin with is matched to each other. -/
theorem accepts_cons {c d : Char} {p t : List Char} (meets : c = '?' ∨ c = d) :
    Accepts (c :: p) (d :: t) ↔ Accepts p t := by
  constructor
  · intro accepted
    cases accepted with
    | star apart =>
      rcases meets with mark | star
      · exact absurd mark (by decide)
      · exact absurd (congrArg some star.symm) apart
    | any later | same later => exact later
  · intro accepted
    rcases meets with rfl | rfl
    · exact .any accepted
    · exact .same accepted

theorem accepts_star {d : Char} {p t : List Char} (apart : d ≠ '*') :
    Accepts ('*' :: p) (d :: t) ↔ ∃ rest, rest <:+ d :: t ∧ Accepts p rest := by
  constructor
  · intro accepted
    cases accepted with
    | star _ skips later => exact ⟨_, skips, later⟩
    | same => exact absurd rfl apart
  · rintro ⟨rest, skips, later⟩
    exact .star (fun first => apart (Option.some.inj first)) skips later

theorem not_accepts_cons {c d : Char} {p t : List Char} (apart : ¬ (c = '?' ∨ c = d))
    (noStar : c ≠ '*') : ¬ Accepts (c :: p) (d :: t) := by
  intro accepted
  cases accepted with
  | star => exact noStar rfl
  | any => exact apart (.inl rfl)
  | same => exact apart (.inr rfl)

/-! ### The matcher -/

/-- What is left to be matched is accepted. -/
def Progress.Holds : Progress → Prop
  | .done matched => matched = true
  | .star p t => ∃ rest, rest <:+ t ∧ Accepts p rest
  | .mismatch => False

theorem accepts_iff_follow (p t : List Char) : Accepts p t ↔ (follow p t).Holds := by
  fun_induction follow p t with
  | case1 p => simp [accepts_nil, Progress.Holds]
  | case2 d t =>
    refine ⟨fun accepted => ?_, False.elim⟩
    cases accepted
  | case3 c p d t meets ih =>
    rw [accepts_cons (by simpa using meets)]
    exact ih
  | case4 c p d t apart star =>
    obtain rfl := eq_of_beq star
    exact accepts_star fun same => apart (by simp [same])
  | case5 c p d t apart noStar =>
    exact ⟨not_accepts_cons (by simpa using apart) (by simpa using noStar), False.elim⟩

/-- A text that is followed as far as possible is accepted if any end of it is. -/
theorem holds_of_suffix {p t u : List Char} (ends : u <:+ t) (accepted : Accepts p u) :
    follow p t = .mismatch ∨ (follow p t).Holds := by
  fun_induction follow p t generalizing u with
  | case1 p =>
    obtain rfl := List.suffix_nil.mp ends
    exact .inr (by simpa [Progress.Holds] using accepts_nil.mp accepted)
  | case2 => exact .inl rfl
  | case3 c p d t meets ih =>
    replace meets : c = '?' ∨ c = d := by simpa using meets
    have shorter {e : Char} {v : List Char} (ends : e :: v <:+ d :: t) : v <:+ t := by
      rcases List.suffix_cons_iff.mp ends with whole | ends
      · exact (List.cons.inj whole).2 ▸ List.suffix_refl v
      · exact (List.suffix_cons e v).trans ends
    cases accepted with
    | star apart skips later =>
      obtain rfl : '*' = d := meets.resolve_left (by decide)
      -- the star is not met at this end of the text, so this end is a shorter one
      have further := (List.suffix_cons_iff.mp ends).resolve_left fun same =>
        apart (same ▸ rfl)
      exact ih (skips.trans further) later
    | any later | same later => exact ih (shorter ends) later
  | case4 c p d t apart star =>
    obtain rfl := eq_of_beq star
    refine .inr ?_
    cases accepted with
    | star _ skips later => exact ⟨_, skips.trans ends, later⟩
    | same later => exact ⟨_, (List.suffix_cons _ _).trans ends, later⟩
  | case5 => exact .inl rfl

theorem exists_suffix_iff {p t : List Char} (followed : follow p t ≠ .mismatch) :
    (∃ rest, rest <:+ t ∧ Accepts p rest) ↔ (follow p t).Holds := by
  constructor
  · rintro ⟨rest, ends, accepted⟩
    exact (holds_of_suffix ends accepted).resolve_left followed
  · intro holds
    exact ⟨t, List.suffix_refl t, (accepts_iff_follow p t).mpr holds⟩

/-- Behind a star the text may be skipped, and no way of skipping is missed. -/
theorem afterStar_iff (p t : List Char) :
    afterStar p t = true ↔ ∃ rest, rest <:+ t ∧ Accepts p rest := by
  fun_induction afterStar p t with
  | case1 p t b followed =>
    rw [exists_suffix_iff (by simp [followed]), followed, Progress.Holds]
  | case2 p t p' t' followed ih =>
    rw [ih, exists_suffix_iff (p := p) (by simp [followed]), followed, Progress.Holds]
  | case3 p followed => simp [follow] at followed
  | case4 p d t followed ih =>
    have refused : ¬ Accepts p (d :: t) := by
      rw [accepts_iff_follow, followed]
      exact id
    rw [ih]
    constructor
    · rintro ⟨rest, ends, accepted⟩
      exact ⟨rest, ends.trans (List.suffix_cons d t), accepted⟩
    · rintro ⟨rest, ends, accepted⟩
      refine ⟨rest, (List.suffix_cons_iff.mp ends).resolve_left fun same => ?_, accepted⟩
      exact refused (same ▸ accepted)

theorem matchesSegment_iff_accepts (p t : List Char) : matchesSegment p t = true ↔ Accepts p t := by
  rw [accepts_iff_follow, matchesSegment]
  cases follow p t with
  | done b => exact .rfl
  | star p' t' => exact afterStar_iff p' t'
  | mismatch => simp [Progress.Holds]

/-! ### Where both relations are one -/

theorem accepts_append (u p t : List Char) : Accepts (u ++ p) (u ++ t) ↔ Accepts p t := by
  induction u with
  | nil => exact .rfl
  | cons c u ih =>
    rw [List.cons_append, List.cons_append, accepts_cons (.inr rfl)]
    exact ih

theorem Matches.append (u : List Char) {p t : List Char} (matched : Matches p t) :
    Matches (u ++ p) (u ++ t) := by
  induction u with
  | nil => exact matched
  | cons c u ih =>
    by_cases star : c = '*'
    · subst star
      exact .star (List.suffix_cons _ _) ih
    by_cases mark : c = '?'
    · subst mark
      exact .any ih
    · exact .literal star mark ih

theorem matches_marks (t : List Char) : Matches (List.replicate t.length '?') t := by
  induction t with
  | nil => exact .nil
  | cons c t ih => exact .any ih

theorem Accepts.length_eq {p t : List Char} (accepted : Accepts p t) (starless : '*' ∉ p) :
    p.length = t.length := by
  induction accepted with
  | nil => rfl
  | star => exact absurd List.mem_cons_self starless
  | any _ ih | same _ ih =>
    simpa using ih fun later => starless (List.mem_cons_of_mem _ later)

/-- The matcher decides what is accepted. It matches no text that it should not. It is right about a
text under all patterns if and only if the text has no star, and right about all texts under a
pattern if and only if the pattern has none. -/
theorem matchesSegment_agrees (p t : List Char) :
    (matchesSegment p t = true ↔ Accepts p t) ∧
    (matchesSegment p t = true → Matches p t) ∧
    ((∀ q, matchesSegment q t = true ↔ Matches q t) ↔ '*' ∉ t) ∧
    ((∀ u, matchesSegment p u = true ↔ Matches p u) ↔ '*' ∉ p) := by
  refine ⟨matchesSegment_iff_accepts p t, ?_⟩
  simp only [matchesSegment_iff_accepts]
  refine ⟨Accepts.matches, ⟨?_, ?_⟩, ⟨?_, ?_⟩⟩
  · intro agree star
    obtain ⟨u, v, rfl⟩ := List.append_of_mem star
    -- the star of the text is spent on the star of the pattern, and a character is missing behind it
    have matched : Matches (u ++ '*' :: List.replicate (v.length + 1) '?') (u ++ '*' :: v) :=
      .append u (.star (List.suffix_refl _) (matches_marks ('*' :: v)))
    have accepted := (agree _).mpr matched
    rw [accepts_append, accepts_cons (.inr rfl)] at accepted
    have same := accepted.length_eq (by simp)
    simp at same
  · intro starless q
    exact ⟨Accepts.matches, fun matched => matched.accepts (.inr starless)⟩
  · intro agree star
    obtain ⟨v, u, reversed, starless⟩ := List.eq_append_cons_of_mem (List.mem_reverse.mpr star)
    obtain rfl : p = u.reverse ++ '*' :: v.reverse := by simpa using congrArg List.reverse reversed
    -- the last star of the pattern is spent on the first of two stars
    have itself : Matches v.reverse v.reverse := by simpa using Matches.append v.reverse .nil
    have matched : Matches (u.reverse ++ '*' :: v.reverse) (u.reverse ++ '*' :: '*' :: v.reverse) :=
      .append _ (.star (List.suffix_append ['*', '*'] _) itself)
    have accepted := (agree _).mpr matched
    rw [accepts_append, accepts_cons (.inr rfl)] at accepted
    have same := accepted.length_eq (by simpa using starless)
    simp at same
  · intro starless u
    exact ⟨Accepts.matches, fun matched => matched.accepts (.inl starless)⟩

/-- A star should match all of a name that begins with a star, and matches only its first
character. -/
theorem refused_star : Matches ['*'] ['*', 'a'] ∧ matchesSegment ['*'] ['*', 'a'] = false ∧
    isMatch "*" "*a" = false := by
  refine ⟨.star (List.suffix_append ['*', 'a'] []) .nil, ?_, ?_⟩
  · decide +kernel
  · decide +kernel

end RepoAudit.Glob
