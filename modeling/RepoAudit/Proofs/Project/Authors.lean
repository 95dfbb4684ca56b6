import RepoAudit.Proofs.History.Totals
import RepoAudit.Proofs.Text.Names

/-!
# Contributors of a history

An address makes a contributor, in any case and without the blanks around it; a name stands in for a
blank address with no more than its words of ASCII letters and digits. So contributors with other
names are one contributor as soon as these words are the same.
-/

namespace RepoAudit.Project

open Text

/-! ### Addresses -/

/-- An address in the form in which it is hashed. -/
def address (email : String) : String := lowered (trimmed email)

def Blank (email : String) : Prop := ∀ c ∈ email.toList, isBlank c = true

theorem address_eq_empty {email : String} : address email = "" ↔ Blank email := by
  rw [address, lowered, trimmed, ← String.toList_inj, String.toList_ofList, String.toList_ofList]
  exact lower_eq_nil.trans trim_eq_nil

/-! ### Hashes -/

theorem mem_hexDigits {count n : Nat} {c : Char} (digit : c ∈ Digest.hexDigits count n) :
    ∃ d < 16, c = Nat.digitChar d := by
  induction count with
  | zero => cases digit
  | succ count ih =>
    rcases List.mem_cons.mp digit with rfl | digit
    · exact ⟨_, Nat.mod_lt _ (by decide), rfl⟩
    · exact ih digit

theorem mem_shortHash {s : String} {c : Char} (inside : c ∈ (Digest.shortHash s).toList) :
    ∃ d < 16, c = Nat.digitChar d := by
  rw [Digest.shortHash, String.toList_ofList] at inside
  have digit := List.mem_of_mem_take inside
  rw [Digest.Sha256.hexDigest, String.toList_join, List.mem_flatMap] at digit
  obtain ⟨word, member, digit⟩ := digit
  obtain ⟨w, -, rfl⟩ := List.mem_map.mp member
  rw [Digest.hex, String.toList_ofList] at digit
  exact mem_hexDigits digit

/-- A hash does not begin as what stands for a name. -/
theorem named_ne_hashed (named s : String) :
    "repo:person/name-" ++ named ≠ "repo:person/" ++ Digest.shortHash s := by
  intro same
  have chars : "name-".toList ++ named.toList = (Digest.shortHash s).toList := by
    have split : "repo:person/name-" = "repo:person/" ++ "name-" := rfl
    rw [split, String.append_assoc, String.append_right_inj] at same
    rw [← same, String.toList_append]
  have inside : 'n' ∈ (Digest.shortHash s).toList := chars ▸ .head _
  obtain ⟨d, small, digit⟩ := mem_shortHash inside
  revert d
  decide

/-! ### Identifiers -/

theorem personId_blank {email : String} (blank : Blank email) (name : String) :
    personId name email = "repo:person/name-" ++ slug (normalizedName name) := by
  have empty := address_eq_empty.mpr blank
  rw [address] at empty
  rw [personId, empty]
  rfl

theorem personId_filled {email : String} (filled : ¬ Blank email) (name : String) :
    personId name email = "repo:person/" ++ Digest.shortHash (address email) := by
  have some := mt address_eq_empty.mp filled
  rw [address] at some
  rw [personId, address]
  exact if_neg (by simpa using some)

theorem personId_ideographs {name email : String} (ideographs : ∀ c ∈ name.toList, Ideograph c)
    (blank : Blank email) : personId name email = "repo:person/name-" := by
  rw [personId_blank blank, slug_ideographs ideographs]
  rfl

/-- Two addresses that are only hashed to the same if they are the same. -/
def HashesApart (email email' : String) : Prop :=
  Digest.shortHash (address email) = Digest.shortHash (address email') →
    address email = address email'

/-- The same address, or the same name without one. -/
def SameIdentity (name email name' email' : String) : Prop :=
  ¬ Blank email ∧ ¬ Blank email' ∧ address email = address email' ∨
    Blank email ∧ Blank email' ∧ normalizedName name = normalizedName name'

/-- The same address, or the same words in the names without one. -/
def SameWords (name email name' email' : String) : Prop :=
  ¬ Blank email ∧ ¬ Blank email' ∧ address email = address email' ∨
    Blank email ∧ Blank email' ∧
      slugWords (normalizedName name).toList = slugWords (normalizedName name').toList

theorem personId_eq_iff {email email' : String} (apart : HashesApart email email')
    (name name' : String) :
    personId name email = personId name' email' ↔ SameWords name email name' email' := by
  by_cases blank : Blank email <;> by_cases blank' : Blank email'
  · rw [personId_blank blank, personId_blank blank', String.append_right_inj, slug_eq_iff]
    simp [SameWords, blank, blank']
  · rw [personId_blank blank, personId_filled blank']
    simp [SameWords, blank, blank', named_ne_hashed]
  · rw [personId_filled blank, personId_blank blank']
    simp [SameWords, blank, blank', (named_ne_hashed _ _).symm]
  · rw [personId_filled blank, personId_filled blank', String.append_right_inj]
    simp only [SameWords, blank, blank', not_false_eq_true, true_and, false_and, or_false]
    exact ⟨apart, congrArg Digest.shortHash⟩

theorem SameIdentity.words {name email name' email' : String}
    (same : SameIdentity name email name' email') : SameWords name email name' email' :=
  same.imp_right fun ⟨blank, blank', names⟩ => ⟨blank, blank', by rw [names]⟩

/-! ### Contributors -/

open History

theorem id_withOwned {files : List File} {counts : String → Bool} {entries : List Entry}
    {id : String} {person : Person}
    (known : (withOwned files (people (entries.map (touch counts)))).get? id = some person) :
    person.id = id := by
  rw [get?_withOwned] at known
  obtain ⟨first, found, rfl⟩ := Option.map_eq_some_iff.mp known
  have own := (List.mem_filter.mp (List.mem_of_mem_head? found)).2
  rw [decide_eq_true_eq] at own
  simp only [personOf, own]

/-- What a history makes of the authors of two commits. -/
theorem contributors_eq_iff (p : Project) (config : Config) {entries : List Entry} {a b : Entry}
    (first : a ∈ entries) (second : b ∈ entries) : ∃ x y,
      (p.withHistory config entries).contributors.get? a.author = some x ∧
      (p.withHistory config entries).contributors.get? b.author = some y ∧
      (x = y ↔ a.author = b.author) := by
  have known (e : Entry) (member : e ∈ entries) : ∃ person,
      (p.withHistory config entries).contributors.get? e.author = some person ∧
        person.id = e.author := by
    rw [withHistory_eq]
    obtain ⟨person, known⟩ :=
      (exists_person_iff _ (p.counts config) entries e.author).mpr ⟨e, member, rfl⟩
    exact ⟨person, known, id_withOwned known⟩
  obtain ⟨x, found, id⟩ := known a first
  obtain ⟨y, found', id'⟩ := known b second
  refine ⟨x, y, found, found', fun same => ?_, fun same => ?_⟩
  · rw [← id, same, id']
  · rw [same, found'] at found
    exact (Option.some.inj found).symm

/-- Contributors are told apart by their addresses, and without one by the words of ASCII letters
and digits in their names. So identities are told apart unless different names have the same words,
and always if the names have nothing else but blanks. -/
theorem contributors_apart (name email name' email' : String) (apart : HashesApart email email') :
    (personId name email = personId name' email' ↔ SameWords name email name' email') ∧
    (SameIdentity name email name' email' → personId name email = personId name' email') ∧
    ((personId name email = personId name' email' ↔ SameIdentity name email name' email') ↔
      (Blank email → Blank email' →
        slugWords (normalizedName name).toList = slugWords (normalizedName name').toList →
          normalizedName name = normalizedName name')) ∧
    (PlainName name → PlainName name' →
      (personId name email = personId name' email' ↔ SameIdentity name email name' email')) ∧
    ∀ (p : Project) (config : Config) (entries : List Entry), ∀ a ∈ entries, ∀ b ∈ entries,
      a.name = name ∧ a.email = email → b.name = name' ∧ b.email = email' → ∃ x y,
        (p.withHistory config entries).contributors.get? (personId name email) = some x ∧
        (p.withHistory config entries).contributors.get? (personId name' email') = some y ∧
        (x = y ↔ SameWords name email name' email') := by
  have ids := personId_eq_iff apart name name'
  refine ⟨ids, fun same => ids.mpr same.words, ?_, fun plain plain' => ?_, ?_⟩
  · rw [ids]
    constructor
    · intro agree blank blank' words
      rcases agree.mp (.inr ⟨blank, blank', words⟩) with ⟨filled, -⟩ | ⟨-, -, names⟩
      · exact absurd blank filled
      · exact names
    · intro told
      refine ⟨fun same => ?_, SameIdentity.words⟩
      exact same.imp_right fun ⟨blank, blank', words⟩ => ⟨blank, blank', told blank blank' words⟩
  · refine ids.trans ⟨fun same => same.imp_right fun ⟨blank, blank', words⟩ => ?_,
      SameIdentity.words⟩
    exact ⟨blank, blank', (slug_normalizedName_iff plain plain').mp (slug_eq_iff.mpr words)⟩
  · rintro p config entries a first b second ⟨rfl, rfl⟩ ⟨rfl, rfl⟩
    obtain ⟨x, y, known, known', same⟩ := contributors_eq_iff p config first second
    exact ⟨x, y, known, known', same.trans ids⟩

theorem contributors_apart_ann :
    let ann : Entry := ⟨"1", "Ann", " Ann@X.io", ⟨0, 0⟩, "begin", []⟩
    let bob : Entry := ⟨"2", "Bob", "bob@x.io", ⟨60, 0⟩, "go on", []⟩
    HashesApart ann.email bob.email ∧ personId ann.name ann.email ≠ personId bob.name bob.email ∧
    ¬ SameIdentity ann.name ann.email bob.name bob.email ∧
    ∃ x y, (withHistory ∅ {} [ann, bob]).contributors.get? ann.author = some x ∧
      (withHistory ∅ {} [ann, bob]).contributors.get? bob.author = some y ∧ x ≠ y := by
  intro ann bob
  have apart : HashesApart ann.email bob.email := fun same => absurd same (by decide +kernel)
  have filled : ¬ Blank ann.email := by
    rw [← address_eq_empty]
    decide +kernel
  have other : ¬ SameWords ann.name ann.email bob.name bob.email := by
    rintro (⟨-, -, same⟩ | ⟨blank, -⟩)
    · exact absurd same (by decide +kernel)
    · exact filled blank
  have names : PlainName "Ann" ∧ PlainName "Bob" := by simp [PlainName]
  obtain ⟨ids, -, -, plain, merged⟩ := contributors_apart ann.name ann.email bob.name bob.email apart
  obtain ⟨x, y, known, known', equal⟩ :=
    merged ∅ {} [ann, bob] ann (.head _) bob (.tail _ (.head _)) ⟨rfl, rfl⟩ ⟨rfl, rfl⟩
  have distinct := mt ids.mp other
  exact ⟨apart, distinct, mt (plain names.1 names.2).mpr distinct, x, y, known, known',
    mt equal.mp other⟩

/-- Names of ideographs are all the same contributor without an address. -/
theorem ideographs_merged :
    let lee : Entry := ⟨"1", "李", "", ⟨0, 0⟩, "begin", []⟩
    let king : Entry := ⟨"2", "王", "", ⟨60, 0⟩, "go on", []⟩
    normalizedName lee.name ≠ normalizedName king.name ∧
    personId lee.name lee.email = personId king.name king.email ∧
    ∃ person, (withHistory ∅ {} [lee, king]).contributors.get? lee.author = some person ∧
      (withHistory ∅ {} [lee, king]).contributors.get? king.author = some person ∧
      person.commits = 2 := by
  intro lee king
  have names : (∀ c ∈ "李".toList, Ideograph c) ∧ ∀ c ∈ "王".toList, Ideograph c := by
    simp [Ideograph]
  have blank : Blank "" := by simp [Blank]
  have same : lee.author = king.author := by
    rw [Entry.author, Entry.author, personId_ideographs names.1 blank,
      personId_ideographs names.2 blank]
  refine ⟨?_, same, ?_⟩
  · rw [normalizedName_ideographs names.1, normalizedName_ideographs names.2]
    decide
  · have first : lee ∈ [lee, king] := .head _
    have second : king ∈ [lee, king] := .tail _ (.head _)
    obtain ⟨x, y, known, known', merged⟩ := contributors_eq_iff ∅ {} first second
    refine ⟨x, known, merged.mpr same ▸ known', ?_⟩
    rw [withHistory_eq] at known
    rw [(personAccount_withOwned known).commits]
    simp [same]

end RepoAudit.Project
