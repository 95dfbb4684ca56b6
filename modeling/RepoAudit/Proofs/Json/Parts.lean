import RepoAudit.Proofs.Json.Text
import RepoAudit.Proofs.Ordered.Gathering

/-!
# Parts read back

What the typed readers make of values that were written: texts, counts, lists, maps and the fields
of records.
-/

namespace RepoAudit.Json

open Document

/-! ### Single values -/

/-- A count that a machine holds in a word of 64 bits. -/
def IsWord (n : Nat) : Prop := n < Nat.pow 2 64

instance (n : Nat) : Decidable (IsWord n) := inferInstanceAs (Decidable (n < Nat.pow 2 64))

/-- A number that is read as it was written. -/
def ReadsBack (x : Float) : Prop := (ofText? (Json.float x).pretty.toList).bind float? = some x

instance (x : Float) : Decidable (ReadsBack x) := inferInstanceAs (Decidable (_ = some x))

theorem readsBack_iff {x : Float} : ReadsBack x ↔ float? (Json.float x).written = some x := by
  rw [ReadsBack, ofText?_pretty, Option.bind_some]

@[simp] theorem string?_written (s : String) : string? (Json.string s).written = some s := by
  simp [written, string?, piecesOf, characters?_pieceOf]

@[simp] theorem choice?_written (s : String) : choice? (Json.string s).written = some s := by
  simp [written, choice?, piecesOf, characters?_pieceOf]

@[simp] theorem bool?_written (b : Bool) : bool? (Json.bool b).written = some b := by
  simp [written, bool?]

theorem nat?_written {n : Nat} (word : IsWord n) : nat? (Json.nat n).written = some n := by
  have small : n < Nat.pow 2 64 := word
  simp [Json.nat, written, nat?, intNumeral, Numeral.nat?, Numeral.isWhole, natOfDigits_digits, small]

/-- A reader that refuses `null` may be asked for an optional value. -/
theorem optional?_of_found {α : Type} {read : Document → Option α} (refused : read .null = none)
    {d : Document} {a : α} (found : read d = some a) : optional? read d = some (some a) := by
  cases d with
  | null =>
    rw [refused] at found
    cases found
  | _ => simp [optional?, found]

theorem optional?_string (s : String) : optional? string? (Json.string s).written = some (some s) :=
  optional?_of_found rfl (string?_written s)

/-! ### Lists and maps -/

theorem mapM_of_each {α : Type} {read : α → Option α} {as : List α}
    (each : ∀ a ∈ as, read a = some a) : as.mapM read = some as := by
  induction as with
  | nil => rfl
  | cons a rest ih =>
    rw [List.mapM_cons, each a (.head _), ih fun b member => each b (.tail _ member)]
    rfl

theorem list?_written {α : Type} {f : α → Json} {read : Document → Option α} {as : List α}
    (each : ∀ a ∈ as, read (f a).written = some a) :
    list? read (Json.array (as.map f)).written = some as := by
  rw [written, list?, writtenItems_eq, List.map_map, List.mapM_map]
  exact mapM_of_each each

@[simp] theorem list?_strings (xs : List String) : list? string? (strings xs).written = some xs :=
  list?_written fun s _ => string?_written s

/-- An object whose names are free is read as the map that it was written from. -/
theorem map?_written {α : Type} {f : α → Json} {read : Document → Option α} {m : SortedMap String α}
    (each : ∀ a ∈ m.values, read (f a).written = some a) :
    map? read (Json.object (m.entries.map fun e => (e.1, f e.2))).written = some m := by
  rw [written, map?, writtenMembers_eq, List.map_map, List.mapM_map, mapM_of_each]
  · rw [Option.bind_eq_bind, Option.bind_some, SortedMap.ofList_entries]
  · intro e member
    have found := each e.2 (List.mem_map_of_mem member)
    simp [piecesOf, characters?_pieceOf, found]

/-! ### Values -/

theorem isSome_toJson?_string (depth : Nat) (s : String) :
    ((Json.string s).written.toJson? depth).isSome = true := by
  simp [written, toJson?, piecesOf, characters?_pieceOf]

/-- An object has a value one level deeper than its members have theirs. -/
theorem isSome_toJson?_object {depth : Nat} {members : List (String × Json)}
    (each : ∀ m ∈ members, (m.2.written.toJson? depth).isSome = true) :
    ((Json.object members).written.toJson? (depth + 1)).isSome = true := by
  have readable : (membersToJson? depth (writtenMembers members)).isSome = true := by
    induction members with
    | nil => simp [writtenMembers, membersToJson?]
    | cons m rest ih =>
      obtain ⟨v, value⟩ := Option.isSome_iff_exists.mp (each m (.head _))
      obtain ⟨vs, others⟩ := Option.isSome_iff_exists.mp (ih fun m member => each m (.tail _ member))
      simp [writtenMembers, membersToJson?, piecesOf, characters?_pieceOf, value, others]
  rw [written, toJson?, Option.isSome_map]
  exact readable

/-! ### Fields -/

/-- Some members have these names in their order, with none but these. -/
def Named (names : List String) (members : List (String × Json)) : Prop :=
  (members.map Prod.fst).Sublist names

theorem named_self (members : List (String × Json)) : Named (members.map Prod.fst) members := .refl _

theorem Named.append {names names' : List String} {members members' : List (String × Json)}
    (first : Named names members) (second : Named names' members') :
    Named (names ++ names') (members ++ members') := by
  rw [Named, List.map_append]
  exact List.Sublist.append first second

theorem named_member? {α : Type} {name : String} {f : α → Json} (a? : Option α) :
    Named [name] (member? name f a?) := by
  cases a? with
  | none => exact List.nil_sublist _
  | some a => exact .refl _

/-- The fields that are read of the members of an object. -/
def fieldsOf (members : List (String × Json)) : Fields :=
  members.map fun m => (m.1, m.2.written)

theorem lookup_fieldsOf (members : List (String × Json)) (name : String) :
    (fieldsOf members).lookup name = (members.lookup name).map written := by
  induction members with
  | nil => rfl
  | cons m rest ih =>
    rw [fieldsOf] at ih
    rw [fieldsOf, List.map_cons, List.lookup_cons, List.lookup_cons, ih]
    split <;> rfl

theorem addField?_written {names : List String} {found : Fields} {m : String × Json}
    (known : m.1 ∈ names) (new : m.1 ∉ found.map Prod.fst) :
    addField? names found (piecesOf m.1, m.2.written) = some (found ++ [(m.1, m.2.written)]) := by
  have absent : found.lookup m.1 = none := by
    rw [List.lookup_eq_none_iff]
    intro e member
    rw [bne_iff_ne]
    intro same
    exact new (same ▸ List.mem_map_of_mem member)
  simp [addField?, piecesOf, characters?_pieceOf, known, absent]

theorem foldlM_addField? {names : List String} {members : List (String × Json)} {found : Fields}
    (known : ∀ m ∈ members, m.1 ∈ names)
    (distinct : (found.map Prod.fst ++ members.map Prod.fst).Nodup) :
    (writtenMembers members).foldlM (addField? names) found =
      some (found ++ fieldsOf members) := by
  induction members generalizing found with
  | nil => simp [writtenMembers, fieldsOf]
  | cons m rest ih =>
    have new : m.1 ∉ found.map Prod.fst := fun member =>
      (List.nodup_append.mp distinct).2.2 _ member _ (.head _) rfl
    have others := ih (fun m member => known m (.tail _ member))
      (show ((found ++ [(m.1, m.2.written)]).map Prod.fst ++ rest.map Prod.fst).Nodup by
        simpa using distinct)
    rw [writtenMembers, List.foldlM_cons, addField?_written (known m (.head _)) new,
      Option.bind_eq_bind, Option.bind_some, others, List.append_assoc]
    rfl

/-- Members with known names, none of them twice, are read as fields. -/
theorem fields?_written {names : List String} {members : List (String × Json)}
    (named : Named names members) (distinct : names.Nodup) :
    fields? names (Json.object members).written = some (fieldsOf members) := by
  rw [written, fields?, foldlM_addField?, List.nil_append]
  · exact fun m member => named.subset (List.mem_map_of_mem member)
  · exact named.nodup distinct

/-- A reader of records goes on with the fields of the object. -/
theorem fields?_bind {α : Type} {names shown : List String} {members : List (String × Json)}
    {next : Fields → Option α} {result : Option α} (named : Named shown members)
    (same : shown = names) (distinct : names.Nodup) (read : next (fieldsOf members) = result) :
    (fields? names (Json.object members).written >>= next) = result := by
  subst same
  rw [fields?_written named distinct]
  exact read

namespace Document.Fields

variable {α : Type} {members : List (String × Json)} {name : String} {read : Document → Option α}

theorem required_fieldsOf : required (fieldsOf members) name read =
    (members.lookup name).bind fun v => read v.written := by
  rw [required, lookup_fieldsOf]
  cases members.lookup name <;> rfl

theorem orElse_fieldsOf {absent : α} : orElse (fieldsOf members) name read absent =
    (members.lookup name).elim (some absent) fun v => read v.written := by
  rw [orElse, lookup_fieldsOf]
  cases members.lookup name <;> rfl

/-- A member that is left out when there is no value is read as an optional value. -/
theorem elim_optional {f : α → Json} {a? : Option α} (refused : read .null = none)
    (each : ∀ a ∈ a?, read (f a).written = some a) :
    (a?.map f).elim (some none) (fun v => optional? read v.written) = some a? := by
  cases a? with
  | none => rfl
  | some a => exact optional?_of_found refused (each a rfl)

theorem elim_string (s? : Option String) :
    (s?.map Json.string).elim (some none) (fun v => optional? string? v.written) = some s? :=
  elim_optional rfl fun s _ => string?_written s

theorem elim_float {x? : Option Float} (each : ∀ x ∈ x?, ReadsBack x) :
    (x?.map Json.float).elim (some none) (fun v => optional? float? v.written) = some x? :=
  elim_optional rfl fun x held => readsBack_iff.mp (each x held)

end Document.Fields

/-! ### Members by name -/

theorem lookup_cons {name key : String} {v : Json} {rest : List (String × Json)} :
    ((name, v) :: rest).lookup key = if key = name then some v else rest.lookup key := by
  rw [List.lookup_cons]
  by_cases same : key = name
  · simp [same]
  · rw [beq_eq_false_iff_ne.mpr same, if_neg same]

theorem lookup_member? {α : Type} {name key : String} {f : α → Json} {a? : Option α} :
    (member? name f a?).lookup key = if key = name then a?.map f else none := by
  cases a? with
  | none => simp [member?]
  | some a => rw [member?, lookup_cons, List.lookup_nil, Option.map_some]

end RepoAudit.Json
