import Mathlib.Logic.Basic
import Mathlib.Logic.ExistsUnique
import Mathlib.Logic.Relation
import RepoAudit.Proofs.Text.Fields
import RepoAudit.Source.Resolve

/-!
# Relative imports

A path is shortened where a segment leads nowhere or where a step up follows a name. In the end it
consists of names, or it begins with a step up from the root. `resolve?_relative` says which files
a relative import can mean by these names, and that the index file at the root is missed.
-/

namespace RepoAudit.Source

open Text Files Relation

/-! ### Paths shortened -/

/-- What a segment of a path means. -/
inductive Turn where
  | stay
  | up
  | name (n : List Char)

def turnOf (segment : List Char) : Turn :=
  if segment = [] ∨ segment = ['.'] then .stay
  else if segment = ['.', '.'] then .up
  else .name segment

/-- A path is shortened in one place. -/
inductive Shortens : List Turn → List Turn → Prop
  | stay (before after : List Turn) : Shortens (before ++ .stay :: after) (before ++ after)
  | up (n : List Char) (before after : List Turn) :
    Shortens (before ++ .name n :: .up :: after) (before ++ after)

/-- A path can be shortened to names. -/
def LeadsTo (turns : List Turn) (names : List (List Char)) : Prop :=
  ReflTransGen Shortens turns (names.map .name)

/-- A path can be shortened to one that leads up from the root. -/
def Climbs (turns : List Turn) : Prop := ∃ rest, ReflTransGen Shortens turns (.up :: rest)

/-! ### Paths walked along -/

/-- Where a path leads from a directory. -/
def walk (dir : List (List Char)) : List Turn → Option (List (List Char))
  | [] => some dir
  | .stay :: rest => walk dir rest
  | .up :: rest => if dir.isEmpty then none else walk dir.dropLast rest
  | .name n :: rest => walk (dir ++ [n]) rest

theorem goAlong_eq_walk (dir segments : List (List Char)) :
    goAlong dir segments = walk dir (segments.map turnOf) := by
  induction segments generalizing dir with
  | nil => rfl
  | cons s rest ih =>
    rw [goAlong, List.map_cons, turnOf]
    by_cases here : s = [] ∨ s = ['.']
    · rw [if_pos (by simpa using here), if_pos here, walk, ih]
    · rw [if_neg (by simpa using here), if_neg here]
      by_cases above : s = ['.', '.']
      · rw [if_pos (by simpa using above), if_pos above, walk, ih]
      · rw [if_neg (by simpa using above), if_neg above, walk, ih]

theorem walk_append (dir : List (List Char)) (a b : List Turn) :
    walk dir (a ++ b) = (walk dir a).bind (walk · b) := by
  induction a generalizing dir with
  | nil => rfl
  | cons turn a ih =>
    cases turn with
    | stay | name => exact ih _
    | up =>
      rw [List.cons_append, walk, walk]
      split
      · rfl
      · exact ih _

theorem walk_names (dir names : List (List Char)) :
    walk dir (names.map .name) = some (dir ++ names) := by
  induction names generalizing dir with
  | nil => rw [List.map_nil, walk, List.append_nil]
  | cons n names ih => rw [List.map_cons, walk, ih, List.append_assoc, List.singleton_append]

theorem walk_names_append (names : List (List Char)) (turns : List Turn) :
    walk [] (names.map .name ++ turns) = walk names turns := by
  rw [walk_append, walk_names, Option.bind_some, List.nil_append]

/-- A shortened path leads where the path led. -/
theorem Shortens.walk_eq {a b : List Turn} (shortens : Shortens a b) (dir : List (List Char)) :
    walk dir a = walk dir b := by
  cases shortens with
  | stay before after => rw [walk_append, walk_append]; rfl
  | up n before after =>
    rw [walk_append, walk_append]
    refine congrArg _ (funext fun place => ?_)
    rw [walk, walk, List.dropLast_concat]
    simp

theorem walk_eq_of_shortened {a b : List Turn} (shortened : ReflTransGen Shortens a b) :
    walk [] a = walk [] b := by
  induction shortened with
  | refl => rfl
  | tail _ last ih => rw [ih, last.walk_eq]

/-- How a path ends up that is shortened as far as possible. -/
def EndsUp (turns : List Turn) : Option (List (List Char)) → Prop
  | some names => LeadsTo turns names
  | none => Climbs turns

theorem EndsUp.of_shortens {a b : List Turn} (shortens : Shortens a b)
    {outcome : Option (List (List Char))} (ends : EndsUp b outcome) : EndsUp a outcome := by
  cases outcome with
  | some names => exact .head shortens ends
  | none =>
    obtain ⟨rest, shortened⟩ := ends
    exact ⟨rest, .head shortens shortened⟩

theorem endsUp_walk (dir : List (List Char)) (turns : List Turn) :
    EndsUp (dir.map .name ++ turns) (walk dir turns) := by
  induction turns generalizing dir with
  | nil =>
    rw [walk, List.append_nil]
    exact .refl
  | cons turn rest ih =>
    cases turn with
    | stay => exact .of_shortens (.stay _ rest) (ih dir)
    | up =>
      rcases List.eq_nil_or_concat dir with rfl | ⟨above, n, rfl⟩
      · exact ⟨rest, .refl⟩
      · have shortens := Shortens.up n (above.map .name) rest
        rw [walk, List.concat_eq_append, List.dropLast_concat, List.map_append,
          List.append_assoc]
        simpa using EndsUp.of_shortens shortens (ih above)
    | name n =>
      have further := ih (dir ++ [n])
      rwa [List.map_append, List.append_assoc] at further

theorem leadsTo_iff {turns : List Turn} {names : List (List Char)} :
    LeadsTo turns names ↔ walk [] turns = some names := by
  refine ⟨fun leads => ?_, fun walked => ?_⟩
  · rw [walk_eq_of_shortened leads, walk_names, List.nil_append]
  · have ends := endsUp_walk [] turns
    rwa [walked] at ends

theorem climbs_iff {turns : List Turn} : Climbs turns ↔ walk [] turns = none := by
  refine ⟨?_, fun walked => ?_⟩
  · rintro ⟨rest, shortened⟩
    rw [walk_eq_of_shortened shortened]
    rfl
  · have ends := endsUp_walk [] turns
    rwa [walked] at ends

/-! ### The way from a source to a target -/

/-- The way from the directory of a source along the segments of a target. The names of the
directory are names whatever they look like. -/
def way (source target : String) : List Turn :=
  ((fields '/' (parent source.toList)).filter (!·.isEmpty)).map .name ++
    (fields '/' target.toList).map turnOf

/-- The way as it is written: the directory of the source, a slash and the target. -/
def writtenWay (source target : String) : List Turn :=
  (fields '/' (parent source.toList ++ '/' :: target.toList)).map turnOf

theorem joined?_eq_walk (source target : String) :
    joined? (parent source.toList) target.toList =
      (walk [] (way source target)).map (join ['/']) := by
  rw [joined?, goAlong_eq_walk, way, walk_names_append]

theorem walk_turnOf {segments : List (List Char)}
    (plain : ∀ s ∈ segments, s ≠ ['.'] ∧ s ≠ ['.', '.']) (dir : List (List Char)) :
    walk dir (segments.map turnOf) = walk dir ((segments.filter (!·.isEmpty)).map .name) := by
  induction segments generalizing dir with
  | nil => rfl
  | cons s rest ih =>
    obtain ⟨⟨noDot, noDots⟩, later⟩ := List.forall_mem_cons.mp plain
    cases s with
    | nil => exact ih later dir
    | cons c s =>
      have name : turnOf (c :: s) = .name (c :: s) := by simp [turnOf, noDot, noDots]
      rw [List.map_cons, name, walk, ih later]
      rfl

/-- Both ways lead to the same place, unless a directory has the name of a step. -/
theorem walk_writtenWay {source : String} (plain : ∀ s ∈ fields '/' (parent source.toList),
      s ≠ ['.'] ∧ s ≠ ['.', '.']) (target : String) :
    walk [] (writtenWay source target) = walk [] (way source target) := by
  rw [writtenWay, way, fields_append_cons, List.map_append, walk_append, walk_append,
    walk_turnOf plain]

/-! ### Candidates -/

/-- The first of some paths at which a tracked file other than the source is. -/
def firstTracked? (source : String) (tracked : SortedSet String) (paths : List (List Char)) :
    Option String :=
  (paths.map String.ofList).find? fun path => path != source && tracked.contains path

/-- The file of some name, also with an extension that is left out. -/
def plainPlaces (names : List (List Char)) : List (List Char) :=
  join ['/'] names :: scriptExtensions.map fun ext => join ['/'] names ++ '.' :: ext.toList

/-- The index files of a directory. -/
def indexPlaces (names : List (List Char)) : List (List Char) :=
  scriptExtensions.map fun ext => join ['/'] (names ++ ["index.".toList ++ ext.toList])

variable {source target : String} {tracked : SortedSet String}

theorem firstTracked?_append (xs ys : List (List Char)) :
    firstTracked? source tracked (xs ++ ys) =
      (firstTracked? source tracked xs).or (firstTracked? source tracked ys) := by
  rw [firstTracked?, List.map_append, List.find?_append, firstTracked?, firstTracked?]

theorem firstTracked?_eq_none_iff {paths : List (List Char)} :
    firstTracked? source tracked paths = none ↔
      ∀ path ∈ paths, String.ofList path = source ∨ String.ofList path ∉ tracked := by
  rw [firstTracked?, List.find?_eq_none]
  simp [Decidable.or_iff_not_imp_left]

theorem mem_of_firstTracked? {paths : List (List Char)} {path : String}
    (found : firstTracked? source tracked paths = some path) : path.toList ∈ paths := by
  obtain ⟨cs, listed, rfl⟩ := List.mem_map.mp (List.mem_of_find?_eq_some found)
  rwa [String.toList_ofList]

theorem resolve?_script {language : String}
    (script : language = "javascript" ∨ language = "typescript") :
    resolve? language source target tracked =
      firstTracked? source tracked (scriptCandidates source.toList target.toList) := by
  rcases script with rfl | rfl <;> simp [resolve?, candidates, firstTracked?]

/-- The index files as they are looked for: a slash stands in front of them also at the root. -/
def slashPlaces (names : List (List Char)) : List (List Char) :=
  scriptExtensions.map fun ext => join ['/'] names ++ "/index.".toList ++ ext.toList

theorem scriptCandidates_eq (relative : target.toList.head? = some '.') :
    scriptCandidates source.toList target.toList = match walk [] (way source target) with
      | some names => plainPlaces names ++ slashPlaces names
      | none => [] := by
  rw [scriptCandidates, if_neg (by simp [relative]), joined?_eq_walk]
  cases walk [] (way source target) <;> rfl

theorem slashPlaces_eq {names : List (List Char)} (filled : names ≠ []) :
    slashPlaces names = indexPlaces names := by
  refine List.map_congr_left fun ext _ => ?_
  rw [join_append filled (List.cons_ne_nil _ []), join.eq_def _ [_], List.intercalate_singleton,
    List.append_assoc]
  rfl

/-- At the root both ways to write the index files lead to the same result only if neither leads to
any or another file is found before. -/
theorem firstTracked?_root_iff :
    firstTracked? source tracked (plainPlaces [] ++ slashPlaces []) =
        firstTracked? source tracked (plainPlaces [] ++ indexPlaces []) ↔
      (firstTracked? source tracked (plainPlaces [])).isSome = true ∨
        ∀ ext ∈ scriptExtensions, ∀ path ∈ ["index." ++ ext, "/index." ++ ext],
          path = source ∨ path ∉ tracked := by
  have index (ext : String) : String.ofList (join ['/'] ([] ++ ["index.".toList ++ ext.toList])) =
      "index." ++ ext := by
    rw [List.nil_append, join, List.intercalate_singleton, String.ofList_append,
      String.ofList_toList, String.ofList_toList]
  have slash (ext : String) : String.ofList (join ['/'] [] ++ "/index.".toList ++ ext.toList) =
      "/index." ++ ext := by
    rw [join, List.intercalate_nil, List.nil_append, String.ofList_append, String.ofList_toList,
      String.ofList_toList]
  have neither : (∀ ext ∈ scriptExtensions, ∀ path ∈ ["index." ++ ext, "/index." ++ ext],
      path = source ∨ path ∉ tracked) ↔ firstTracked? source tracked (indexPlaces []) = none ∧
        firstTracked? source tracked (slashPlaces []) = none := by
    simp only [firstTracked?_eq_none_iff, indexPlaces, slashPlaces, List.forall_mem_map, index,
      slash, List.forall_mem_cons, List.not_mem_nil, false_implies, implies_true, and_true]
    exact forall₂_and
  rw [neither, firstTracked?_append, firstTracked?_append]
  cases firstTracked? source tracked (plainPlaces []) with
  | some path => simp
  | none =>
    simp only [Option.none_or, Option.isSome_none, Bool.false_eq_true, false_or]
    refine ⟨fun same => ?_, fun absent => absent.2.trans absent.1.symm⟩
    cases found : firstTracked? source tracked (indexPlaces []) with
    | none => exact ⟨rfl, same.trans found⟩
    | some path =>
      have index := mem_of_firstTracked? found
      have slash := mem_of_firstTracked? (same.trans found)
      obtain ⟨ext, -, written⟩ := List.mem_map.mp index
      obtain ⟨ext', -, written'⟩ := List.mem_map.mp slash
      have differ := written'.trans written.symm
      simp [join] at differ

/-- The way to a relative target climbs above the root, and then nothing is found, or leads to a
path in normal form. What is found is then the first tracked file that this path can mean, unless it
is the root and the index file there decides. -/
theorem resolve?_relative {language : String}
    (script : language = "javascript" ∨ language = "typescript") {source target : String}
    (relative : target.toList.head? = some '.') (tracked : SortedSet String) :
    (Climbs (way source target) ∨ ∃! names, LeadsTo (way source target) names) ∧
    (Climbs (way source target) → resolve? language source target tracked = none) ∧
    (∀ names, LeadsTo (way source target) names →
      (resolve? language source target tracked =
          firstTracked? source tracked (plainPlaces names ++ indexPlaces names) ↔
        names ≠ [] ∨ (firstTracked? source tracked (plainPlaces [])).isSome = true ∨
          ∀ ext ∈ scriptExtensions, ∀ path ∈ ["index." ++ ext, "/index." ++ ext],
            path = source ∨ path ∉ tracked)) ∧
    ((∀ s ∈ fields '/' (parent source.toList), s ≠ ['.'] ∧ s ≠ ['.', '.']) →
      (Climbs (writtenWay source target) ↔ Climbs (way source target)) ∧
      ∀ names, LeadsTo (writtenWay source target) names ↔ LeadsTo (way source target) names) := by
  rw [resolve?_script script, scriptCandidates_eq relative]
  simp only [climbs_iff, leadsTo_iff]
  refine ⟨?_, fun above => ?_, fun names there => ?_, fun plain => ?_⟩
  · cases walk [] (way source target) with
    | none => exact .inl rfl
    | some names => exact .inr ⟨names, rfl, fun other same => (Option.some.inj same).symm⟩
  · rw [above]
    rfl
  · rw [there]
    by_cases root : names = []
    · subst root
      simpa using firstTracked?_root_iff
    · simp [slashPlaces_eq root, root]
  · simp only [walk_writtenWay plain, true_and, implies_true]

/-- The index file of a directory beside that of the source is found. -/
theorem resolve?_sibling :
    ("typescript" = "javascript" ∨ "typescript" = "typescript") ∧
    "../shared/".toList.head? = some '.' ∧
    LeadsTo (way "web/app.ts" "../shared/") ["shared".toList] ∧
    resolve? "typescript" "web/app.ts" "../shared/"
      (.ofList ["shared/index.js", "shared/index.ts"]) = some "shared/index.ts" := by
  have relative : "../shared/".toList.head? = some '.' := by decide
  have leads : LeadsTo (way "web/app.ts" "../shared/") ["shared".toList] :=
    leadsTo_iff.mpr (by decide +kernel)
  refine ⟨.inr rfl, relative, leads, ?_⟩
  have found := ((resolve?_relative (.inr rfl) relative
    (.ofList ["shared/index.js", "shared/index.ts"])).2.2.1 _ leads).mpr (.inl (by simp))
  rw [found]
  decide +kernel

/-- The way leads to the root, where an index file is tracked, and it is not found. -/
theorem resolve?_root_index :
    LeadsTo (way "main.js" ".") [] ∧
    firstTracked? "main.js" (.ofList ["index.js", "main.js"]) (plainPlaces [] ++ indexPlaces []) =
      some "index.js" ∧
    resolve? "javascript" "main.js" "." (.ofList ["index.js", "main.js"]) = none :=
  ⟨leadsTo_iff.mpr (by decide +kernel), by decide +kernel, by decide +kernel⟩

end RepoAudit.Source
