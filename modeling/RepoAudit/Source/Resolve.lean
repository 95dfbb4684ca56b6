import RepoAudit.Files.Path
import RepoAudit.Ordered.Set

/-!
# Resolving imports

The tracked file that an import means, if there is one: the first of the candidates that its
language allows.
-/

namespace RepoAudit.Source

open Text Files

/-- Goes from a directory along a relative path; there is nothing above the root. -/
def goAlong (dir : List (List Char)) : List (List Char) → Option (List (List Char))
  | [] => some dir
  | name :: rest =>
    if name.isEmpty || name == ['.'] then goAlong dir rest
    else if name == ['.', '.'] then if dir.isEmpty then none else goAlong dir.dropLast rest
    else goAlong (dir ++ [name]) rest

/-- The path that a relative path means below a directory. -/
def joined? (dir rel : List Char) : Option (List Char) :=
  (goAlong ((fields '/' dir).filter (!·.isEmpty)) (fields '/' rel)).map (join ['/'])

/-! ### Python -/

/-- The directory `n` levels up. -/
def climb : Nat → List Char → Option (List Char)
  | 0, dir => some dir
  | n + 1, dir => if dir.isEmpty then none else climb n (parent dir)

/-- Joins two paths, either of which may be empty. -/
def joinPaths (dir rest : List Char) : List Char :=
  if dir.isEmpty then rest else if rest.isEmpty then dir else dir ++ '/' :: rest

/-- The files of a module below a directory. -/
def pythonFiles (module dir : List Char) : List (List Char) :=
  let stem := joinPaths dir module
  (if module.isEmpty then [] else [stem ++ ".py".toList]) ++
    [joinPaths stem "__init__.py".toList]

/-- Each leading dot but the first leads one directory up; without dots a module is looked for at
the root and in `src`. -/
def pythonCandidates (source target : List Char) : List (List Char) :=
  let dots := (target.takeWhile (· == '.')).length
  let module := replaceChar '.' ['/'] (target.drop dots)
  if dots = 0 then pythonFiles module [] ++ pythonFiles module "src".toList
  else match climb (dots - 1) (parent source) with
    | some dir => pythonFiles module dir
    | none => []

/-! ### JavaScript and TypeScript -/

/-- The extensions that an import may leave out, in the order in which they are tried. -/
def scriptExtensions : List String := ["ts", "tsx", "js", "jsx", "mjs", "cjs"]

def scriptCandidates (source target : List Char) : List (List Char) :=
  if target.head? != some '.' then []
  else match joined? (parent source) target with
    | none => []
    | some path =>
      path :: scriptExtensions.map (fun ext => path ++ '.' :: ext.toList) ++
        scriptExtensions.map fun ext => path ++ "/index.".toList ++ ext.toList

/-! ### Rust -/

/-- The files of a submodule that a file declares. -/
def submoduleCandidates (source name : List Char) : List (List Char) :=
  let file := ((cutLast? '/' source).map (·.2)).getD source
  let base := if file == "mod.rs".toList || file == "lib.rs".toList || file == "main.rs".toList
    then parent source
    else below (parent source) (dropAllEnd ".rs".toList file)
  let here := if base.isEmpty then [] else base ++ ['/']
  [here ++ name ++ ".rs".toList, here ++ name ++ "/mod.rs".toList]

/-- Splits a path of a crate at its double colons. -/
def segments : List Char → List (List Char)
  | [] => [[]]
  | ':' :: ':' :: rest => [] :: segments rest
  | c :: rest => match segments rest with
    | first :: others => (c :: first) :: others
    | [] => [[c]]

/-- Cuts a text behind the last occurrence of a word. -/
def throughLast? (word : List Char) (cs : List Char) : Option (List Char) :=
  (cutWord? word.reverse cs.reverse).map fun (_, before) => before.reverse ++ word

/-- The files that `crate::…` may mean, the longest module path first. -/
def crateCandidates (source path : List Char) : List (List Char) :=
  match throughLast? "src/".toList source with
  | none => []
  | some root =>
    let names := segments path
    (List.range names.length).reverse.flatMap fun i =>
      let module := root ++ join ['/'] (names.take (i + 1))
      [module ++ ".rs".toList, module ++ "/mod.rs".toList]

def rustCandidates (source target : List Char) : List (List Char) :=
  match dropStart? "mod ".toList target with
  | some name => submoduleCandidates source name
  | none => match dropStart? "crate::".toList target with
    | some path => crateCandidates source path
    | none => []

/-! ### All languages -/

/-- The first tracked file at the path of a class, in any directory. -/
def javaFile? (target : List Char) (tracked : List String) : Option String :=
  if (dropEnd? ".*".toList target).isSome then none
  else
    let path := replaceChar '.' ['/'] target ++ ".java".toList
    tracked.find? fun p => p.toList == path || (dropEnd? ('/' :: path) p.toList).isSome

def candidates (language : String) (source target : List Char) : List (List Char) :=
  if language == "python" then pythonCandidates source target
  else if language == "javascript" || language == "typescript" then scriptCandidates source target
  else if language == "rust" then rustCandidates source target
  else []

/-- The tracked file that an import of `target` in the file `source` means. -/
def resolve? (language source target : String) (tracked : SortedSet String) : Option String :=
  if language == "java" then javaFile? target.toList tracked.toList
  else ((candidates language source.toList target.toList).map String.ofList).find? fun c =>
    c != source && tracked.contains c

end RepoAudit.Source
