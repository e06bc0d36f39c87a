import CodeSurvey.Folder
import CodeSurvey.Language
import CodeSurvey.Sorting

/-!
The source files of a project: every file below its root whose name has a known extension, leaving
out folders that hold dependencies, build results or caches. In each folder the files come first,
sorted by name, and then the folders in sorted order, so repeated walks agree whatever the order in
which entries are listed.
-/

namespace CodeSurvey.SourceFiles

/-- The folders that are left out. -/
def skippedNames : List String := [
  ".venv", "venv", "__pycache__", "node_modules", ".git", "site-packages", ".tox",
  ".pytest_cache", "build", "dist", ".mypy_cache", ".ruff_cache", "htmlcov", ".eggs", "egg-info",
  ".planning", "coverage", "vendor", "target"]

/-- A folder with this name is left out. -/
def isSkipped (name : String) : Bool :=
  skippedNames.contains name || ".egg-info".toList.isSuffixOf name.toList

/-- A file with this name is a source file. -/
def isSource (name : String) : Bool := (Language.ofFileName? name.toList).isSome

/-- Pairs in the order of their names. -/
def byName {α : Type} (pairs : List (String × α)) : List (String × α) :=
  pairs.mergeSort fun a b => decide (a.1 ≤ b.1)

theorem byName_perm {α : Type} (pairs : List (String × α)) : (byName pairs).Perm pairs :=
  List.mergeSort_perm ..

theorem pairwise_byName {α : Type} (pairs : List (String × α)) :
    (byName pairs).Pairwise fun a b => a.1 ≤ b.1 :=
  Sorting.pairwise_smallestFirst (·.1) pairs

mutual

/-- The source files that a walk finds in an entry under the name of the entry: itself, or those of
    a folder, each by its components. -/
def found : Entry → List (List String)
  | .file name _ => if isSource name then [[name]] else []
  | .folder name entries =>
    if isSkipped name then []
    else
      let (files, folders) := foundIn entries
      ((byName files ++ byName folders).flatMap (·.2)).map (name :: ·)

/-- The files and the folders among entries, with the source files found in each. -/
def foundIn : List Entry → List (String × List (List String)) × List (String × List (List String))
  | [] => ([], [])
  | e :: more =>
    let (files, folders) := foundIn more
    if e.isFolder then (files, (e.name, found e) :: folders)
    else ((e.name, found e) :: files, folders)

end

/-- The source files of a folder as paths. -/
def walk (entries : Folder) : List String :=
  let (files, folders) := foundIn entries
  ((byName files ++ byName folders).flatMap (·.2)).map (String.intercalate "/")

end CodeSurvey.SourceFiles
