import CodeSurvey.Import.Scan
import CodeSurvey.Path
import CodeSurvey.Text.Lower

/-!
Resolving import specifiers to files of the project. A resolver lists the paths a specifier may
stand for, best first, and takes the first one that is a file; what lands on no file stays
unresolved, so packages from outside are never guessed at.
-/

namespace CodeSurvey.Import

open Text

/-- The first candidate that is one of the files. -/
def firstExisting (files : List String) (candidates : List (List Char)) : Option (List Char) :=
  candidates.find? fun c => files.contains (String.ofList c)

theorem mem_of_firstExisting {files : List String} {candidates : List (List Char)} {p : List Char}
    (h : firstExisting files candidates = some p) : String.ofList p ∈ files := by
  simpa using List.find?_some h

/-- The normal form of a path in which backslashes separate too. -/
def normalised (p : List Char) : List Char := Path.normalise (swap '\\' '/' p)

/-- What is left of a text without an ending, if it has that ending. -/
def dropEnding? (ending s : List Char) : Option (List Char) :=
  if ending.isSuffixOf s then some (s.take (s.length - ending.length)) else none

/-- What a relative path may stand for: the file itself, the file without its extension, the index
    of a directory, and a typed source named by the extension it is compiled to. -/
def scriptCandidates (base : List Char) : List (List Char) :=
  let withEndings := fun (stem : List Char) (endings : List String) =>
    endings.map fun e => stem ++ e.toList
  base :: withEndings base [".js", ".ts", ".tsx", ".jsx", ".cjs", ".mjs"] ++
    withEndings base ["/index.js", "/index.ts", "/index.tsx"] ++
    ((dropEnding? ".js".toList base).elim [] fun stem => withEndings stem [".ts", ".tsx"])

/-- Only relative specifiers resolve; a package name does not. -/
def resolveScript (specifier fromFile : List Char) (files : List String) : Option (List Char) :=
  if specifier.head? == some '.' then
    firstExisting files
      (scriptCandidates (normalised (Path.append (Path.directory fromFile) specifier)))
  else none

/-- The directory `n` levels up. -/
def ancestor : Nat → List Char → List Char
  | 0, dir => dir
  | n + 1, dir => ancestor n (Path.directory dir)

/-- The paths without extension that a module name may stand for. Each leading dot after the first
    goes up one directory; an absolute name starts at the root or at `src`. -/
def pythonRoots (specifier fromFile : List Char) : List (List Char) :=
  let rest := swap '.' '/' (specifier.dropWhile (· == '.'))
  match (specifier.takeWhile (· == '.')).length with
  | 0 => [rest, "src/".toList ++ rest]
  | up + 1 =>
    let base := ancestor up (Path.directory fromFile)
    let module := if rest.isEmpty then base else Path.append base rest
    if module.isEmpty then [] else [normalised module]

/-- A module is a source file, a package directory or a stub file. -/
def resolvePython (specifier fromFile : List Char) (files : List String) : Option (List Char) :=
  firstExisting files <| (pythonRoots specifier fromFile).flatMap fun root =>
    [".py", "/__init__.py", ".pyi"].map fun e => root ++ e.toList

/-- The file is a test of its package. -/
def isGoTest (file : List Char) : Bool := "_test.go".toList.isSuffixOf file

/-- Files before tests, and each kind by path. -/
def goBefore (a b : List Char) : Bool :=
  if isGoTest a == isGoTest b then decide (String.ofList a ≤ String.ofList b) else isGoTest b

/-- A package path stands for a directory that it ends with, or else for a directory of its last
    component's name; the first file of such a directory is taken. -/
def resolveGo (specifier : List Char) (files : List String) : Option (List Char) :=
  let package := Path.baseName (dropTrailing '/' specifier)
  if package.isEmpty then none
  else
    let sources := ((files.map String.toList).filter (".go".toList.isSuffixOf ·)).mergeSort goBefore
    let endsWith := fun (dir : List Char) =>
      !dir.isEmpty && (specifier == dir || ('/' :: dir).isSuffixOf specifier)
    match sources.find? fun f => endsWith (Path.directory f) with
    | some f => some f
    | none => sources.find? fun f => Path.baseName (Path.directory f) == package

/-- A capital letter that is not the first character gets an underscore in front. -/
def snakeCase : List Char → List Char
  | [] => []
  | c :: rest => lower (c :: rest.flatMap fun d => if d.isUpper then ['_', d] else [d])

/-- A module name stands for a file below `lib` or at the root, with its first segment or
    without. -/
def resolveElixir (specifier : List Char) (files : List String) : Option (List Char) :=
  let parts := ((pieces '.' specifier).filter (· != [])).map snakeCase
  let bases := [join ['/'] parts, join ['/'] (parts.drop 1)].filter (· != [])
  firstExisting files <| bases.flatMap fun base =>
    ["lib/".toList ++ base ++ ".ex".toList, base ++ ".ex".toList,
      "lib/".toList ++ base ++ "/index.ex".toList]

/-- The directory that holds the children of a file's module: its own directory if the file is the
    root of a module or crate, else one named after it. -/
def rustModuleDir (fromFile : List Char) : List Char :=
  let dir := Path.directory fromFile
  let stem := Path.stem (Path.baseName fromFile)
  if ["mod", "lib", "main"].contains (String.ofList stem) then dir
  else if dir.isEmpty then stem else Path.append dir stem

/-- Each leading `super` goes up one directory. -/
def rustClimb (base : List Char) : List (List Char) → List Char × List (List Char)
  | [] => (base, [])
  | s :: rest =>
    if s == "super".toList then rustClimb (Path.directory base) rest else (base, s :: rest)

/-- Where a path starts. -/
inductive RustRoot where
  | crate
  | currentModule
  | parentModule
  deriving DecidableEq, Repr

/-- The start that a first segment names; other first segments name other crates. -/
def RustRoot.ofSegment? (segment : List Char) : Option RustRoot :=
  [("crate", crate), ("self", currentModule), ("super", parentModule)].lookup
    (String.ofList segment)

/-- The directory where a path starts and the segments below it. -/
def RustRoot.start (root : RustRoot) (fromFile : List Char) (segments : List (List Char)) :
    List Char × List (List Char) :=
  match root with
  | crate => ("src".toList, segments)
  | currentModule => (rustModuleDir fromFile, segments)
  | parentModule => rustClimb (Path.directory (rustModuleDir fromFile)) segments

/-- The file of a module path below a directory: the last segments may name items inside a module,
    so ever shorter paths are tried. -/
def rustModuleFile? (files : List String) (base : List Char) (segments : List (List Char)) :
    Option (List Char) :=
  (List.range segments.length).reverse.findSome? fun n =>
    let module := normalised ((segments.take (n + 1)).foldl Path.append base)
    firstExisting files [module ++ ".rs".toList, module ++ "/mod.rs".toList]

/-- A path that starts at the crate or above falls back to the file of the module it starts
    from. -/
def resolveRust (specifier fromFile : List Char) (files : List String) : Option (List Char) :=
  let segments := piecesPair ':' ':' specifier
  match segments.head?.bind RustRoot.ofSegment? with
  | none => none
  | some root =>
    let (base, below) :=
      root.start fromFile ((segments.drop 1).filter fun s => s != [] && s != ['*'])
    match rustModuleFile? files base below with
    | some file => some file
    | none =>
      if root == .currentModule || base.isEmpty then none
      else firstExisting files
        ([".rs", "/mod.rs", "/lib.rs", "/main.rs"].map fun e => normalised base ++ e.toList)

/-- Resolves a specifier of a file by the rules of a language. -/
def resolve? (language : String) (specifier fromFile : List Char) (files : List String) :
    Option (List Char) :=
  match language with
  | "javascript" | "typescript" => resolveScript specifier fromFile files
  | "python" => resolvePython specifier fromFile files
  | "go" => resolveGo specifier files
  | "elixir" => resolveElixir specifier files
  | "rust" => resolveRust specifier fromFile files
  | _ => none

theorem mem_of_resolveGo {specifier p : List Char} {files : List String}
    (h : resolveGo specifier files = some p) : String.ofList p ∈ files := by
  simp only [resolveGo] at h
  have hmem : p ∈
      ((files.map String.toList).filter (".go".toList.isSuffixOf ·)).mergeSort goBefore := by
    split at h
    · simp at h
    · split at h
      · rename_i f hf
        obtain rfl : f = p := Option.some.inj h
        exact List.mem_of_find?_eq_some hf
      · exact List.mem_of_find?_eq_some h
  rw [List.mem_mergeSort, List.mem_filter, List.mem_map] at hmem
  obtain ⟨⟨f, hf, rfl⟩, _⟩ := hmem
  rwa [String.ofList_toList]

theorem mem_of_rustModuleFile {files : List String} {base p : List Char}
    {segments : List (List Char)} (h : rustModuleFile? files base segments = some p) :
    String.ofList p ∈ files := by
  obtain ⟨n, _, hn⟩ := List.exists_of_findSome?_eq_some h
  exact mem_of_firstExisting hn

theorem mem_of_resolveRust {specifier fromFile p : List Char} {files : List String}
    (h : resolveRust specifier fromFile files = some p) : String.ofList p ∈ files := by
  simp only [resolveRust] at h
  split at h
  · simp at h
  · split at h
    · rename_i f hf
      obtain rfl : f = p := Option.some.inj h
      exact mem_of_rustModuleFile hf
    · split at h
      · simp at h
      · exact mem_of_firstExisting h

/-- Whatever a specifier resolves to is one of the files. -/
theorem mem_of_resolve? {language : String} {specifier fromFile p : List Char}
    {files : List String} (h : resolve? language specifier fromFile files = some p) :
    String.ofList p ∈ files := by
  unfold resolve? at h
  split at h
  · unfold resolveScript at h
    split at h
    · exact mem_of_firstExisting h
    · simp at h
  · unfold resolveScript at h
    split at h
    · exact mem_of_firstExisting h
    · simp at h
  · exact mem_of_firstExisting h
  · exact mem_of_resolveGo h
  · exact mem_of_firstExisting h
  · exact mem_of_resolveRust h
  · simp at h

/-- An import of a file: the specifier as written and the file it stands for. -/
structure Edge where
  raw : String
  resolved : Option String
  deriving DecidableEq, Repr

/-- The imports of a file, none resolved to the file itself; a language without a scan has
    none. -/
def edges (path : String) (content : List Char) (language : Option String) (files : List String) :
    List Edge :=
  match language.bind fun l => (scannerFor? l).map fun scan => (l, scan) with
  | none => []
  | some (l, scan) =>
    (scan content).map fun raw =>
      let target := (resolve? l raw path.toList files).map String.ofList
      ⟨String.ofList raw, if target == some path then none else target⟩

/-- An import that is resolved leads to another of the files. -/
theorem resolved_mem_edges {path : String} {content : List Char} {language : Option String}
    {files : List String} {e : Edge} {target : String} (he : e ∈ edges path content language files)
    (ht : e.resolved = some target) : target ∈ files ∧ target ≠ path := by
  unfold edges at he
  split at he
  · simp at he
  · obtain ⟨raw, _, rfl⟩ := List.mem_map.1 he
    simp only at ht
    split at ht
    · simp at ht
    · rename_i hne
      obtain ⟨p, hp, rfl⟩ := Option.map_eq_some_iff.1 ht
      refine ⟨mem_of_resolve? hp, fun hpath => hne ?_⟩
      rw [ht, hpath, beq_self_eq_true]

end CodeSurvey.Import
