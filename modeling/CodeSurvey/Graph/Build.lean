import CodeSurvey.Graph.Basic
import CodeSurvey.Import.Resolve

/-!
Building the dependency graph of a list of files. Every file is scanned on its own; a failure to
tell its language, to read it or to scan it counts as an error and leaves the other files alone.
The results are merged in the order of the files.
-/

namespace CodeSurvey.Graph

/-- What a look-up of the language of a file comes to. -/
inductive LanguageLookup where
  | failed
  | unknown
  | found (language : String)
  deriving DecidableEq, Repr

/-- What reading a file comes to. -/
inductive FileText where
  | unreadable
  /-- Something was read that cannot be scanned. -/
  | unscannable
  | text (content : List Char)
  deriving DecidableEq, Repr

/-- A scanned file: the files it imports, each once, unless reading or scanning it failed. -/
structure ScannedFile where
  path : String
  language : String
  targets : Option (List String)
  deriving DecidableEq, Repr

/-- The files that a file imports. -/
def targetsOf (path language : String) (content : List Char) (files : List String) : List String :=
  ((Import.edges path content (some language) files).filterMap (·.resolved)).eraseDups

/-- Scans a file. -/
def scanFile (read : String → FileText) (files : List String) (path language : String) :
    ScannedFile where
  path := path
  language := language
  targets :=
    match read path with
    | .text content => some (targetsOf path language content files)
    | _ => none

/-- The files that are scanned, with their languages: those whose language has an import scan. -/
def importable (lookup : String → LanguageLookup) (files : List String) :
    List (String × String) :=
  files.filterMap fun path =>
    match lookup path with
    | .found language => if Import.isImportable language then some (path, language) else none
    | _ => none

/-- The languages, sorted, each once. -/
def sortedLanguages (languages : List String) : List String :=
  (languages.mergeSort fun a b => decide (a ≤ b)).eraseDups

/-- Adds a scanned file to a graph: its targets as neighbours, the file as a neighbour of each of
    them, and what is counted. A file without targets gets no entry. -/
def addScanned (g : DependencyGraph) (s : ScannedFile) : DependencyGraph :=
  let languages := g.stats.languages ++ [s.language]
  match s.targets with
  | none => { g with stats := { g.stats with languages, errors := g.stats.errors + 1 } }
  | some targets =>
    { g with
      forward := if targets.isEmpty then g.forward else g.forward.put s.path targets
      reverse := targets.foldl (fun r target => r.add target s.path) g.reverse
      stats := { g.stats with languages, edges := g.stats.edges + targets.length } }

/-- The graph of scanned files, when some other files could not even be looked up. -/
def merge (lookupErrors : Nat) (scanned : List ScannedFile) (builtAt : String) :
    DependencyGraph :=
  let g := scanned.foldl addScanned { stats := { errors := lookupErrors } }
  { g with
    stats := { g.stats with
      filesParsed := scanned.length, languages := sortedLanguages g.stats.languages }
    builtAt }

/-- Builds the graph of the files of a list, each counted once. -/
def build (lookup : String → LanguageLookup) (read : String → FileText) (paths : List String)
    (builtAt : String) : DependencyGraph :=
  let files := paths.eraseDups
  let lookupErrors := (files.filter fun path => lookup path == .failed).length
  let scanned := (importable lookup files).map fun (path, language) =>
    scanFile read files path language
  merge lookupErrors scanned builtAt

/-- Looks up a language by the extension of a file. -/
def lookupByPath (ofPath? : String → Option String) (path : String) : LanguageLookup :=
  match ofPath? path with
  | some language => .found language
  | none => .unknown

end CodeSurvey.Graph
