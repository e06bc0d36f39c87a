import CodeSurvey.Folder
import CodeSurvey.Graph.Rank
import CodeSurvey.Number.Double
import CodeSurvey.Signature.Report
import CodeSurvey.Sorting

/-!
The repository map: the sections of the files with the most signatures, as many as a budget allows.
A token counts as 4.8 characters. The first section is always there.

A section shows the path of a file, its signatures one a line, and its exported names. Long lists of
parameters and of names are cut.
-/

namespace CodeSurvey.RepoMap

/-- What the map knows of a file. -/
structure FileDigest where
  path : String
  signatures : List Signature
  exports : List String
  deriving DecidableEq, Repr

/-- The digest of the file at a path; none if nothing was found in it. -/
def FileDigest.of? (path : String) (r : SignatureReport) : Option FileDigest :=
  let exports := (r.surface.map (·.names)).getD []
  if r.signatures.isEmpty && exports.isEmpty then none else some ⟨path, r.signatures, exports⟩

/-- A text cut to so many characters, with three dots at the end if something is missing. -/
def cut (limit : Nat) (s : List Char) : List Char :=
  if limit < s.length then s.take (limit - 3) ++ ['.', '.', '.'] else s

theorem length_cut_le {limit : Nat} (h : 3 ≤ limit) (s : List Char) :
    (cut limit s).length ≤ limit := by
  unfold cut
  split
  · simp; omega
  · omega

theorem cut_of_le {limit : Nat} {s : List Char} (h : s.length ≤ limit) : cut limit s = s := by
  simp [cut, Nat.not_lt.2 h]

/-- Texts with commas between them, cut to so many characters. -/
def cutList (limit : Nat) (items : List String) : String :=
  String.ofList (cut limit (Text.join [',', ' '] (items.map (·.toList))))

/-- The word for a kind, behind the indentation of its line. -/
def kindMark : Signature.Kind → String
  | .method => "    method"
  | .classDef => "  class"
  | .function | .arrow => "  fn"

/-- The line of a signature. -/
def signatureLine (s : Signature) : String :=
  let mark := if s.async then "async " else ""
  s!"{kindMark s.kind} {mark}{s.name}({cutList 40 s.params}) :{s.line}"

/-- The section of a file with its first signatures. It ends with an empty line. -/
def fileSection (d : FileDigest) (limit : Int) : List Char :=
  let label := if d.exports.isEmpty then "" else s!" ({d.exports.length} exports)"
  let rest : Int := d.signatures.length - limit
  let lines := [s!"## {d.path}{label}"] ++
    (Graph.firstItems limit d.signatures).map signatureLine ++
    (if 0 < rest then [s!"  ... +{rest} more"] else []) ++
    (if d.exports.isEmpty then [] else ["  exports: " ++ cutList 60 d.exports]) ++ [""]
  Text.join ['\n'] (lines.map (·.toList))

end CodeSurvey.RepoMap

namespace CodeSurvey

/-- A repository map. -/
structure RepoMap where
  summary : List Char
  files : Nat
  signatures : Nat
  deriving DecidableEq, Repr

namespace RepoMap

/-- The budget in tokens unless another one is asked for. -/
def defaultBudget : Int := 1000

/-- Why there is no map within a budget. -/
inductive BudgetError where
  | beyondRange
  deriving DecidableEq, Repr

/-- The words for an error. -/
def BudgetError.message : BudgetError → String
  | beyondRange => "int too large to convert to float"

/-- Refuses a budget whose characters, four for a token, are more than a floating point number can
    say. -/
def checkBudget (budget : Int) : Except BudgetError Unit :=
  if (Double.ofInt (4 * budget)).isFinite then .ok () else .error .beyondRange

/-- What stands above the sections. -/
def header : List Char := "# Repo Map\n".toList

/-- So many characters are within the budget. The limit is 24 characters for 5 tokens; since sizes
    are whole numbers, a limit computed with rounding decides nothing else. -/
def fits (budget : Int) (size : Nat) : Bool := 5 * (size : Int) ≤ 24 * budget

theorem fits_mono {b c : Int} (h : b ≤ c) {size : Nat} (hs : fits b size = true) :
    fits c size = true := by
  simp [fits] at *; omega

theorem fits_anti {b : Int} {m n : Nat} (h : m ≤ n) (hn : fits b n = true) :
    fits b m = true := by
  simp [fits] at *; omega

/-- How many signatures a section may list: 30, but 10 if fewer than 2000 characters are left. -/
def signatureLimit (budget : Int) (used : Nat) : Int :=
  if 24 * budget - 5 * used < 10000 then 10 else 30

/-- The sections that are taken, each with its digest, when `used` characters are taken already.
    `mustTake` holds for the first one. -/
def sectionsFrom (budget : Int) (used : Nat) (mustTake : Bool) :
    List FileDigest → List (FileDigest × List Char)
  | [] => []
  | d :: more =>
    let text := fileSection d (signatureLimit budget used)
    let size := used + text.length + 1
    if mustTake || fits budget size then (d, text) :: sectionsFrom budget size false more else []

/-- The sections taken are those of the first digests. -/
theorem sectionsFrom_prefix (budget : Int) (used : Nat) (mustTake : Bool)
    (digests : List FileDigest) :
    (sectionsFrom budget used mustTake digests).map (·.1) <+: digests := by
  fun_induction sectionsFrom budget used mustTake digests <;> simp_all [List.cons_prefix_cons]

/-- More signatures come first; files with equally many keep their order. -/
def ranked (digests : List FileDigest) : List FileDigest :=
  digests.mergeSort fun a b => b.signatures.length ≤ a.signatures.length

theorem ranked_perm (digests : List FileDigest) : (ranked digests).Perm digests :=
  List.mergeSort_perm ..

theorem pairwise_ranked (digests : List FileDigest) :
    (ranked digests).Pairwise fun a b => b.signatures.length ≤ a.signatures.length :=
  Sorting.pairwise_largestFirst (·.signatures.length) digests

/-- The map of digests within a budget. -/
def ofDigests (budget : Int) (digests : List FileDigest) : RepoMap :=
  let taken := sectionsFrom budget header.length true (ranked digests)
  { summary := Text.trim (Text.join ['\n'] (header :: taken.map (·.2)))
    files := taken.length
    signatures := (taken.map (·.1.signatures.length)).foldr (· + ·) 0 }

/-- The map of files, given the report on each. -/
def ofReports (budget : Int) (reports : List (String × SignatureReport)) : RepoMap :=
  ofDigests budget (reports.filterMap fun r => FileDigest.of? r.1 r.2)

/-- The path under which a file of a map is looked up, below the folder `root`. -/
def lookupPath (root path : String) : String :=
  String.ofList (Path.tidy (Path.append root.toList path.toList))

/-- The report on a file below `root`, where `read` gives the text of the file at a path. -/
def reportOn (root : String) (read : String → Option (List Char)) (path : String) :
    SignatureReport :=
  SignatureReport.of (lookupPath root path) none (read (lookupPath root path))

/-- The map of files below `root`. -/
def ofFiles (budget : Int) (root : String) (read : String → Option (List Char))
    (paths : List String) : RepoMap :=
  ofReports budget (paths.map fun p => (p, reportOn root read p))

/-- The map of files of a folder. -/
def ofFolder (budget : Int) (folder : Folder) (paths : List String) : RepoMap :=
  ofFiles budget "." folder.readText? paths

/-- The number of tokens of a map, at four characters each, rounded up. -/
def tokens (m : RepoMap) : Nat := (m.summary.length + 3) / 4

/-- The record of a map. -/
def toJson (m : RepoMap) : Json :=
  .object [("summary", .string (String.ofList m.summary)), ("files_included", .nat m.files),
    ("total_signatures", .nat m.signatures), ("token_estimate", .nat m.tokens)]

end RepoMap

end CodeSurvey
