import CodeSurvey.Command.Outcome
import CodeSurvey.Complexity.Report
import CodeSurvey.Signature.Report

/-!
The commands that look at one file: its signatures with its exports, and the complexity of its
functions, the most complex ones first.
-/

namespace CodeSurvey.Command

/-- The text of a file for which nothing went wrong but what is said here. -/
def warning (problem : Option Problem) : List Print :=
  (problem.map fun p => marked s!"[yellow]⚠ {p.tag}[/yellow]").toList

/-- The name of the file at a path. -/
def fileName (path : String) : String := String.ofList (Path.fileName path.toList)

/-- A path as it is shown. -/
def shownPath (path : String) : String := String.ofList (Path.tidy path.toList)

/-- A row for a signature; words behind the name tell that it is asynchronous or a generator. -/
def signatureRow (s : Signature) : List String :=
  let flags := String.intercalate " " <|
    (if s.async then ["async"] else []) ++ (if s.generator then ["gen"] else [])
  let name := if flags == "" then s.name else s!"{s.name} [dim]{flags}[/dim]"
  [toString s.line, s.kind.label, name, String.intercalate ", " s.params]

/-- The table of signatures. -/
def signatureTable (path : String) (r : SignatureReport) : Display.Table where
  title :=
    let language := r.language.getD "None"
    some s!"Signatures: {fileName path} ({language})"
  columns := [⟨"Line", true⟩, ⟨"Kind", false⟩, ⟨"Name", false⟩, ⟨"Params", false⟩]
  rows := r.signatures.map signatureRow

/-- The signatures of a file. -/
def signaturePrints (here : Folder) (file : String) (asJson : Bool) :
    Except Ending (List Print) := do
  let path := shownPath file
  let r := SignatureReport.of path none (here.readText? path)
  if r.problem == some .unknownLanguage || r.problem == some .noDetector then
    refuse (s!"Cannot extract signatures from '{path}': " ++ (r.problem.map Problem.tag).getD "")
  if asJson then return [record r.toJson]
  let exported := (r.surface.filter fun s => !s.names.isEmpty).map fun s =>
    marked (s!"[bold]Exports ({s.style.label}):[/bold] " ++ String.intercalate ", " s.names)
  return table (signatureTable path r) :: exported.toList ++ warning r.problem

/-- The colour of a complexity. -/
def colour (complexity : Nat) : String :=
  if 10 ≤ complexity then "red" else if 5 ≤ complexity then "yellow" else "green"

/-- A row for a function. -/
def functionRow (f : Complexity.FunctionScore) : List String :=
  let style := colour f.complexity
  [toString f.line, f.name, s!"[{style}]{f.complexity}[/{style}]", toString f.nesting]

/-- The table of functions, the most complex ones first. -/
def complexityTable (path : String) (r : ComplexityReport) : Display.Table where
  title := some s!"Complexity: {fileName path}"
  columns := [⟨"Line", true⟩, ⟨"Function", false⟩, ⟨"Complexity", true⟩, ⟨"Nesting", true⟩]
  rows := (r.functions.mergeSort fun a b => b.complexity ≤ a.complexity).map functionRow

/-- The complexity of a file. -/
def complexityPrints (here : Folder) (file : String) (asJson : Bool) :
    Except Ending (List Print) := do
  let path := shownPath file
  let r := ComplexityReport.of path none (here.readText? path)
  if r.problem == some .unknownLanguage then refuse s!"Unknown language for '{path}'."
  if asJson then return [record r.toJson]
  return [table (complexityTable path r), marked s!"Module complexity: [bold]{r.total}[/bold]"] ++
    warning r.problem

end CodeSurvey.Command
