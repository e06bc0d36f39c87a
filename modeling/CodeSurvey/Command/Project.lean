import CodeSurvey.Command.Files
import CodeSurvey.Config.File
import CodeSurvey.Graph.Build
import CodeSurvey.Graph.Cycles
import CodeSurvey.Graph.Impact
import CodeSurvey.Graph.Rank
import CodeSurvey.RepoMap.Summary
import CodeSurvey.SourceFiles

/-!
The commands that look at a project: its map, its imports, and what depends on files in it. The
configuration bounds the work, unless an option does.
-/

namespace CodeSurvey.Command

/-- Something that the configuration of a folder gives. -/
def configured {α : Type} (here : Folder) (read : Config → Except Config.Error α) :
    Except Ending α :=
  ((Config.load here Config.filePath).bind read).mapError fun e => .broken (.config e)

/-- The folder of a project. -/
def project (here : Folder) (root : String) : Except Ending Folder :=
  match here.folder? (shownPath root) with
  | some folder => .ok folder
  | none => refuse s!"'{shownPath root}' is not a directory."

/-- The graph of the imports of a project. It is made anew for every command, so it does not say
    when it was built. -/
def projectGraph (here folder : Folder) : Except Ending DependencyGraph := do
  let _ ← configured here Config.graphLimits
  let read := fun path => match folder.readText? path with
    | some text => Graph.FileText.text text
    | none => .unreadable
  return Graph.build (Graph.lookupByPath Language.ofPath?) read (SourceFiles.walk folder) ""

/-- The map of a project. -/
def mapPrints (here : Folder) (root : String) (tokens : Option Int) (asJson : Bool) :
    Except Ending (List Print) := do
  let folder ← project here root
  let budget ← match tokens with
    | some n => pure n
    | none => configured here Config.tokenBudget
  let _ ← configured here Config.graphLimits
  let _ ← (RepoMap.checkBudget budget).mapError fun e => Ending.broken (.budget e)
  let m := RepoMap.ofFolder budget folder (SourceFiles.walk folder)
  if asJson then return [record m.toJson]
  return [plain (String.ofList m.summary),
    marked s!"\n[dim]{m.files} files, {m.signatures} signatures, ~{m.tokens} tokens[/dim]"]

/-- The lines about cycles of imports. -/
def cyclePrints (r : Graph.CycleReport) : List Print :=
  if r.cycles.isEmpty then [marked "[green]✓ No import cycles[/green]"]
  else
    marked s!"[red]✗ {r.count} cycles ({r.files} files)[/red]" ::
      r.cycles.zipIdx.map fun (cycle, i) =>
        marked (s!"  {i + 1}. " ++ String.intercalate " → " cycle)

/-- The table of the most imported files. -/
def rankTable (ranked : List (String × Nat)) : Display.Table where
  title := some "Most imported"
  columns := [⟨"File", false⟩, ⟨"Importers", true⟩]
  rows := ranked.map fun e => [e.1, toString e.2]

/-- The imports of a project. -/
def importPrints (here : Folder) (root : String) (cycles : Bool) (top : Int) (asJson : Bool) :
    Except Ending (List Print) := do
  let g ← projectGraph here (← project here root)
  let found := if cycles then some (Graph.findCycles g) else none
  let ranked := Graph.mostImported g top
  if asJson then
    let ranks := ranked.map fun e => Json.object [("file", .string e.1), ("importers", .nat e.2)]
    return [record (.object (g.members ++ [("top_dependencies", .array ranks)] ++
      (found.map fun r => ("cycles", r.toJson)).toList))]
  let languages := if g.stats.languages.isEmpty then "none"
    else String.intercalate ", " g.stats.languages
  let errors := if g.stats.errors == 0 then []
    else [marked s!"[yellow]⚠ {g.stats.errors} files could not be read or parsed[/yellow]"]
  return marked (s!"[bold cyan]Dependency graph[/bold cyan]: {g.stats.filesParsed} files, " ++
      s!"{g.stats.edges} edges, languages: {languages}") :: errors ++
    (if ranked.isEmpty then [] else [table (rankTable ranked)]) ++
    (found.map cyclePrints).getD []

/-- The path of a file in a project; an absolute path is outside. `base` is the path of the folder
    where the command runs. -/
def projectFile (base root file : String) : Except Ending String :=
  if file.toList.head? == some '/' then
    let place := Path.normalise (Path.append base.toList root.toList)
    refuse s!"'{file}' is outside '{String.ofList place}'."
  else .ok (shownPath file)

/-- The lines about what depends on a file. -/
def reportPrints (depth : Int) (r : Graph.ImpactReport) : List Print :=
  marked s!"\n[bold]{r.file}[/bold]: fan-in {r.fanIn}" ::
    if r.fanIn == 0 then [marked "  no dependents"]
    else
      (r.direct.map fun file => marked s!"  [cyan]1[/cyan] {file}") ++
      (r.transitive.map fun t => marked s!"  [dim]{t.2}[/dim] {t.1}") ++
      if r.truncated then
        [marked s!"  [yellow]⚠ stopped at depth {depth}; more dependents exist[/yellow]"]
      else []

/-- What depends on files of a project. -/
def impactPrints (base : String) (here : Folder) (root : String) (files : List String)
    (maxDepth : Option Int) (asJson : Bool) : Except Ending (List Print) := do
  let folder ← project here root
  let depth ← match maxDepth with
    | some n => pure n
    | none => (·.maxDepth) <$> configured here Config.graphLimits
  let g ← projectGraph here folder
  let reports ← files.mapM fun file => do
    return Graph.impact g (← projectFile base root file) depth
  if asJson then return [record (.array (reports.map Graph.ImpactReport.toJson))]
  return reports.flatMap (reportPrints depth)

end CodeSurvey.Command
