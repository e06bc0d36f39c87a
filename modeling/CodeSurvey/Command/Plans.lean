import CodeSurvey.Command.Project
import CodeSurvey.Plan.Classification
import CodeSurvey.Schedule.Draft

/-!
The command that classifies plans: how complex their tasks are, where each task goes, and how the
plans are carried out together.
-/

namespace CodeSurvey.Command

/-- A plan with the destinations of its tasks. -/
structure RoutedPlan where
  plan : Plan.Classification
  routes : List (Plan.ScoredTask × Schedule.Destination)

/-- A plan file, classified; none if it cannot be. -/
def planOf? (here : Folder) (graph : Option DependencyGraph) (path : String) :
    Option Plan.Classification :=
  (here.readText? path).bind fun text => Plan.Classification.ofPlan? (fileName path) text graph

/-- The destination of a task with a profile. -/
def destinationOf (profile : Data) (profiles : List (Data × Data)) (t : Plan.ScoredTask) :
    Schedule.Destination :=
  Schedule.routeDraft (some (t.score.value, t.score.label)) profile (.map profiles)
    Schedule.defaultAgent

/-- A plan with the destinations of its tasks. -/
def routed (profile : Data) (profiles : List (Data × Data)) (plan : Plan.Classification) :
    RoutedPlan :=
  ⟨plan, plan.tasks.map fun t => (t, destinationOf profile profiles t)⟩

/-- The record of a plan with the destinations of its tasks. -/
def RoutedPlan.toJson (profile : Data) (profiles : List (Data × Data)) (p : RoutedPlan) : Json :=
  p.plan.toJsonWith fun t => [("route", (destinationOf profile profiles t).toJson)]

/-- A row for a task. -/
def taskRow (t : Plan.ScoredTask) (d : Schedule.Destination) : List String :=
  let factors := String.intercalate ", " (t.score.factors.map Schedule.Factor.message)
  [t.task.name, toString t.score.value, t.score.label, d.model,
    if factors == "" then "minimal" else factors]

/-- The lines about a plan. -/
def RoutedPlan.prints (p : RoutedPlan) : List Print :=
  [marked (s!"\n[bold cyan]{p.plan.plan}[/bold cyan]  wave {p.plan.wave} | " ++
      s!"complexity {p.plan.complexity}/5 | model [bold]{p.plan.model}[/bold]"),
    table {
      columns := [⟨"Task", false⟩, ⟨"Score", true⟩, ⟨"Label", false⟩, ⟨"Route", false⟩,
        ⟨"Factors", false⟩]
      rows := p.routes.map fun r => taskRow r.1 r.2 }]

/-- The lines about how the plans are carried out. -/
def decisionPrints (d : Schedule.Decision) : List Print :=
  let checkpoints := if d.hasCheckpoints then "yes" else "no"
  [marked s!"\n[bold]Execution mode:[/bold] {d.mode.word}: {d.reason.message}",
    marked (s!"Waves: {d.totalWaves} | Plans: {d.totalPlans} | " ++
      s!"Checkpoints: {checkpoints}")]

/-- The classification of plan files. -/
def planPrints (here : Folder) (paths : List String) (root profile : Option String)
    (asJson : Bool) : Except Ending (List Print) := do
  let graph ← match root with
    | none => pure none
    | some root => some <$> (do projectGraph here (← project here root))
  let routing ← configured here Config.routing
  let profile : Data := match profile.filter (· != "") with
    | some name => .text name
    | none => routing.modelProfile
  match paths.mapM (planOf? here graph) with
  | none => throw .failed
  | some plans =>
    let decision := Schedule.decide (plans.map (·.outline))
    let routedPlans := plans.map (routed profile routing.profiles)
    if asJson then
      return [record (.object [
        ("plans", .array (routedPlans.map (RoutedPlan.toJson profile routing.profiles))),
        ("execution_mode", decision.toJson)])]
    return routedPlans.flatMap RoutedPlan.prints ++ decisionPrints decision

end CodeSurvey.Command
