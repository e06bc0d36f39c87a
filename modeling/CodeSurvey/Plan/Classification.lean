import CodeSurvey.Plan.Document
import CodeSurvey.Schedule.Mode
import CodeSurvey.Schedule.Score

/-!
What a plan says and how complex it is: its wave and whether it runs by itself, from its head, and
the scores of its tasks. A plan is as complex as its most complex task and asks for the highest tier
that one of its tasks asks for.
-/

namespace CodeSurvey.Plan

/-- A task with its score. -/
structure ScoredTask where
  task : Task
  score : Schedule.Score
  deriving DecidableEq, Repr

/-- A plan that has been read and scored. -/
structure Classification where
  plan : String
  wave : Int
  autonomous : Bool
  tasks : List ScoredTask
  deriving DecidableEq, Repr

/-- The wave that an entry of the head gives: a whole number other than zero, or such a number as
    text. -/
def waveOf (value : Option Data) : Int :=
  let orFirst := fun (n : Int) => if n == 0 then 1 else n
  match value with
  | some (.int n) => if (toString n.natAbs).length ≤ Integer.maxDigits then orFirst n else 1
  | some (.text s) =>
    match Integer.read .ten (Text.trim s.toList) with
    | .ok n => orFirst n
    | .error _ => 1
  | _ => 1

/-- The entry of the head that lets a plan run by itself. -/
def isAutonomous (value : Option Data) : Bool :=
  match value with
  | some (.bool b) => b
  | some (.text s) => s == "true"
  | _ => false

namespace Classification

/-- The highest score of a task; 1 without tasks. -/
def complexity (c : Classification) : Nat :=
  (c.tasks.map (·.score.value)).foldl max 1

/-- The model of the highest tier that a task asks for. -/
def model (c : Classification) : String :=
  (c.tasks.map (·.score.model)).foldl
    (fun best m => if Schedule.tier best < Schedule.tier m then m else best) "sonnet"

/-- The classification of a plan of a name; none if its head holds a value that does not exist. -/
def ofPlan? (name : String) (content : List Char) (graph : Option DependencyGraph) :
    Option Classification :=
  match frontmatter content with
  | .error _ => none
  | .ok head => some
    { plan := name
      wave := waveOf (Data.get? head "wave")
      autonomous := isAutonomous (Data.get? head "autonomous")
      tasks := (Plan.tasks content).map fun t => ⟨t, Schedule.score t graph⟩ }

/-- What counts of the plan when plans are carried out together. -/
def outline (c : Classification) : Schedule.Outline :=
  { plan := c.plan, wave := .number c.wave, kinds := c.tasks.map (·.task.kind) }

/-- The record of a classification; `extra` are the members added to each task. -/
def toJsonWith (extra : ScoredTask → List (String × Json)) (c : Classification) : Json :=
  .object [("plan", .string c.plan), ("wave", .int c.wave), ("autonomous", .bool c.autonomous),
    ("task_count", .nat c.tasks.length),
    ("tasks", .array (c.tasks.map fun t =>
      .object ([("name", .string t.task.name), ("type", .string t.task.kind),
        ("files", .strings t.task.files), ("complexity", t.score.toJson)] ++ extra t))),
    ("plan_complexity", .nat c.complexity), ("recommended_model", .string c.model)]

/-- The record of a classification. -/
def toJson (c : Classification) : Json := c.toJsonWith fun _ => []

end Classification

end CodeSurvey.Plan
