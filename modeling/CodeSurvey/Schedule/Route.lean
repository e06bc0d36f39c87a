import CodeSurvey.Data
import CodeSurvey.Json.Basic
import CodeSurvey.Schedule.Model

/-!
Which model does a task. The score of the task asks for a model; a profile may ask for another one
for the agent, and the higher tier wins, the profile on a tie. Who gets the top tier inherits it
from the session.
-/

namespace CodeSurvey.Schedule

/-- Where a task goes. -/
structure Destination where
  model : String
  agent : String
  reason : String
  deriving DecidableEq, Repr

/-- The record of a destination. -/
def Destination.toJson (d : Destination) : Json :=
  .object [("model", .string d.model), ("agent", .string d.agent), ("reason", .string d.reason)]

/-- The models of profiles: for each agent, and for each of its profiles. -/
abbrev Profiles := List (String × List (String × String))

/-- The profiles that there are unless others are given. -/
def usualProfiles : Profiles :=
  [(defaultAgent, [("quality", "opus"), ("balanced", "sonnet"), ("budget", "sonnet")])]

/-- The model of a profile for an agent; neither the profile nor the model may be without a name. -/
def Profiles.model? (p : Profiles) (agent profile : String) : Option String :=
  if profile == "" then none
  else (((p.lookup agent).getD []).lookup profile).filter (· != "")

/-- The destination of a task of a score, given the name of the profile and the model it asks for,
    if there is one. A score of zero counts as 3. -/
def destination (score : Int) (label agent : String) (choice : Option (String × String)) :
    Destination :=
  let score := if score == 0 then 3 else score
  let base := modelOf score
  let model := match choice with
    | some (_, model) => if tier base ≤ tier model then model else base
    | none => base
  { model := if model == "opus" then "inherit" else model
    agent
    reason := s!"score {score} ({label})" ++
      (choice.map fun c => s!" via {c.1} profile").getD "" }

/-- The top tier is never named in a destination: it is inherited. -/
theorem model_destination_ne (score : Int) (label agent : String)
    (choice : Option (String × String)) :
    (destination score label agent choice).model ≠ "opus" := by
  have h : ∀ m : String, (if m == "opus" then "inherit" else m) ≠ "opus" := by
    intro m; split <;> simp_all
  exact h _

/-- The destination of a task of a score, with the profiles of the agents. -/
def route (score : Int) (label : String) (profile : Option String) (profiles : Profiles)
    (agent : String) : Destination :=
  destination score label agent
    (profile.bind fun p => (profiles.model? agent p).map fun model => (p, model))

/-- The destination of a task that cannot be read. -/
def fallbackRoute : Destination :=
  ⟨"sonnet", defaultAgent, "routing error - defaulting to sonnet"⟩

/-- Profiles as a value. -/
def Profiles.toData (p : Profiles) : Data :=
  .map (p.map fun agent =>
    (.text agent.1, .map (agent.2.map fun e => (.text e.1, .text e.2))))

end CodeSurvey.Schedule
