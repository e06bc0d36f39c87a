/-!
The models that do the work and their tiers. A score from 1 to 5 says how complex a task is; the
two highest scores ask for the top tier.
-/

namespace CodeSurvey.Schedule

/-- The agent that does a task unless another one is asked for. -/
def defaultAgent : String := "gsd-executor"

/-- The model that a score asks for. -/
def modelOf (score : Int) : String := if score == 4 || score == 5 then "opus" else "sonnet"

/-- The tier of a model: the top tier and whoever inherits it, the middle tier, and all others. -/
def tier (model : String) : Nat :=
  if model == "opus" || model == "inherit" then 2 else if model == "sonnet" then 1 else 0

/-- The word for a score. -/
def labelOf (score : Nat) : String :=
  match score with
  | 0 | 1 => "trivial"
  | 2 => "simple"
  | 3 => "moderate"
  | 4 => "complex"
  | _ => "very_complex"

end CodeSurvey.Schedule
