import CodeSurvey.Data
import CodeSurvey.Number.Decimal
import CodeSurvey.Schedule.Mode
import CodeSurvey.Schedule.Route
import CodeSurvey.Schedule.Score

/-!
Requests whose fields may hold values of any type. Scheduling never fails: whatever is empty, zero
or false counts as missing, and a request that makes no sense gets a middling answer.
-/

namespace CodeSurvey.Schedule

/-- The text of a field; a missing one is empty. -/
def textField? (d : Data) : Option (List Char) :=
  if d.isMissing then some [] else match d with | .text s => some s.toList | _ => none

/-- The entries of a list of files: the items of a list, the characters of a text, the keys of a
    map. -/
def fileField? (d : Data) : Option (List Data) :=
  if d.isMissing then some []
  else match d with
    | .list items => some items
    | .text s => some (s.toList.map fun c => .text (String.singleton c))
    | .map entries => some (entries.map (·.1))
    | _ => none

/-- The text of a value. -/
def textOf? : Data → Option String
  | .text s => some s
  | _ => none

/-- A task as it was requested. -/
structure TaskDraft where
  kind : Data := .text "auto"
  files : Data := .null
  action : Data := .null
  verify : Data := .null

/-- What counts of a requested task; none if a field that is needed makes no sense. Files have to be
    texts only where importers are counted, and what is verified is looked at only if the action
    does not speak of tests. -/
def TaskDraft.tally? (t : TaskDraft) (graph : Option DependencyGraph) : Option Tally := do
  let files ← fileField? t.files
  let importers ← match graph with
    | none => some none
    | some g => (files.mapM textOf?).map fun names => some (Graph.countImporters g names)
  let action ← textField? t.action
  let hasTests ←
    if mentionsTests action then some true else (textField? t.verify).map mentionsTests
  return .ofTask files.length importers hasTests ((textOf? t.kind).getD "") action.length

/-- The score of a requested task. -/
def TaskDraft.score (t : TaskDraft) (graph : Option DependencyGraph) : Score :=
  ((t.tally? graph).map Score.ofTally).getD .unknown

/-- A wave as it was requested. -/
def waveOf? (d : Data) : Option Wave :=
  if d.isMissing then some (.number 1)
  else match d with
    | .int n => some (.number n)
    | .text s => some (.label s)
    | _ => none

/-- The decision for requested plans, of which none may be missing. -/
def decideDrafts (plans : List (Option Outline)) : Decision :=
  match plans.mapM id with
  | some plans => decide plans
  | none => ⟨.unreadable, []⟩

/-- The model of a profile for an agent in a table that may hold anything; none if the table makes
    no sense, and no model where it has none. -/
def profileModel? (profiles profile : Data) (agent : String) : Option (Option (String × String)) :=
  match profiles with
  | .map agents =>
    let table := (Data.get? agents agent).getD .null
    if profile.isMissing then some none
    else
      let entries? := if table.isMissing then some [] else match table with
        | .map entries => some entries
        | _ => none
      match entries?, profile with
      | none, _ | _, .list _ | _, .map _ => none
      | some entries, .text name =>
        let model := (Data.get? entries name).getD .null
        if model.isMissing then some none
        else match model with
          | .list _ | .map _ | .set _ => none
          | .text model => some (some (name, model))
          | _ => some (some (name, ""))
      | some _, _ => some none
  | _ => none

/-- The destination of a requested task: its score and label, a profile, and a table of models
    that may hold anything. -/
def routeDraft (complexity : Option (Int × String)) (profile profiles : Data) (agent : String) :
    Destination :=
  match complexity, profileModel? profiles profile agent with
  | some (score, label), some choice => destination score label agent choice
  | _, _ => fallbackRoute

end CodeSurvey.Schedule
