import CodeSurvey.Data
import CodeSurvey.Number.Integer
import CodeSurvey.RepoMap.Summary
import CodeSurvey.Schedule.Route
import CodeSurvey.Text.Utf8
import CodeSurvey.Toml.Fault

/-!
The configuration: sections with named values. What a configuration file leaves out is taken from
the defaults, section by section and value by value. The other parts read the sections as they need
them: numbers may be written as texts, as fractions, which are cut, or as truth values.
-/

namespace CodeSurvey

/-- The configuration in effect: entries, most of which are sections. -/
abbrev Config := List (Data × Data)

namespace Config

/-- The number of levels that an impact is followed unless told otherwise. -/
def defaultMaxDepth : Int := 10

/-- The number of workers unless told otherwise. -/
def defaultMaxWorkers : Int := 8

/-- A section or a value under its name. -/
def entry (name : String) (value : Data) : Data × Data := (.text name, value)

/-- What holds unless a file says otherwise. -/
def defaults : Config := [
  entry "routing" (.map [entry "model_profile" (.text ""), entry "profiles" (.map [])]),
  entry "graph" (.map [entry "max_workers" (.int defaultMaxWorkers),
    entry "max_depth" (.int defaultMaxDepth)]),
  entry "repo_map" (.map [entry "token_budget" (.int RepoMap.defaultBudget)])]

/-- The names of the sections that can be changed. -/
def sections : List String := ["routing", "graph", "repo_map"]

/-- Entries with others laid over them. -/
def layer (entries upper : List (Data × Data)) : List (Data × Data) :=
  upper.foldl (fun entries e => Data.put entries e.1 e.2) entries

/-- A configuration with an entry of a file in it: a section is laid over the one of its name, any
    other value takes its place. -/
def merge (c : Config) (e : Data × Data) : Config :=
  match e.1, e.2 with
  | .text name, .map values =>
    match Data.get? c name with
    | some (.map known) => Data.put c e.1 (.map (layer known values))
    | _ => Data.put c e.1 e.2
  | _, _ => Data.put c e.1 e.2

/-- The configuration in effect with the entries of a file; without a file the defaults. -/
def ofFile (file : Option (List (Data × Data))) : Config := (file.getD []).foldl merge defaults

/-! ### Sections -/

/-- Why a configuration, or a section of it, cannot be used. -/
inductive Error where
  /-- The file is no text. -/
  | undecodable (e : Text.Utf8.DecodeError)
  /-- The file has a fault that is more than bad form. -/
  | unreadable (f : Toml.Fault)
  | notASection (kind : String)
  | notProfiles (kind : String)
  | notWhole (e : Integer.Error)
  | infinite
  | notANumber
  | notNumeric (kind : String)

/-- The words for an error. -/
def Error.message : Error → String
  | undecodable e => e.message
  | unreadable f => f.message
  | notASection kind => s!"'{kind}' object has no attribute 'get'"
  | notProfiles kind => s!"'{kind}' object has no attribute 'items'"
  | notWhole e => e.message
  | infinite => "cannot convert float infinity to integer"
  | notANumber => "cannot convert float NaN to integer"
  | notNumeric kind =>
    "int() argument must be a string, a bytes-like object or a real number, not " ++ s!"'{kind}'"

/-- The values of a section. -/
def values (c : Config) (name : String) : Except Error (List (Data × Data)) :=
  match Data.get? c name with
  | none => .ok []
  | some (.map entries) => .ok entries
  | some other => .error (.notASection other.kindName)

/-- The whole number that a value stands for. -/
def wholeNumber : Data → Except Error Int
  | .int n => .ok n
  | .bool b => .ok (if b then 1 else 0)
  | .float (.finite negative units) =>
    let n : Int := units / Double.unitsInOne
    .ok (if negative then -n else n)
  | .float (.infinite _) => .error .infinite
  | .float .nan => .error .notANumber
  | .text s => (Integer.read .ten s.toList).mapError .notWhole
  | other => .error (.notNumeric other.kindName)

/-- The number under a name. -/
def number (entries : List (Data × Data)) (name : String) (default : Int) : Except Error Int :=
  wholeNumber ((Data.get? entries name).getD (.int default))

/-- How models are chosen. -/
structure Routing where
  /-- The name of the profile in use, which may be missing. -/
  modelProfile : Data
  /-- For each agent a table of models. -/
  profiles : List (Data × Data)

/-- Profiles with the tables of a configuration laid over them, agent by agent. -/
def layerProfiles (profiles tables : List (Data × Data)) : List (Data × Data) :=
  tables.foldl (fun profiles e =>
    match e.1, e.2 with
    | .text agent, .map models =>
      let known := match Data.get? profiles agent with
        | some (.map known) => known
        | _ => []
      Data.put profiles e.1 (.map (layer known models))
    | _, _ => profiles) profiles

/-- How models are chosen. -/
def routing (c : Config) : Except Error Routing := do
  let entries ← values c "routing"
  let tables := (Data.get? entries "profiles").getD .null
  let tables ← if tables.isMissing then pure [] else match tables with
    | .map tables => pure tables
    | other => throw (.notProfiles other.kindName)
  let usual := match Schedule.usualProfiles.toData with
    | .map entries => entries
    | _ => []
  let profile := (Data.get? entries "model_profile").getD .null
  return ⟨if profile.isMissing then .text "" else profile, layerProfiles usual tables⟩

/-- The bounds of the work on the graph of imports. -/
structure GraphLimits where
  maxWorkers : Int
  maxDepth : Int
  deriving DecidableEq, Repr

/-- The bounds of the work on the graph of imports. -/
def graphLimits (c : Config) : Except Error GraphLimits := do
  let entries ← values c "graph"
  return ⟨← number entries "max_workers" defaultMaxWorkers,
    ← number entries "max_depth" defaultMaxDepth⟩

/-- The number of tokens that an overview of a project may have. -/
def tokenBudget (c : Config) : Except Error Int := do
  number (← values c "repo_map") "token_budget" RepoMap.defaultBudget

end Config

end CodeSurvey
