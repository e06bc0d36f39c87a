import CodeSurvey.Command.Plans
import CodeSurvey.Data.Record

/-!
Carrying out a command in a folder. Only a change of the configuration changes the folder.
-/

namespace CodeSurvey.Command

/-- What the program calls itself. -/
def versionText : String := "codebase-intel v0.3.0"

/-- The configuration in effect. -/
def configPrints (here : Folder) : List Print :=
  [plain s!"# {Config.filePath}",
    match Config.load here Config.filePath with
    | .error e => .error (.config e)
    | .ok c =>
      match Data.membersJson c with
      | .ok members => record (.object members)
      | .error kind => .error (.notSerializable kind)]

/-- How a command ends whose change of the configuration is refused. -/
def refusal : Config.Refusal → Ending
  | .unusable e => .broken (.config e)
  | r => .refused (.badParameter (some r.message))

/-- Changes one value of the configuration file. -/
def change (here : Folder) (key value : String) : Outcome :=
  let ended := fun ending => (⟨here, [], ending⟩ : Outcome)
  match Config.Change.ofKey key value with
  | .error r => ended (refusal r)
  | .ok h =>
    match Config.load here Config.filePath with
    | .error e => ended (.broken (.config e))
    | .ok c =>
      match h.value c with
      | .error r => ended (refusal r)
      | .ok value =>
        match Config.save (h.put value c) here Config.filePath with
        | (folder, .error f) => ⟨folder, [], .broken (.unwritable f)⟩
        | (folder, .ok false) => ⟨folder, [], .failed⟩
        | (folder, .ok true) =>
          printAll folder [] [plain s!"Set {h.sectionName}.{h.name} = {Config.shown value}"]

/-- Carries out a command in a folder whose path is `base`. -/
def run (base : String) (here : Folder) : Command → Outcome
  | version => printAll here [] [plain versionText]
  | signatures file asJson => outcomeOf here (signaturePrints here file asJson)
  | complexity file asJson => outcomeOf here (complexityPrints here file asJson)
  | repoMap root tokens asJson => outcomeOf here (mapPrints here root tokens asJson)
  | deps root cycles top asJson => outcomeOf here (importPrints here root cycles top asJson)
  | impact root files maxDepth asJson =>
    outcomeOf here (impactPrints base here root files maxDepth asJson)
  | classify plans root profile asJson => outcomeOf here (planPrints here plans root profile asJson)
  | showConfig => printAll here [] (configPrints here)
  | setConfig key value => change here key value

/-- Carries out the command that arguments give. -/
def runArguments (base : String) (here : Folder) (arguments : List String) : Outcome :=
  match ofArguments here arguments with
  | .ok command => run base here command
  | .error e => ⟨here, [], .refused e⟩

end CodeSurvey.Command
