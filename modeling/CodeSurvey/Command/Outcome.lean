import CodeSurvey.Command.Basic
import CodeSurvey.Config.Change
import CodeSurvey.Display.Table

/-!
What comes of a command: what it prints, how it ends, and the folder it leaves behind. What was
printed before a failure stays printed.
-/

namespace CodeSurvey

/-- Why a command breaks off. -/
inductive Failure where
  | config (e : Config.Error)
  | unwritable (f : Toml.Fault)
  | budget (e : RepoMap.BudgetError)
  | markup (f : Display.MarkupFault)
  /-- A value of this type cannot be printed as JSON. -/
  | notSerializable (kind : String)

/-- The words for a failure. -/
def Failure.message : Failure → String
  | config e => e.message
  | unwritable f => f.message
  | budget e => e.message
  | markup f => f.message
  | notSerializable kind => s!"Object of type {kind} is not JSON serializable"

/-- How a command ends. -/
inductive Ending where
  | done
  /-- The work could not be done. -/
  | failed
  | refused (e : Command.UsageError)
  | broken (f : Failure)

/-- What comes of a command. -/
structure Outcome where
  folder : Folder
  text : List Char
  ending : Ending

/-- The code that a command exits with. -/
def Ending.code : Ending → Nat
  | done => 0
  | failed => 1
  | refused _ => 2
  | broken _ => 1

namespace Command

/-- A command refuses a value that it was given. -/
def refuse {α : Type} (message : String) : Except Ending α :=
  .error (.refused (.badParameter (some message)))

/-- Something to print. -/
abbrev Print := Except Failure (List Char)

/-- A line that is printed as it is. -/
def plain (s : String) : Print := .ok (s.toList ++ ['\n'])

/-- A marked text. -/
def marked (s : String) : Print := (Display.printed s).mapError .markup

/-- A table. -/
def table (t : Display.Table) : Print := t.render.mapError .markup

/-- A record. -/
def record (j : Json) : Print := plain j.render

/-- Prints one thing after the other, up to the first that cannot be printed. -/
def printAll (folder : Folder) (printed : List Char) : List Print → Outcome
  | [] => ⟨folder, printed, .done⟩
  | .ok text :: more => printAll folder (printed ++ text) more
  | .error f :: _ => ⟨folder, printed, .broken f⟩

/-- The outcome of a command that changes nothing. -/
def outcomeOf (folder : Folder) (prints : Except Ending (List Print)) : Outcome :=
  match prints with
  | .ok prints => printAll folder [] prints
  | .error ending => ⟨folder, [], ending⟩

end Command

end CodeSurvey
