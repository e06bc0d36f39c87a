import CodeSurvey.Config.Basic
import CodeSurvey.Text.Lower

/-!
Changing one value of a configuration. The new value is given as a text and takes the type of the
one that it replaces: truth values and whole numbers are read, everything else stays a text.
-/

namespace CodeSurvey.Config

/-- A change of one value: its section, its name and the text of the new value. -/
structure Change where
  sectionName : String
  name : String
  raw : String
  deriving DecidableEq, Repr

/-- Why a change is refused. -/
inductive Refusal where
  | badKey
  | notAnInteger (raw : String)
  /-- The section has no values. -/
  | unusable (e : Error)

/-- The words for a refusal. -/
def Refusal.message : Refusal → String
  | badKey =>
    "Key must be <section>.<name> with section one of: " ++ String.intercalate ", " sections
  | notAnInteger raw => s!"Expected an integer, got '{raw}'."
  | unusable e => e.message

/-- The change of the value under a key, which is a section and a name with a point between. -/
def Change.ofKey (key raw : String) : Except Refusal Change :=
  let front := key.toList.takeWhile (· != '.')
  let name := String.ofList (key.toList.drop (front.length + 1))
  let sectionName := String.ofList front
  if name == "" || !sections.contains sectionName then .error .badKey
  else .ok ⟨sectionName, name, raw⟩

/-- The words for the truth value true, in small letters. -/
def trueWords : List String := ["1", "true", "yes", "on"]

/-- A text as a value of the type of another one. -/
def coerce (raw : String) : Data → Except Refusal Data
  | .bool _ =>
    .ok (.bool (trueWords.contains (String.ofList (Text.lower (Text.trim raw.toList)))))
  | .int _ =>
    match Integer.read .ten raw.toList with
    | .ok n => .ok (.int n)
    | .error _ => .error (.notAnInteger raw)
  | _ => .ok (.text raw)

/-- The new value of a change. -/
def Change.value (h : Change) (c : Config) : Except Refusal Data := do
  let entries ← (values c h.sectionName).mapError .unusable
  coerce h.raw ((Data.get? entries h.name).getD (.text ""))

/-- The configuration with the value of a change in its place. -/
def Change.put (h : Change) (value : Data) (c : Config) : Config :=
  let entries := match Data.get? c h.sectionName with
    | some (.map entries) => entries
    | _ => []
  Data.put c (.text h.sectionName) (.map (Data.put entries (.text h.name) value))

/-- The configuration after a change. -/
def Change.apply (h : Change) (c : Config) : Except Refusal Config := do
  return h.put (← h.value c) c

/-- How a new value is shown. -/
def shown : Data → String
  | .bool b => if b then "True" else "False"
  | .int n => toString n
  | .text s => s
  | _ => ""

end CodeSurvey.Config
