import CodeSurvey.Config.Basic
import CodeSurvey.Folder
import CodeSurvey.Toml.Writer

/-!
The file of a configuration. One that is missing or malformed counts as none. Writing makes the
folders on the way, and leaves an empty file behind if the configuration cannot be written.
-/

namespace CodeSurvey.Config

/-- The path of the configuration file. -/
def filePath : String := "cbi-home/config.toml"

/-- The entries in the octets of a file; none if it is malformed. -/
def read (content : List UInt8) : Except Error (Option (List (Data × Data))) := do
  let text ← (Text.Utf8.decode content).mapError .undecodable
  match Toml.load (Text.unifyLineEnds text) with
  | .ok entries => return some entries
  | .error .malformed => return none
  | .error f => throw (.unreadable f)

/-- The configuration in effect in a folder. -/
def load (here : Folder) (path : String) : Except Error Config := do
  match here.read? path with
  | none => return ofFile none
  | some content => return ofFile (← read content)

/-- Writes a configuration into a folder: the folder afterwards and whether there is a file now. -/
def save (c : Config) (here : Folder) (path : String) : Folder × Except Toml.Fault Bool :=
  let steps := Folder.steps (String.ofList (Path.normalise path.toList))
  if !here.canWrite steps then (here, .ok false)
  else match Toml.text c with
    | .ok text => (here.write (Text.Utf8.encode text) steps, .ok true)
    | .error f => (here.write [] steps, .error f)

end CodeSurvey.Config
