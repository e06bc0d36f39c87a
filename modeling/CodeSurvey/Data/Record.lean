import CodeSurvey.Data
import CodeSurvey.Json.Basic
import CodeSurvey.Number.Shortest

/-!
Values as JSON. Dates, times and the like have no form there.
-/

namespace CodeSurvey.Data

/-- The word for the type of a value that has no form as JSON. -/
def foreignKind : Data → String
  | .date _ => "date"
  | .time _ => "time"
  | .moment _ => "datetime"
  | other => other.kindName

/-- The number as JSON. -/
def floatJson (x : Double) : Json :=
  .decimal <| match x with
    | .infinite negative => if negative then "-Infinity" else "Infinity"
    | .nan => "NaN"
    | _ => x.text

/-- A name in a map. -/
def nameText : Data → String
  | .text s => s
  | _ => ""

mutual

/-- The value as JSON, or the type of the first value in it that has no such form. -/
def toJson : Data → Except String Json
  | .null => .ok .null
  | .bool b => .ok (.bool b)
  | .int n => .ok (.int n)
  | .float x => .ok (floatJson x)
  | .text s => .ok (.string s)
  | .list items => do return .array (← itemsJson items)
  | .map entries => do return .object (← membersJson entries)
  | other => .error other.foreignKind

/-- The values as JSON. -/
def itemsJson : List Data → Except String (List Json)
  | [] => .ok []
  | item :: more => do return (← toJson item) :: (← itemsJson more)

/-- The entries as members of an object. -/
def membersJson : List (Data × Data) → Except String (List (String × Json))
  | [] => .ok []
  | (name, value) :: more => do return (name.nameText, ← toJson value) :: (← membersJson more)

end

end CodeSurvey.Data
