import CodeSurvey.Json.Basic
import CodeSurvey.Pattern.Basic
import CodeSurvey.Pattern.Search
import CodeSurvey.Yaml.Value

/-!
What is read off the text of a plan: its head and its tasks.

The head is a mapping between the line `---` at the start of a plan and the next line that begins
with three hyphens. A plan without such a block, with a malformed one or with one that is no mapping
has an empty head.

A task is a block between tags, the opening one with its type; its parts are elements inside the
block, of which the first of each name counts. Text between elements and between tasks is free.
-/

namespace CodeSurvey.Plan

open Pattern

/-- The block at the start of a plan; group 1 is its inside, which is not empty. -/
def headBlock : Pattern :=
  seq [lit "---", maybe (lit "\r"), lit "\n", group 1 (many false 1 fun _ => true),
    maybe (lit "\r"), lit "\n---"]

/-- The inside of the block at the start of a plan; byte order marks before it do not count. -/
def headText? (content : List Char) : Option (List Char) :=
  (headBlock.matchStart? (content.dropWhile (· == '\uFEFF'))).map (·.group 1)

/-- The entries of the head of a plan. -/
def frontmatter (content : List Char) : Except Yaml.Fault (List (Data × Data)) :=
  match headText? content with
  | none => .ok []
  | some inside =>
    match Yaml.load inside with
    | .ok (.map entries) => .ok entries
    | .ok _ | .error .malformed => .ok []
    | .error f => .error f

/-! ### Tasks -/

/-- A task. -/
structure Task where
  name : String
  /-- The type: who does the task, and whether somebody has to look at it. -/
  kind : String := "auto"
  files : List String := []
  action : String := ""
  verify : String := ""
  /-- What is the case when the task is done. -/
  outcome : String := ""
  deriving DecidableEq, Repr, Inhabited

/-- What the types of checkpoints begin with. -/
def checkpointMark : String := "checkpoint:"

/-- A type of tasks at which a person has to look on. -/
def isCheckpointKind (kind : String) : Bool :=
  checkpointMark.toList.isPrefixOf kind.toList

/-- A person has to look on at the task. -/
def Task.isCheckpoint (t : Task) : Bool := isCheckpointKind t.kind

/-- The record of a task. -/
def Task.toJson (t : Task) : Json :=
  .object [("name", .string t.name), ("type", .string t.kind), ("files", .strings t.files),
    ("action", .string t.action), ("verify", .string t.verify), ("done", .string t.outcome),
    ("is_checkpoint", .bool t.isCheckpoint)]

/-- The block of a task; group 1 is its type, group 2 its inside. -/
def taskBlock : Pattern :=
  seq [lit "<task", blanks1, lit "type=\"", group 1 (others (· == '"')), lit "\"",
    others (· == '>'), lit ">", group 2 (many false 0 fun _ => true), lit "</task>"]

/-- An element; group 1 is its inside. Its name is written in any case. -/
def elementBlock (name : String) : Pattern :=
  seq [lit "<", anyCase name, lit ">", group 1 (many false 0 fun _ => true), lit "</",
    anyCase name, lit ">"]

/-- The text of the first element of a name, blanks around it apart. -/
def element? (name : String) (inside : List Char) : Option (List Char) :=
  ((elementBlock name).first? inside).map fun m => Text.trim (m.group 1)

/-- The text of an element, or another one if it is missing or empty. -/
def elementOr (name other : String) (inside : List Char) : String :=
  match element? name inside with
  | none | some [] => other
  | some found => String.ofList found

/-- The files of a list with commas between them; blanks around a file and empty places do not
    count. -/
def filesIn (list : List Char) : List String :=
  (((Text.pieces ',' list).map Text.trim).filter (· != [])).map String.ofList

theorem filesIn_no_empty (list : List Char) : "" ∉ filesIn list := by simp [filesIn]

/-- The task of a block. -/
def Task.ofBlock (m : Match) : Task :=
  let inside := m.group 2
  { name := elementOr "name" "Unnamed Task" inside
    kind := if (m.group 1).isEmpty then "auto" else String.ofList (m.group 1)
    files := filesIn ((element? "files" inside).getD [])
    action := elementOr "action" "" inside
    verify := elementOr "verify" "" inside
    outcome := elementOr "done" "" inside }

/-- The tasks of a plan in their order. -/
def tasks (content : List Char) : List Task := (taskBlock.findAll content).map Task.ofBlock

end CodeSurvey.Plan
