import CodeSurvey.Graph.Rank
import CodeSurvey.Plan.Document
import CodeSurvey.Schedule.Model

/-!
How complex a task is. A task starts at 1 and gains points for many files, for files that many
others import, for tests, for a person who has to look on, and for a long description of what to
do; 5 is the most. Each factor that counted is listed with the score.
-/

namespace CodeSurvey.Schedule

open Pattern

/-- Something that makes a task more complex. -/
inductive Factor where
  | manyFiles (count : Nat)
  | severalFiles (count : Nat)
  | manyImporters (count : Nat)
  | severalImporters (count : Nat)
  | tests
  | checkpoint (kind : String)
  | longAction
  /-- The task cannot be read. -/
  | unreadable
  deriving DecidableEq, Repr

/-- An action is long if it has more characters. -/
def actionLimit : Nat := 800

/-- The words for a factor. -/
def Factor.message : Factor → String
  | manyFiles n => s!"{n} files (high)"
  | severalFiles n => s!"{n} files"
  | manyImporters n => s!"high blast radius ({n} importers)"
  | severalImporters n => s!"moderate blast radius ({n} importers)"
  | tests => "has tests"
  | checkpoint kind => s!"checkpoint ({kind})"
  | longAction => s!"complex action (>{actionLimit} chars)"
  | unreadable => "classification error - defaulting"

/-- From which number on there are several of something, and from which on many. -/
structure Thresholds where
  several : Nat
  many : Nat
  several_le_many : several ≤ many
  deriving DecidableEq, Repr

/-- Three files are several and six are many. -/
def fileThresholds : Thresholds := ⟨3, 6, by decide⟩

/-- Three importers are several and six are many. -/
def importerThresholds : Thresholds := ⟨3, 6, by decide⟩

/-- The word `test`, or the name of a command or a tool that runs tests. -/
def testIdiom : Pattern :=
  oneOf [seq [wordEdge, anyCase "test", wordEdge], seq [anyCase "npm", blanks1, anyCase "test"],
    anyCase "pytest", anyCase "jest", anyCase "mocha", anyCase "vitest",
    seq [anyCase "go", blanks1, anyCase "test"], seq [anyCase "mix", blanks1, anyCase "test"]]

/-- The text speaks of tests. -/
def mentionsTests (s : List Char) : Bool := testIdiom.occursIn s

/-- The types of checkpoints at which a person decides or confirms. -/
def humanCheckpoints : List String := ["checkpoint:decision", "checkpoint:human-verify"]

/-- What has been counted of a task so far: its points, and the factors that they are for. -/
structure Tally where
  points : Nat
  factors : List Factor
  deriving DecidableEq, Repr

namespace Tally

/-- Every task has a point before anything counts. -/
def start : Tally := ⟨1, []⟩

/-- Counts a factor for so many points. -/
def add (t : Tally) (points : Nat) (factor : Factor) : Tally :=
  ⟨t.points + points, t.factors ++ [factor]⟩

/-- Counts a number of things for two points if they are many, and for one if they are several. -/
def addCount (t : Tally) (limits : Thresholds) (high moderate : Nat → Factor) (n : Nat) : Tally :=
  if limits.many ≤ n then t.add 2 (high n)
  else if limits.several ≤ n then t.add 1 (moderate n)
  else t

/-- Counts a factor for one point if it is there. -/
def addIf (t : Tally) (present : Bool) (factor : Factor) : Tally :=
  if present then t.add 1 factor else t

/-- Counts a task with so many files, importers, if they are known, and characters of its
    action. -/
def ofTask (files : Nat) (importers : Option Nat) (hasTests : Bool) (kind : String)
    (actionLength : Nat) : Tally :=
  let t := start.addCount fileThresholds .manyFiles .severalFiles files
  let t := match importers with
    | some n => t.addCount importerThresholds .manyImporters .severalImporters n
    | none => t
  let t := t.addIf hasTests .tests
  let t := t.addIf (humanCheckpoints.contains kind) (.checkpoint kind)
  t.addIf (actionLimit < actionLength) .longAction

end Tally

/-- A score from 1 to 5 with the factors that it is for. -/
structure Score where
  value : Nat
  factors : List Factor
  one_le_value : 1 ≤ value
  value_le : value ≤ 5
  deriving DecidableEq, Repr

namespace Score

/-- The score of what was counted, brought into its range. -/
def ofTally (t : Tally) : Score :=
  { value := max 1 (min 5 t.points)
    factors := t.factors
    one_le_value := Nat.le_max_left ..
    value_le := Nat.max_le.2 ⟨by decide, Nat.min_le_left ..⟩ }

/-- The model that the score asks for. -/
def model (s : Score) : String := modelOf s.value

/-- The word for the score. -/
def label (s : Score) : String := labelOf s.value

/-- The score of a task that cannot be read: one of the middle. -/
def unknown : Score := ofTally ⟨3, [.unreadable]⟩

/-- The record of a score. -/
def toJson (s : Score) : Json :=
  .object [("score", .nat s.value), ("label", .string s.label),
    ("factors", .strings (s.factors.map Factor.message)), ("recommended_model", .string s.model),
    ("recommended_agent", .string defaultAgent)]

end Score

/-- The score of a task; without a graph nothing is known of importers. -/
def score (t : Plan.Task) (graph : Option DependencyGraph) : Score :=
  let importers := graph.map fun g => Graph.countImporters g t.files
  let hasTests := mentionsTests t.action.toList || mentionsTests t.verify.toList
  .ofTally (.ofTask t.files.length importers hasTests t.kind t.action.length)

end CodeSurvey.Schedule
