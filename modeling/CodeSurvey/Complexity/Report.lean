import CodeSurvey.Complexity.Estimate
import CodeSurvey.Complexity.Score
import CodeSurvey.Ecma.Parse
import CodeSurvey.Language
import CodeSurvey.Problem

/-!
The complexity of one source file: its functions and their sum where a grammar reads the source,
else one estimate for the whole text.
-/

namespace CodeSurvey

/-- The complexity of a source file. -/
structure ComplexityReport where
  file : String
  total : Nat := 0
  functions : List Complexity.FunctionScore := []
  problem : Option Problem := none
  deriving DecidableEq, Repr

namespace ComplexityReport

/-- The report that holds a single estimate for the whole text. -/
def ofEstimate (path : String) (code : List Char) (problem : Option Problem) : ComplexityReport :=
  let total := Complexity.estimate code
  { file := path, total, functions := [⟨"<module>", 1, total, 0⟩], problem }

/-- The report on a source in a known language. -/
def ofCode (path language : String) (code : List Char) : ComplexityReport :=
  if Language.hasGrammar language then
    match Ecma.treeOf? path language code with
    | some tree =>
      let functions := Complexity.scores tree
      { file := path, total := (functions.map (·.complexity)).foldr (· + ·) 0, functions }
    | none => ofEstimate path code (some .estimated)
  else ofEstimate path code none

/-- The report on the file at a path, given its text unless it cannot be read; the language is the
    one asked for, or else told by the path. -/
def of (path : String) (asked : Option String) (text : Option (List Char)) : ComplexityReport :=
  match text with
  | none => { file := path, problem := some .fileNotFound }
  | some code =>
    match Language.choose? asked path with
    | some language => ofCode path language code
    | none => { file := path, problem := some .unknownLanguage }

/-- The record of a report. -/
def toJson (r : ComplexityReport) : Json :=
  .object <| [("file", .string r.file), ("module_complexity", .nat r.total),
      ("functions", .array (r.functions.map fun f =>
        .object [("name", .string f.name), ("line", .nat f.line), ("complexity", .nat f.complexity),
          ("nesting_max", .nat f.nesting)]))] ++
    (r.problem.map fun p => ("error", Json.string p.tag)).toList

end ComplexityReport

end CodeSurvey
