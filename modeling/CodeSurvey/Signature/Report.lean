import CodeSurvey.Ecma.Parse
import CodeSurvey.Export.Surface
import CodeSurvey.Language
import CodeSurvey.Signature.Detector
import CodeSurvey.Signature.LineScan
import CodeSurvey.Signature.Walk

/-!
The signatures and the export surface of one source file, by whatever means its language allows: a
grammar, a line scan where the grammar rejects the source, or a detector.
-/

namespace CodeSurvey

/-- The signatures of a source file. -/
structure SignatureReport where
  signatures : List Signature := []
  language : Option String := none
  surface : Option Export.Surface := none
  problem : Option Problem := none
  deriving DecidableEq, Repr

namespace SignatureReport

/-- The report on a source in a language with a grammar. -/
def ofScript (path language : String) (code : List Char) : SignatureReport :=
  let tree := Ecma.treeOf? path language code
  let surface := Export.Surface.of tree code language
  match tree with
  | some tree =>
    { signatures := Signature.ofTree tree, language := some language, surface := some surface }
  | none =>
    let found := Signature.LineScan.scan code
    { signatures := found, language := some language, surface := some surface,
      problem := if found.isEmpty then some .parseFailed else none }

/-- The report on a source in a known language. -/
def ofCode (path language : String) (code : List Char) : SignatureReport :=
  if Language.hasGrammar language then ofScript path language code
  else match Signature.Detector.forLanguage? language with
    | some detector => { signatures := detector.scan code, language := some language }
    | none => { language := some language, problem := some .noDetector }

/-- The report on the file at a path, given its text unless it cannot be read; the language is the
    one asked for, or else told by the path. -/
def of (path : String) (asked : Option String) (text : Option (List Char)) : SignatureReport :=
  match text with
  | none => { problem := some .fileNotFound }
  | some code =>
    match Language.choose? asked path with
    | some language => ofCode path language code
    | none => { problem := some .unknownLanguage }

/-- The record of a report. -/
def toJson (r : SignatureReport) : Json :=
  .object <| [("signatures", .array (r.signatures.map Signature.toJson)),
      ("language", .string? r.language)] ++
    (r.surface.map fun s => ("export_surface", s.toJson)).toList ++
    (r.problem.map fun p => ("error", Json.string p.tag)).toList

end SignatureReport

/-- The export surface of the file at a path, given its text unless it cannot be read. -/
def Export.Surface.ofFile (path : String) (asked : Option String) (text : Option (List Char)) :
    Export.Surface :=
  match text with
  | none => { problem := some .fileNotFound }
  | some code =>
    match Language.choose? asked path with
    | some language =>
      if Language.hasGrammar language then
        Export.Surface.of (Ecma.treeOf? path language code) code language
      else { language := some language, problem := some .unsupportedLanguage }
    | none => { problem := some .unsupportedLanguage }

end CodeSurvey
