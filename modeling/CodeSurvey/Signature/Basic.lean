import CodeSurvey.Json.Basic
import CodeSurvey.Text.Basic

/-!
Signatures: what a source file declares, one record per function, class, method or bound function
literal, with the line it stands on.
-/

namespace CodeSurvey

/-- What a signature was found as. -/
inductive Signature.Kind where
  | function
  | classDef
  | method
  /-- A function literal bound to a variable. -/
  | arrow
  deriving DecidableEq, Repr

/-- The word for a kind. -/
def Signature.Kind.label : Signature.Kind → String
  | function => "function"
  | classDef => "class"
  | method => "method"
  | arrow => "arrow"

/-- One declaration of a source file. -/
structure Signature where
  name : String
  kind : Signature.Kind
  params : List String := []
  /-- The line of the declaration; the first line is 1. -/
  line : Nat
  async : Bool := false
  generator : Bool := false
  deriving DecidableEq, Repr

namespace Signature

/-- The record of a signature. -/
def toJson (s : Signature) : Json :=
  .object [("name", .string s.name), ("type", .string s.kind.label), ("params", .strings s.params),
    ("line", .nat s.line), ("async", .bool s.async), ("generator", .bool s.generator)]

/-- The names in a parameter list: `nameOf` finds the name in the text of one parameter, and a
    parameter without a name is left out. -/
def paramsWith (nameOf : List Char → List Char) (written : List Char) : List String :=
  (((Text.pieces ',' written).map nameOf).filter (· != [])).map String.ofList

/-- The parameters as they are written, without the blanks around them. -/
def writtenParams : List Char → List String := paramsWith Text.trim

end Signature

end CodeSurvey
