import CodeSurvey.Pattern.Search
import CodeSurvey.Signature.Basic

/-!
Signatures of a source that the grammar rejects, recovered line by line. A line counts if a
function, a class or a bound function literal begins at its first character; the first of these
three readings that fits is taken.
-/

namespace CodeSurvey.Signature.LineScan

open Pattern

/-- The word `export`, if there. -/
def exported : Pattern := maybe (seq [lit "export", blanks1])

/-- The word `async`, if there. -/
def asyncWord : Pattern := maybe (seq [lit "async", blanks1])

/-- Everything up to a closing parenthesis, as group 2. -/
def parameters : Pattern := group 2 (others (· == ')'))

/-- A function with its parameter list; group 1 is its name. -/
def functionLine : Pattern :=
  seq [exported, asyncWord, lit "function", blanks, maybe (lit "*"), blanks1, group 1 word, blanks,
    lit "(", parameters, lit ")"]

/-- A class; group 1 is its name. -/
def classLine : Pattern := seq [exported, lit "class", blanks1, group 1 word]

/-- A variable bound to an arrow function; group 1 is its name. -/
def arrowLine : Pattern :=
  seq [exported, oneOf [lit "const", lit "let", lit "var"], blanks1, group 1 word, blanks, lit "=",
    blanks, asyncWord, maybe (lit "("), parameters, maybe (lit ")"), blanks, lit "=>"]

/-- A function marked `async`. -/
def asyncFunction : Pattern := seq [lit "async", blanks1, lit "function"]

/-- A function marked as a generator. -/
def starredFunction : Pattern := seq [lit "function", blanks, lit "*"]

/-- A value marked `async`. -/
def asyncValue : Pattern := seq [lit "=", blanks, lit "async"]

/-- The signature on a line. -/
def ofLine? (number : Nat) (line : List Char) : Option Signature :=
  match functionLine.matchStart? line with
  | some m => some {
      name := String.ofList (m.group 1), kind := .function, params := writtenParams (m.group 2),
      line := number, async := asyncFunction.occursIn line,
      generator := starredFunction.occursIn line }
  | none =>
    match classLine.matchStart? line with
    | some m => some { name := String.ofList (m.group 1), kind := .classDef, line := number }
    | none =>
      (arrowLine.matchStart? line).map fun m => {
        name := String.ofList (m.group 1), kind := .arrow, params := writtenParams (m.group 2),
        line := number, async := asyncValue.occursIn line }

/-- The signatures of the lines, the first of which has a number. -/
def ofLines (number : Nat) : List (List Char) → List Signature
  | [] => []
  | line :: more => (ofLine? number line).toList ++ ofLines (number + 1) more

/-- The signatures that a scan of the lines finds. -/
def scan (code : List Char) : List Signature := ofLines 1 (Text.pieces '\n' code)

end CodeSurvey.Signature.LineScan
