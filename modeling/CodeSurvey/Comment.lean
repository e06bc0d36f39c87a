import CodeSurvey.Pattern.Search

/-!
Removing comments from a text without reading its grammar: a comment opener inside a string counts
as one too.
-/

namespace CodeSurvey.Comment

open Pattern

/-- A double slash and the rest of the line. -/
def slashLine : Pattern := seq [lit "//", others (· == '\n')]

/-- A hash sign and the rest of the line. -/
def hashLine : Pattern := seq [lit "#", others (· == '\n')]

/-- Everything from a block opener to the next block closer. -/
def block : Pattern := seq [lit "/*", many false 0 (fun _ => true), lit "*/"]

/-- The text without one kind of comment. -/
def dropKind (comment : Pattern) (code : List Char) : List Char :=
  comment.replace (fun _ => []) code

/-- The text without block comments and then without double-slash comments. -/
def dropSlashed (code : List Char) : List Char := dropKind slashLine (dropKind block code)

end CodeSurvey.Comment
