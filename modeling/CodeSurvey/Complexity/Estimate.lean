import CodeSurvey.Pattern.Search

/-!
Complexity estimated from text alone: one more than the number of branching words and signs, for
sources that no grammar reads.
-/

namespace CodeSurvey.Complexity

open Pattern

/-- A word on its own. -/
private def aloneWord (s : String) : Pattern := seq [wordEdge, lit s, wordEdge]

/-- What counts as a branch. An `else if` counts for itself and for the `if` in it. -/
def branchMarks : List Pattern := [
  aloneWord "if", seq [wordEdge, lit "else", blanks1, lit "if", wordEdge], aloneWord "elif",
  aloneWord "for", aloneWord "while", aloneWord "switch", aloneWord "case", aloneWord "catch",
  aloneWord "except", lit "&&", lit "||"]

/-- The estimate for a text. -/
def estimate (code : List Char) : Nat :=
  1 + (branchMarks.map fun p => (p.findAll code).length).foldr (· + ·) 0

end CodeSurvey.Complexity
