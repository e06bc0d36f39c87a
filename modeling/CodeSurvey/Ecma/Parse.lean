import CodeSurvey.Ecma.Grammar.Module
import CodeSurvey.Ecma.TypeErasure

/-!
Reading a whole source into its tree, or rejecting it. The circle of rules is closed by a bound on
how deep the goals nest: every goal reads something after at most a few inner goals, so a multiple
of the length of the source is never reached. Typed sources lose their types first; in a file that
may hold markup, casts in angle brackets are left alone.
-/

namespace CodeSurvey.Ecma

/-- The grammar with goals nested at most `depth` deep. -/
def Grammar.bounded : Nat → Grammar
  | 0 => fun _ => Production.fail
  | depth + 1 => fun goal => Grammar.rule (Grammar.bounded depth) goal

/-- The source without a first line that names an interpreter. -/
def dropInterpreterLine (source : List Char) : List Char :=
  if ['#', '!'].isPrefixOf source then source.dropWhile (!isLineEnd ·) else source

/-- The tree of a source. A source with a NUL character is rejected, and so is one in which a
    shorthand property has a default value outside a pattern. -/
def parse? (source : List Char) : Option Node :=
  if source.any (·.toNat == 0) then none
  else
    let start := Cursor.seek (dropInterpreterLine source) 1 true
    match Grammar.program (Grammar.bounded (8 * source.length + 8)) start with
    | some (tree, _) => if tree.holdsShorthandDefault then none else some tree
    | none => none

/-- The text that the grammar is to read. -/
def prepared (path language : String) (code : List Char) : List Char :=
  if language == "typescript" then eraseTypes (".tsx".toList.isSuffixOf path.toList) code else code

/-- The tree of a source file. -/
def treeOf? (path language : String) (code : List Char) : Option Node :=
  parse? (prepared path language code)

end CodeSurvey.Ecma
