import CodeSurvey.Comment

/-!
Exports by assignment: `module.exports.x = ..`, `exports.x = ..` and the keys of
`module.exports = {..}`, found in the text without its line comments. Each name is listed once.
-/

namespace CodeSurvey.Export

open Pattern

/-- An assignment to a member of `module.exports`; group 1 is the member. -/
def memberOfModule : Pattern := seq [lit "module.exports.", group 1 word, blanks, lit "="]

/-- An assignment to a member of a free `exports`; group 1 is the member. -/
def memberOfExports : Pattern :=
  seq [notAfter (fun c => c == '.' || Text.isWordChar c), lit "exports.", group 1 word, blanks,
    lit "="]

/-- An object assigned to `module.exports`; group 1 is its inside up to the first closing brace. -/
def exportedObject : Pattern :=
  seq [lit "module.exports", blanks, lit "=", blanks, lit "\x7b", group 1 (others1 (· == '}')),
    lit "\x7d"]

/-- An entry of an object that begins with a key; group 1 is the key. -/
def objectKey : Pattern := seq [blanks, group 1 word, blanks, alt (lit ":") textEnd]

/-- The names assigned as exports, in the order they are found: members of `module.exports`, then
    members of `exports`, then the keys of the first exported object. -/
def assignedNames (code : List Char) : List String :=
  let bare := Comment.dropKind Comment.slashLine code
  let members := (memberOfModule.findAll bare ++ memberOfExports.findAll bare).map (·.group 1)
  let keys := (exportedObject.first? bare).elim [] fun m =>
    (Text.pieces ',' (m.group 1)).filterMap fun entry =>
      (objectKey.matchStart? entry).map (·.group 1)
  ((members ++ keys).map String.ofList).eraseDups

end CodeSurvey.Export
