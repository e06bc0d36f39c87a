import CodeSurvey.Comment
import CodeSurvey.Distinct

/-!
Import specifiers of a source file, per language. Comments are dropped first; the specifiers are
listed in the order they are found, each once, and empty ones are left out. A language that scans
with several patterns lists all finds of the first pattern before those of the next.
-/

namespace CodeSurvey.Import

open Pattern

/-- The texts that are not empty, each at its first place. -/
def distinct (found : List (List Char)) : List (List Char) := (found.filter (· != [])).eraseDups

theorem mem_distinct (found : List (List Char)) (s : List Char) :
    s ∈ distinct found ↔ s ∈ found ∧ s ≠ [] := by simp [distinct]

theorem nodup_distinct (found : List (List Char)) : (distinct found).Nodup :=
  Distinct.nodup_eraseDups _

/-- What group 1 reads in each match. -/
def firstGroups (p : Pattern) (code : List Char) : List (List Char) :=
  (p.findAll code).map (·.group 1)

/-- A single or double quote. -/
def isQuote : Char → Bool := among "'\""

/-- A text in quotes without quotes in it; the text is group 1. -/
def quotedText : Pattern := seq [one isQuote, group 1 (others1 isQuote), one isQuote]

/-- A call of a function with a text. -/
def callOf (name : String) : Pattern :=
  seq [wordEdge, lit name, blanks, lit "(", blanks, quotedText, blanks, lit ")"]

/-- A call of `require` with a text. -/
def requireCall : Pattern := callOf "require"

/-- An import or an export up to its source. -/
def fromClause : Pattern :=
  seq [wordEdge, alt (lit "import") (lit "export"), blanks1, many false 0 (fun _ => true), blanks1,
    lit "from", blanks1, quotedText]

/-- An import for its effects alone. -/
def bareImport : Pattern := seq [wordEdge, lit "import", blanks1, quotedText]

/-- An import used as a function. -/
def importCall : Pattern := callOf "import"

/-- Specifiers of an ECMAScript module or script. -/
def ofScript (code : List Char) : List (List Char) :=
  let bare := Comment.dropSlashed code
  distinct ([requireCall, fromClause, bareImport, importCall].flatMap (firstGroups · bare))

/-- A character of a dotted name. -/
def isDottedChar (c : Char) : Bool := Text.isWordChar c || c == '.'

/-- An import of names from a module; group 1 is the module. -/
def pythonFrom : Pattern :=
  seq [lineStart, blanks, lit "from", blanks1, group 1 (many true 0 isDottedChar), blanks1,
    lit "import", wordEdge]

/-- An import of modules; group 1 is their list up to the first that is renamed. -/
def pythonImport : Pattern :=
  let name := many true 1 isDottedChar
  seq [lineStart, blanks, lit "import", blanks1,
    group 1 (seq [name, star (seq [blanks, lit ",", blanks, name])])]

/-- Modules that a Python source imports. -/
def ofPython (code : List Char) : List (List Char) :=
  let bare := Comment.dropKind Comment.hashLine code
  distinct (firstGroups pythonFrom bare ++
    (firstGroups pythonImport bare).flatMap fun names => (Text.pieces ',' names).map Text.trim)

/-- A path in double quotes; the path is group 1. -/
def doubleQuoted : Pattern := seq [lit "\"", group 1 (others1 (· == '"')), lit "\""]

/-- An import of one package, perhaps renamed. -/
def goSingle : Pattern :=
  seq [wordEdge, lit "import", blanks1, maybe (seq [word, blanks1]), doubleQuoted]

/-- A group of imports; group 1 is the inside of its parentheses. -/
def goGroup : Pattern :=
  seq [wordEdge, lit "import", blanks, lit "(", group 1 (many false 0 fun _ => true), lit ")"]

/-- Packages that a Go source imports. -/
def ofGo (code : List Char) : List (List Char) :=
  let bare := Comment.dropSlashed code
  distinct (firstGroups goSingle bare ++
    (firstGroups goGroup bare).flatMap (firstGroups doubleQuoted))

/-- A dotted name that begins with a capital letter, as group 1. -/
private def capitalName : Pattern :=
  group 1 (seq [one Char.isUpper, many true 0 isDottedChar])

/-- A directive with one module. -/
def elixirSingle : Pattern :=
  seq [lineStart, blanks, oneOf [lit "alias", lit "import", lit "use", lit "require"], blanks1,
    capitalName]

/-- An alias of several modules below one; group 1 is that module, group 2 lists the others. -/
def elixirGroup : Pattern :=
  seq [lineStart, blanks, lit "alias", blanks1, capitalName, lit ".\x7b",
    group 2 (others1 (· == '}')), lit "\x7d"]

/-- Modules that an Elixir source names in directives. -/
def ofElixir (code : List Char) : List (List Char) :=
  let bare := Comment.dropKind Comment.hashLine code
  distinct ((firstGroups elixirSingle bare).map (Text.dropTrailing '.') ++
    (elixirGroup.findAll bare).flatMap fun m =>
      (((Text.pieces ',' (m.group 2)).map Text.trim).filter (· != [])).map fun part =>
        m.group 1 ++ '.' :: part)

/-- A use declaration; group 1 is its path up to a group or a star. -/
def rustUse : Pattern :=
  seq [wordEdge, lit "use", blanks1, group 1 (many true 1 fun c => Text.isWordChar c || c == ':')]

/-- The declaration of a module in a file of its own. -/
def rustModule : Pattern :=
  seq [lineStart, blanks,
    maybe (seq [lit "pub", maybe (seq [lit "(", others (· == ')'), lit ")"]), blanks1]), lit "mod",
    blanks1, group 1 word, blanks, lit ";"]

/-- The declaration of an external crate. -/
def rustExtern : Pattern :=
  seq [wordEdge, lit "extern", blanks1, lit "crate", blanks1, group 1 word]

/-- Paths that a Rust source uses; a declared module counts as one below `self`. -/
def ofRust (code : List Char) : List (List Char) :=
  let bare := Comment.dropSlashed code
  distinct ((firstGroups rustUse bare).map (Text.dropTrailing ':') ++
    (firstGroups rustModule bare).map ("self::".toList ++ ·) ++ firstGroups rustExtern bare)

/-- The scan for a language. -/
def scannerFor? (language : String) : Option (List Char → List (List Char)) :=
  [("javascript", ofScript), ("typescript", ofScript), ("python", ofPython), ("go", ofGo),
    ("elixir", ofElixir), ("rust", ofRust)].lookup language

/-- The language has an import scan. -/
def isImportable (language : String) : Bool := (scannerFor? language).isSome

end CodeSurvey.Import
