import CodeSurvey.Pattern.Search
import CodeSurvey.Signature.Basic

/-!
Signatures in languages without a grammar. A detector is one pattern for a declaration together
with the rule that finds a name in the text of one parameter; it sees single declarations at the
start of a line and knows nothing of nesting.
-/

namespace CodeSurvey.Signature

open Pattern

/-- How the functions of a language are found. -/
structure Detector where
  /-- A declaration. -/
  declaration : Pattern
  /-- The group that is the function's name. -/
  name : Nat
  /-- The group that is its parameter list. -/
  params : Nat
  /-- The group that marks it as asynchronous. -/
  async : Option Nat := none
  /-- The name in the text of one parameter. -/
  paramName : List Char → List Char

namespace Detector

/-- The function that a match declares. -/
def read (d : Detector) (line : Nat) (m : Match) : Signature where
  name := String.ofList (m.group d.name)
  kind := .function
  params := paramsWith d.paramName (m.group d.params)
  line := line
  async := d.async.any fun n => (m.group? n).isSome

/-- The functions that a text declares, each with the line its match begins on. -/
def scan (d : Detector) (code : List Char) : List Signature :=
  (d.declaration.findAll code).map fun m =>
    d.read (Text.lineFeeds (code.take m.start) + 1) m

/-- A parameter list in parentheses, without them as group `n`. -/
private def listInside (n : Nat) : Pattern :=
  seq [lit "(", group n (others (· == ')')), lit ")"]

/-- Blanks and tabs. -/
private def indent : Pattern := many true 0 (among " \t")

/-- What stands before the first `c`. -/
private def upTo (c : Char) (s : List Char) : List Char := s.takeWhile (· != c)

/-- The last word. -/
private def lastWord (s : List Char) : List Char := (Text.words s).getLast?.getD []

/-- Annotations and default values follow the name. -/
def python : Detector where
  declaration := seq [lineStart, maybe (group 1 (seq [lit "async", blanks1])), lit "def", blanks1,
    group 2 word, blanks, listInside 3]
  name := 2
  params := 3
  async := some 1
  paramName := fun p => Text.trim (upTo '=' (upTo ':' p))

/-- The type follows the name; a receiver may stand before the function's name. -/
def go : Detector where
  declaration := seq [lineStart, lit "func", blanks1,
    maybe (seq [lit "(", many true 1 (fun c => Text.isWordChar c || Text.isBlank c || c == '*'),
      lit ")", blanks1]), group 1 word, blanks, listInside 2]
  name := 1
  params := 2
  paramName := fun p => (Text.words p).head?.getD []

/-- The type follows the name after a colon. -/
def rust : Detector where
  declaration := seq [lineStart, maybe (group 1 (seq [lit "pub", blanks1])),
    maybe (group 2 (seq [lit "async", blanks1])), lit "fn", blanks1, group 3 word, blanks,
    maybe (seq [lit "<", others (· == '>'), lit ">"]), blanks, listInside 4]
  name := 3
  params := 4
  async := some 2
  paramName := fun p => Text.trim (upTo ':' p)

/-- The parameter list may be missing; its parentheses belong to the group. -/
private def optionalList : Pattern :=
  seq [indent, maybe (group 2 (seq [lit "(", others (· == ')'), lit ")"]))]

/-- A parameter as written, without parentheses. -/
private def withoutParens (p : List Char) : List Char := Text.trim (p.filter (!among "()" ·))

/-- A name may end in a question mark, an exclamation mark or an equals sign. -/
def ruby : Detector where
  declaration := seq [lineStart, indent, lit "def", blanks1,
    group 1 (seq [word, maybe (one (among "?!="))]), optionalList]
  name := 1
  params := 2
  paramName := withoutParens

/-- Public functions and private ones. -/
def elixir : Detector where
  declaration := seq [lineStart, indent, lit "def", maybe (lit "p"), blanks1, group 1 word,
    optionalList]
  name := 1
  params := 2
  paramName := withoutParens

/-- Modifiers at the start of a line. -/
private def modifiers : Pattern :=
  seq [lineStart, indent, maybe (oneOf [lit "public", lit "private", lit "protected"]), indent,
    maybe (lit "static"), indent]

/-- The type stands before the name, of a parameter as of the method. -/
def java : Detector where
  declaration := seq [modifiers, many true 1 (fun c => Text.isWordChar c || among "<>[]" c),
    blanks1, group 1 word, blanks, listInside 2]
  name := 1
  params := 2
  paramName := lastWord

/-- A parameter's name is its last word, without the dollar signs. -/
def php : Detector where
  declaration := seq [modifiers, lit "function", blanks1, group 1 word, blanks, listInside 2]
  name := 1
  params := 2
  paramName := fun p => (lastWord p).dropWhile (· == '$')

/-- The detector of a language. -/
def forLanguage? (language : String) : Option Detector :=
  [("python", python), ("go", go), ("rust", rust), ("ruby", ruby), ("elixir", elixir),
    ("java", java), ("php", php)].lookup language

end Detector

end CodeSurvey.Signature
