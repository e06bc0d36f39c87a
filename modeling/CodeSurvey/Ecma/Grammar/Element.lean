import CodeSurvey.Ecma.Grammar.Basic

/-!
Markup inside expressions: elements with attributes, text and embedded expressions. Text between
tags is no sequence of tokens, so these rules look at the source itself there. An element ends on
its last angle bracket: what is behind it is text inside another element, and tokens elsewhere.
-/

namespace CodeSurvey.Ecma.Grammar

open Production Pattern

/-- A name in markup: one with dashes in it, which is ASCII, or an ordinary one. -/
def markupName : Pattern :=
  let inner := fun (c : Char) => c.isAlphanum || c == '_' || c == '$'
  alt (seq [one fun c => inner c && !c.isDigit, many true 0 inner, lit "-",
      many true 0 fun c => inner c || c == '-'])
    namePattern

/-- At least one and at most `more + 1` characters of a set. -/
def fewOf (set : Char → Bool) : Nat → Pattern
  | 0 => one set
  | more + 1 => seq [one set, maybe (fewOf set more)]

/-- A character written by its name of up to thirty letters, or by its number of up to five digits
    or six hexadecimal ones. -/
def characterReference : Pattern :=
  let hex := fun (c : Char) => c.isDigit || among "abcdefABCDEF" c
  seq [lit "&",
    oneOf [seq [lit "#", one (among "xX"), fewOf hex 5],
      seq [lit "#", fewOf Char.isDigit 4],
      fewOf Char.isAlpha 29], lit ";"]

/-- The text of an attribute between quotes of one kind. An ampersand that a letter or a hash sign
    follows has to begin a character reference; any other takes the next character with it. -/
def attributeText (quote : Char) : Pattern :=
  seq [one (· == quote),
    star (oneOf [one fun c => c != quote && c != '&', characterReference,
      seq [lit "&", one fun c => !c.isAlpha && c != '#']]),
    one (· == quote)]

/-- Text between tags. -/
def elementText : Pattern := star (alt (one (!among "<>\x7b\x7d&" ·)) characterReference)

/-- The source goes on with this character. -/
def atChar (c : Char) : Production Bool := do return (← get).source.head? == some c

/-- Skips a character and what separates it from the next token. -/
def skipChar (c : Char) : Production Unit := do
  let here ← get
  require (here.source.head? == some c)
  jump (here.source.drop 1) here.line

/-- Reads what a pattern matches in the source itself. -/
def spelledBy (p : Pattern) : Production (List Char) := do
  let here ← get
  match p.matchStart? here.source with
  | some m =>
    jump (here.source.drop m.length) (here.line + Text.lineFeeds m.text)
    return m.text
  | none => fail

/-- Reads the name of an attribute: a name, or two joined by a colon. -/
def attributeName : Production (List Char) := do
  let first ← spelledBy markupName
  if ← atChar ':' then
    skipChar ':'
    return first ++ ':' :: (← spelledBy markupName)
  else return first

/-- Reads the name of an element: one like that of an attribute, or ordinary names joined by
    dots. -/
def elementName : Production Node := do
  let line := (← get).line
  let first ← attributeName
  let more ← manyWhile (atChar '.') do
    skipChar '.'
    return '.' :: (← spelledBy namePattern)
  require (more.isEmpty || !first.any (among "-:"))
  return { kind := .elementName, role := .name, line,
           text := String.ofList (first ++ more.flatten) }

/-- Reads what stands in braces: an expression, a spread one, or nothing but comments. -/
def embedded (g : Grammar) : Production (List Node) := do
  skipChar '{'
  if ← atChar '}' then return []
  else
    let line := (← get).line
    if ← skipSign "..." then
      let spread : Node := { kind := .spread, line, children := [← g (.assignment true)] }
      return [spread]
    else return [← g .expression]

/-- Reads an attribute: a name with or without a value, or a spread object. -/
def elementAttribute (g : Grammar) : Production Node := do
  let line := (← get).line
  if ← atChar '{' then
    let inside ← embedded g
    skipChar '}'
    return { kind := .attribute, line, children := inside }
  else
    let _ ← attributeName
    if ← atChar '=' then
      skipChar '='
      let value ← if ← atChar '{' then do
          let inside ← embedded g
          skipChar '}'
          pure inside
        else if ← atChar '<' then do
          let inside ← g .element
          skipChar '>'
          pure [inside]
        else do
          let _ ← spelledBy (alt (attributeText '"') (attributeText '\''))
          pure []
      return { kind := .attribute, line, children := value }
    else return { kind := .attribute, line }

/-- Reads the attributes of an element. -/
def attributes (g : Grammar) : Production (List Node) :=
  manyWhile (do return !(← atChar '/') && !(← atChar '>')) (elementAttribute g)

/-- Reads text, embedded expressions and elements from `source` on until a closing tag begins, and
    ends behind the slash of that tag. -/
def elementChildren (g : Grammar) (source : List Char) (line : Nat) : Production (List Node) := do
  let toMarkup := fun (source : List Char) (line : Nat) =>
    let text := elementText.leading source
    (source.drop text.length, line + Text.lineFeeds text)
  let finished ← iterate (fun (state : List Node × List Char × Nat) => do
    match state with
    | (nodes, '{' :: rest, line) =>
      jump ('{' :: rest) line
      let inside ← embedded g
      require (← atChar '}')
      let stop ← get
      return some (inside ++ nodes, toMarkup (stop.source.drop 1) stop.line)
    | (_, '<' :: '/' :: rest, line) =>
      jump ('/' :: rest) line
      return none
    | (nodes, '<' :: rest, line) =>
      jump ('<' :: rest) line
      let node ← g .element
      let stop ← get
      return some (node :: nodes, toMarkup (stop.source.drop 1) stop.line)
    | _ => fail) ([], toMarkup source line)
  skipChar '/'
  return finished.1.reverse

/-- Reads what is between the angle bracket that ends an opening tag and the one that ends its
    closing tag. Either tag may be without a name, and their names are not compared. -/
def elementRest (g : Grammar) : Production (List Node) := do
  require (← atChar '>')
  let here ← get
  let inside ← elementChildren g (here.source.drop 1) here.line
  if !(← atChar '>') then
    let _ ← elementName
  require (← atChar '>')
  return inside

/-- Reads an element or a fragment up to its last angle bracket. -/
def element (g : Grammar) : Production Node := do
  let line := (← get).line
  skipChar '<'
  if ← atChar '>' then
    return { kind := .element, line, children := ← elementRest g }
  else
    let tag ← elementName
    let marks ← attributes g
    if ['/', '>'].isPrefixOf (← get).source then
      skipChar '/'
      return { kind := .selfClosingElement, line, children := tag :: marks }
    else return { kind := .element, line, children := marks ++ (← elementRest g) }

/-- Reads an element where tokens follow. -/
def elementValue (g : Grammar) : Production Node := do
  let node ← g .element
  skipChar '>'
  return node

end CodeSurvey.Ecma.Grammar
