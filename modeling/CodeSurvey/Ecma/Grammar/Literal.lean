import CodeSurvey.Ecma.Grammar.Function

/-!
Literals: arrays, objects, templates and regular expressions, and lists in parentheses.
-/

namespace CodeSurvey.Ecma.Grammar

open Production

/-- Reads an expression or, after three dots, a spread one. -/
def spreadable (g : Grammar) : Production Node := do
  let line := (← get).line
  if ← skipSign "..." then
    return { kind := .spread, line, children := [← g (.assignment true)] }
  else g (.assignment true)

/-- Reads the arguments of a call. -/
def arguments (g : Grammar) : Production Node := do
  let line := (← get).line
  sign "("
  return { kind := .argumentList, line, children := ← listUntil ")" (spreadable g) }

/-- Reads an array, which may have holes. -/
def array (g : Grammar) : Production Node := do
  let line := (← get).line
  sign "["
  let items ← listUntil "]" do
    if ← atSign "," then return none else return some (← spreadable g)
  return { kind := .array, line, children := items.filterMap id }

/-- Reads a property: a spread value, a method, a key with a value, or a name that stands for
    itself. -/
def objectProperty (g : Grammar) : Production Node := do
  let start ← get
  if ← atSign "..." then spreadable g
  else
    let marks ← methodMarks
    let here ← get
    let key ← propertyKey g
    if ← atSign "(" then method g marks start.line [] key
    else
      require (marks == {})
      if ← skipSign ":" then
        let value ← g (.assignment true)
        return { kind := .pair, line := start.line, children := [key, value.as .value] }
      else
        match nameOf? here.token with
        | none => fail
        | some text =>
          let own : Node := { kind := .shorthand, line := start.line, text }
          if ← skipSign "=" then
            let value ← g (.assignment true)
            return { kind := .shorthandDefault, line := start.line,
                     children := [own.as .left, value.as .right] }
          else return own

/-- Reads an object. -/
def object (g : Grammar) : Production Node := do
  let line := (← get).line
  sign "\x7b"
  return { kind := .object, line, children := ← listUntil "\x7d" (objectProperty g) }

/-- Reads a template: stretches of text with expressions in braces between them. -/
def template (g : Grammar) : Production Node := do
  let start ← get
  require (start.token == .sign "\x60")
  let stretch := fun (source : List Char) (line : Nat) =>
    let text := templatePattern.leading source
    (source.drop text.length, line + Text.lineFeeds text)
  let finished ← iterate (fun (state : List Node × List Char × Nat) => do
    match state with
    | (parts, '$' :: '{' :: inside, line) =>
      jump inside line
      let part ← g .expression
      let stop ← get
      require (stop.token == .sign "\x7d")
      return some (part :: parts, stretch stop.after stop.line)
    | _ => return none) ([], stretch start.after start.line)
  match finished with
  | (parts, '\x60' :: rest, line) =>
    jump rest line
    return { kind := .template, line := start.line, children := parts.reverse }
  | _ => fail

/-- Reads a regular expression. -/
def regularExpression : Production Node := do
  let start ← get
  match regexPattern.matchStart? start.source with
  | some m =>
    jump (start.source.drop m.length) start.line
    return { kind := .regularExpression, line := start.line }
  | none => fail

/-- Reads a list in parentheses. A list that is empty, ends in a comma or holds a rest element can
    only be the parameters of an arrow function, so an arrow has to follow it. -/
def parenthesised (g : Grammar) : Production Node := do
  let line := (← get).line
  sign "("
  let items ← manyWhile (do return !(← atSign ")")) do
    let item ← spreadable g
    let comma ← skipSign ","
    require (comma || (← atSign ")"))
    return (item, comma)
  sign ")"
  let nodes := items.map (·.1)
  let plain := !nodes.isEmpty && nodes.all (·.kind != .spread) && items.getLast?.all (!·.2)
  if plain then
    match nodes with
    | [e] => return { kind := .parenthesized, line, children := [e] }
    | _ =>
      let list : Node := { kind := .sequence, line, children := nodes }
      return { kind := .parenthesized, line, children := [list] }
  else
    require (← atArrow)
    return { kind := .arrowParameters, line, children := nodes }

end CodeSurvey.Ecma.Grammar
