import CodeSurvey.Ecma.Grammar.Basic
import CodeSurvey.Ecma.Grammar.Target

/-!
Functions and classes: parameter lists, bodies, function declarations and expressions, arrow
functions and methods; fields and static blocks of classes.
-/

namespace CodeSurvey.Ecma.Grammar

open Production

/-- Reads a default value, if there is one, and answers the target with it. -/
def withDefault (g : Grammar) (target : Node) : Production Node := do
  if ← skipSign "=" then
    let value ← g (.assignment true)
    return { kind := .assignmentPattern, line := target.line,
             children := [target.as .left, value.as .right] }
  else return target

/-- Reads one parameter. Decorators in front of it count as items of their own. No parameter is
    named `yield`. -/
def parameter (g : Grammar) : Production (List Node) := do
  let marks ← decorators g
  let line := (← get).line
  let rest ← skipSign "..."
  require !(← atWord "yield")
  if rest then
    let rest : Node := { kind := .restPattern, line, children := [← g .target] }
    require (← atSign ")")
    return marks ++ [rest]
  else
    let target ← if ← atName then valueName else g .target
    return marks ++ [← withDefault g target]

/-- Reads a parameter list. -/
def parameters (g : Grammar) : Production Node := do
  let line := (← get).line
  sign "("
  let items ← listUntil ")" (parameter g)
  return { kind := .parameterList, role := .parameters, line, children := items.flatten }

/-- Reads parameters and a body. -/
def functionRest (g : Grammar) : Production (List Node) := do
  let params ← parameters g
  return [params, (← block g).as .body]

/-- Reads a function from its keyword on. It is a declaration if that is asked for and it has a
    name; without a name it is an expression. -/
def function (g : Grammar) (declares async : Bool) (line : Nat) : Production Node := do
  word "function"
  let generator ← skipSign "*"
  if ← atName then
    let n ← name
    let rest ← functionRest g
    let kind := if declares then .functionDeclaration async generator
      else .functionExpression async generator
    return { kind, line, children := n.as .name :: rest }
  else
    return { kind := .functionExpression async generator, line, children := ← functionRest g }

/-- An asynchronous function starts here: both keywords stand on one line. -/
def atAsyncFunction : Production Bool := do
  if ← atWord "async" then
    return (← peek) == (.word "function", true)
  else return false

/-- Reads a function whose first keyword may be `async`. -/
def anyFunction (g : Grammar) (declares : Bool) : Production Node := do
  let line := (← get).line
  let async ← skipWord "async"
  function g declares async line

/-- An arrow stands here, on the line of what is before it. -/
def atArrow : Production Bool := do
  let c ← get
  return c.token == .sign "=>" && !c.fresh

/-- Reads an arrow and the body after it. -/
def arrow (g : Grammar) (allowIn async : Bool) (line : Nat) (params : Node) : Production Node := do
  require (← atArrow)
  advance
  let body ← if ← atSign "\x7b" then block g else g (.assignment allowIn)
  return { kind := .arrowFunction async, line, children := [params, body.as .body] }

/-- Reads an arrow function with a single name in front of the arrow. -/
def nameArrow (g : Grammar) (allowIn async : Bool) (line : Nat) : Production Node := do
  let n ← name
  arrow g allowIn async line (n.as .parameter)

/-- Reads an arrow and its body after a list that was read as an expression. -/
def listArrow (g : Grammar) (allowIn async : Bool) (line : Nat) (list : Node) :
    Production Node := do
  match list.asParameters? with
  | some params =>
    arrow g allowIn async line
      { kind := .parameterList, role := .parameters, line := list.line, children := params }
  | none => fail

/-- How a method is marked in front of its name. -/
structure MethodMarks where
  async : Bool := false
  generator : Bool := false
  /-- Marked `get` or `set`. -/
  accessor : Bool := false
  deriving DecidableEq

/-- Reads the marks of a method: `async`, a star, `get` or `set`. Such a word is a mark only if a
    name follows it. -/
def methodMarks : Production MethodMarks := do
  let later := (← peek).1
  if ← atWord "async" then
    if startsKey later || later == .sign "*" then
      advance
      return { async := true, generator := ← skipSign "*" }
    else return {}
  else if (← atWord "get") || (← atWord "set") then
    if startsKey later then
      advance
      return { accessor := true }
    else return {}
  else return { generator := ← skipSign "*" }

/-- Reads a method after its marks and name. -/
def method (g : Grammar) (marks : MethodMarks) (line : Nat) (before : List Node) (key : Node) :
    Production Node := do
  let rest ← functionRest g
  return { kind := .methodDefinition marks.async marks.generator, line,
           children := before ++ key :: rest }

/-! ### Classes -/

/-- The word that stands here is all of a field: its line ends behind it. A bracket or a star on the
    next line goes on with the member. -/
def atLoneWord : Production Bool := do
  let later := (← get).next
  return (wordOf? (← token)).isSome && later.fresh &&
    later.token != .sign "[" && later.token != .sign "*"

/-- Skips the mark `static`, which is a name of its own where the member goes on after it, and says
    whether it did. -/
def skipStatic : Production Bool := do
  let later := (← peek).1
  if (← atWord "static") && !(← atLoneWord) && (startsKey later || later == .sign "*") then
    advance
    return true
  else return false

/-- Reads a field after its name. -/
def field (g : Grammar) (line : Nat) (before : List Node) (key : Node) : Production Node := do
  let value ← if ← skipSign "=" then
      pure [(← g (.assignment true)).as .value]
    else pure []
  statementEnd
  return { kind := .fieldDefinition, line, children := before ++ key.as .property :: value }

/-- Reads a member of a class. -/
def classMember (g : Grammar) : Production Node := do
  let line := (← get).line
  let before ← decorators g
  if (← atWord "static") && (← peek).1 == .sign "\x7b" then
    advance
    return { kind := .staticBlock, line, children := [(← block g).as .body] }
  else
    let static ← skipStatic
    let goesOn := !(← atLoneWord) || (static && (← atWord "get"))
    let marks ← if goesOn then methodMarks else pure {}
    let key ← propertyKey g
    if ← atSign "(" then method g marks line before key
    else
      require (marks == {})
      field g line before key

/-- Reads a class from its keyword on, `before` being its decorators. It is a declaration if that
    is asked for and it has a name. -/
def classFrom (g : Grammar) (declares : Bool) (line : Nat) (before : List Node) :
    Production Node := do
  word "class"
  let named ← if ← atName then pure [(← name).as .name] else pure []
  let parent ← if ← skipWord "extends" then pure [← g (.chain true)] else pure []
  let bodyLine := (← get).line
  sign "\x7b"
  let members ← manyWhile (do return !(← atSign "\x7d")) do
    if ← skipSign ";" then return none else return some (← classMember g)
  sign "\x7d"
  let body : Node :=
    { kind := .classBody, role := .body, line := bodyLine, children := members.filterMap id }
  let kind := if declares && !named.isEmpty then .classDeclaration else .classExpression
  return { kind, line, children := before ++ named ++ parent ++ [body] }

/-- Reads a function or class that stands as a statement, which needs a name. -/
def named (declaration : Production Node) : Production Node := do
  let node ← declaration
  require (node.child? .name).isSome
  return node

/-- Reads a class with its decorators. -/
def anyClass (g : Grammar) (declares : Bool) : Production Node := do
  let line := (← get).line
  let before ← decorators g
  classFrom g declares line before

end CodeSurvey.Ecma.Grammar
