import CodeSurvey.Ecma.Grammar.Element
import CodeSurvey.Ecma.Grammar.Function
import CodeSurvey.Ecma.Grammar.Literal

/-!
Expressions: values, member and call chains, operands with signs in front, operators by level,
conditionals, assignments and arrow functions.
-/

namespace CodeSurvey.Ecma.Grammar

open Production

/-- The words that stand for a value. -/
def valueWords : List String := ["this", "null", "true", "false", "super"]

/-- Reads `import` as a value: followed by `meta`, or called if `calls`. -/
def importValue (calls : Bool) : Production Node := do
  let line := (← get).line
  word "import"
  if ← skipSign "." then word "meta" else require (calls && (← atSign "("))
  return { kind := .metaProperty, line }

/-- Reads a value: a name, a literal, a function, a class, markup or a list in parentheses. The
    source of a module may be called if `calls`. -/
def value (g : Grammar) (calls : Bool) : Production Node := do
  let c ← get
  match c.token with
  | .sign "(" => parenthesised g
  | .sign "[" => array g
  | .sign "\x7b" => object g
  | .sign "\x60" => template g
  | .sign "/" | .sign "/=" => regularExpression
  | .sign "<" => elementValue g
  | .sign "@" => anyClass g false
  | .number s => advance; return { kind := .number, line := c.line, text := s }
  | .string _ => stringLiteral
  | .word "function" => anyFunction g false
  | .word "class" => anyClass g false
  | .word "import" => importValue calls
  | .word s =>
    if valueWords.contains s then
      advance
      return { kind := .valueWord, line := c.line, text := s }
    else if ← atAsyncFunction then anyFunction g false
    else valueName
  | _ => valueName

/-- Reads the name after a dot. -/
def memberName : Production Node := do
  let c ← get
  let named := fun (kind : Kind) (text : String) => do
    advance
    return { kind, role := .property, line := c.line, text }
  match c.token with
  | .word s | .escapedWord s => named .propertyName s
  | .privateWord s => named .privateName s
  | _ => fail

/-- Reads one more link of a chain of members, templates and, if `calls`, calls. -/
def chainStep (g : Grammar) (calls : Bool) (object : Node) : Production (Option Node) := do
  let link := fun (kind : Kind) (children : List Node) =>
    some { kind, line := object.line, children }
  let index := do
    sign "["
    let e ← g .expression
    sign "]"
    return link .subscript [object.as .object, e]
  match ← token with
  | .sign "." => advance; return link .member [object.as .object, ← memberName]
  | .sign "[" => index
  | .sign "\x60" => return link .call [object, ← template g]
  | .sign "(" => if calls then return link .call [object, ← arguments g] else return none
  | .sign "?." =>
    if calls then
      advance
      match ← token with
      | .sign "(" => return link .optionalCall [object, ← arguments g]
      | .sign "[" => index
      | .sign "\x60" => return link .call [object, ← template g]
      | _ => return link .member [object.as .object, ← memberName]
    else return none
  | _ => return none

/-- Reads what follows `new`: its target, or what to create and with which arguments. -/
def newInstance (g : Grammar) : Production Node := do
  let line := (← get).line
  word "new"
  if ← skipSign "." then
    word "target"
    return { kind := .metaProperty, line }
  else
    let creator ← g (.chain false)
    let arguments ← if ← atSign "(" then pure [← arguments g] else pure []
    return { kind := .newInstance, line, children := creator :: arguments }

/-- Reads a value or a new instance and the chain after it. -/
def chain (g : Grammar) (calls : Bool) : Production Node := do
  let start ← if ← atWord "new" then newInstance g else value g calls
  iterate (chainStep g calls) start

/-- The signs and words that stand in front of an operand. -/
def operandMarks : List Token :=
  [.sign "!", .sign "~", .sign "+", .sign "-", .word "typeof", .word "void", .word "delete"]

/-- Reads a chain, perhaps with an update behind it. -/
def updated (g : Grammar) : Production Node := do
  let line := (← get).line
  let place ← chain g true
  let here ← get
  if !here.fresh && (here.token == .sign "++" || here.token == .sign "--") then
    advance
    return { kind := .update, line, children := [place] }
  else return place

/-- Reads a mark and the operand behind it. -/
def marked (g : Grammar) (kind : Kind) : Production Node := do
  let line := (← get).line
  advance
  return { kind, line, children := [← g .operand] }

/-- The word `await` stands here as a name: no operand can follow, or a declaration follows on the
    next line. Before a parenthesis it is taken for the name of what is called, which reads the
    same source as waiting for a value in parentheses. -/
def atAwaitName : Production Bool := do
  let start ← get
  advance
  let later ← get
  let declares := (← atWord "function") || (← atWord "class") || (← atAsyncFunction)
  set start
  return !startsOperand later.token || later.token == .sign "(" || (later.fresh && declares)

/-- Reads `await` and the operand behind it, or else the word as a name. Of the signs that begin an
    operand, the name counts only before those that may follow a name too. -/
def awaiting (g : Grammar) : Production Node := do
  let unclear : Bool := match (← peek).1 with
    | .sign s => ["/", "/=", "<", "++", "--"].contains s
    | _ => true
  let waiting : Production Node := do
    let node ← marked g .awaiting
    require (mayFollowValue (← get))
    return node
  if unclear then waiting <|> updated g else marked g .awaiting

/-- Reads an operand: a chain with what stands in front of it and behind it, or a private name that
    is looked for. -/
def operand (g : Grammar) : Production Node := do
  let c ← get
  if operandMarks.contains c.token then marked g .unary
  else match c.token with
    | .sign "++" | .sign "--" => marked g .update
    | .word "await" =>
      if ← atAwaitName then updated g
      else if (← peek).1 == .sign "[" then updated g <|> marked g .awaiting
      else awaiting g
    | .privateWord s =>
      advance
      require (← atWord "in")
      return { kind := .privateName, line := c.line, text := s }
    | _ => updated g

/-- The operators between operands, with their levels. -/
def operatorLevels : List (Token × Nat) := [
  (.sign "??", 1), (.sign "||", 1), (.sign "&&", 2), (.sign "|", 3), (.sign "^", 4), (.sign "&", 5),
  (.sign "==", 6), (.sign "!=", 6), (.sign "===", 6), (.sign "!==", 6), (.sign "<", 7),
  (.sign ">", 7), (.sign "<=", 7), (.sign ">=", 7), (.word "in", 7), (.word "instanceof", 7),
  (.sign "<<", 8), (.sign ">>", 8), (.sign ">>>", 8), (.sign "+", 9), (.sign "-", 9),
  (.sign "*", 10), (.sign "/", 10), (.sign "%", 10), (.sign "**", 11)]

/-- The spelling of an operator. -/
def operatorText : Token → String
  | .sign s | .word s => s
  | _ => ""

/-- Reads operands with operators of at least `level` between them. Operators of one level group to
    the left, except the power. -/
def operation (g : Grammar) (level : Nat) (allowIn : Bool) : Production Node := do
  let first ← operand g
  iterate (fun left => do
    let op ← token
    match operatorLevels.lookup op with
    | none => return none
    | some opLevel =>
      if opLevel < level || (op == .word "in" && !allowIn) then return none
      else
        advance
        let right ← g (.operation (if op == .sign "**" then opLevel else opLevel + 1) allowIn)
        return some { kind := .binary (operatorText op), line := left.line,
                      children := [left.as .left, right.as .right] }) first

/-- Reads an operation or a choice between two values. -/
def conditional (g : Grammar) (allowIn : Bool) : Production Node := do
  let test ← operation g 0 allowIn
  if ← skipSign "?" then
    let first ← g (.assignment true)
    sign ":"
    let second ← g (.assignment allowIn)
    return { kind := .ternary, line := test.line, children := [test, first, second] }
  else return test

/-- The arguments of a call of the name `async`. -/
def asyncArguments? (n : Node) : Option Node :=
  match n.kind, n.children with
  | .call, [callee, arguments] =>
    if callee.kind == .identifier && callee.text == "async" then some arguments else none
  | _, _ => none

/-- Reads an assignment, or what stands on its left side alone. An arrow makes a list in
    parentheses the parameters of a function, and what looked like a call of `async` an
    asynchronous one. -/
def assignmentFrom (g : Grammar) (allowIn : Bool) : Production Node := do
  let line := (← get).line
  let left ← conditional g allowIn
  if ← atArrow then
    match asyncArguments? left with
    | some list => listArrow g allowIn true line list
    | none => listArrow g allowIn false line left
  else match ← token with
    | .sign "=" =>
      match left.asTarget? with
      | some place =>
        advance
        let right ← g (.assignment allowIn)
        return { kind := .assignment, line, children := [place.as .left, right.as .right] }
      | none => fail
    | .sign op =>
      if updateOperators.contains op then
        require left.isPlace
        advance
        let right ← g (.assignment allowIn)
        return { kind := .augmentedAssignment, line,
                 children := [left.as .left, right.as .right] }
      else return left
    | _ => return left

/-- The tokens before which no value is yielded. -/
def yieldEnds : List Token :=
  [.sign ")", .sign "]", .sign "\x7d", .sign ",", .sign ";", .sign ":", .stop]

/-- Reads a yielded value, if one follows on the line. Where neither a value nor an end follows,
    the word is an operand of what goes on there. -/
def yielding (g : Grammar) (allowIn : Bool) : Production Node := do
  let start ← get
  word "yield"
  let here ← get
  let loops := !allowIn && (here.token == .word "of" || here.token == .word "in")
  let begins := startsOperand here.token
  if yieldEnds.contains here.token || loops || (here.fresh && begins) then
    return { kind := .yielding, line := start.line }
  else if begins || (← skipSign "*") then
    return { kind := .yielding, line := start.line, children := [← g (.assignment allowIn)] }
  else
    require (mayFollowValue here)
    set start
    assignmentFrom g allowIn

/-- Reads one expression. A name before an arrow is its only parameter; the word `async` with a
    name on its line begins an arrow function too. -/
def assignment (g : Grammar) (allowIn : Bool) : Production Node := do
  let c ← get
  if c.token == .word "yield" then yielding g allowIn
  else if (nameOf? c.token).isSome then
    let later ← peek
    if later == (.sign "=>", true) then nameArrow g allowIn false c.line
    else if c.token == .word "async" && (nameOf? later.1).isSome && later.2 then
      advance
      nameArrow g allowIn true c.line
    else assignmentFrom g allowIn
  else assignmentFrom g allowIn

/-- Reads expressions with commas between them. -/
def expression (g : Grammar) : Production Node := do
  let line := (← get).line
  let first ← g (.assignment true)
  let more ← manyWhile (skipSign ",") (g (.assignment true))
  if more.isEmpty then return first
  else return { kind := .sequence, line, children := first :: more }

/-- Reads a name or a pattern that takes a value apart. -/
def target (g : Grammar) : Production Node := do
  let literal ← match ← token with
    | .sign "[" => array g
    | .sign "\x7b" => object g
    | _ => name
  match literal.asPattern? with
  | some pattern => return pattern
  | none => fail

end CodeSurvey.Ecma.Grammar
