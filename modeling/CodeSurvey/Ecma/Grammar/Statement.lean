import CodeSurvey.Ecma.Grammar.Function

/-!
Statements: declarations of variables, functions and classes, branches, loops, jumps and
expressions.
-/

namespace CodeSurvey.Ecma.Grammar

open Production

/-- Reads the value of a variable after its name or pattern. -/
def declaratorRest (g : Grammar) (allowIn : Bool) (place : Node) : Production Node := do
  let value ← if ← skipSign "=" then pure [(← g (.assignment allowIn)).as .value] else pure []
  return { kind := .variableDeclarator, line := place.line, children := place.as .name :: value }

/-- Reads further variables of a declaration, each after a comma. -/
def moreDeclarators (g : Grammar) (allowIn : Bool) : Production (List Node) :=
  manyWhile (skipSign ",") do declaratorRest g allowIn (← g .target)

/-- A declaration of variables starts here. The word `let` starts one only before a name or a
    pattern. -/
def atVariables : Production Bool := do
  if (← atWord "var") || (← atWord "const") then return true
  else if ← atWord "let" then
    let later := (← peek).1
    return (nameOf? later).isSome || later == .sign "[" || later == .sign "\x7b"
  else return false

/-- The word `let` stands here as a name: its line ends behind it and a name begins the next. -/
def atLoneLet : Production Bool := do
  let later ← peek
  return (← atWord "let") && (nameOf? later.1).isSome && !later.2

/-- Reads the keyword of a declaration of variables and answers its kind. -/
def variablesKind : Production Kind := do
  let kind := if ← atWord "var" then .variableDeclaration else .lexicalDeclaration
  advance
  return kind

/-- Reads a declaration of variables with its end. -/
def variableStatement (g : Grammar) : Production Node := do
  let line := (← get).line
  let kind ← variablesKind
  let first ← declaratorRest g true (← g .target)
  let more ← moreDeclarators g true
  statementEnd
  return { kind, line, children := first :: more }

/-- Reads the parts of a loop head after its first semicolon, and the closing parenthesis. -/
def stepParts (g : Grammar) : Production (List Node) := do
  let part := fun (stop : String) => do
    if ← skipSign stop then return []
    else
      let e ← g .expression
      sign stop
      return [e]
  return (← part ";") ++ (← part ")")

/-- A loop over keys or values goes on here. -/
def atEach : Production Bool := do return (← atWord "of") || (← atWord "in")

/-- A loop over keys or values sets a variable named `await` or `async`. -/
def atEachWord : Production Bool := do
  let c ← get
  let later := c.next
  return (c.token == .word "await" || c.token == .word "async") &&
    [.word "of", .word "in"].contains later.token && later.next.token != .sign "=>"

/-- Reads what a loop over keys or values runs through, and the closing parenthesis. -/
def eachPart (g : Grammar) : Production Node := do
  advance
  let e ← g .expression
  sign ")"
  return e.as .right

/-- Reads the head of a loop after its opening parenthesis, and answers which loop it is. -/
def loopHead (g : Grammar) : Production (Kind × List Node) := do
  let line := (← get).line
  if ← skipSign ";" then return (.forStatement, ← stepParts g)
  else if ← atVariables then
    let kind ← variablesKind
    let place ← g .target
    if ← atEach then return (.forInStatement, [place.as .left, ← eachPart g])
    else
      let first ← declaratorRest g false place
      if kind == .variableDeclaration && (← atWord "in") then
        return (.forInStatement, [first, ← eachPart g])
      else
        let more ← moreDeclarators g false
        sign ";"
        return (.forStatement, { kind, line, children := first :: more } :: (← stepParts g))
  else
    let first ← if ← atEachWord then name else g (.assignment false)
    if ← atEach then
      match first.asTarget? with
      | some place => return (.forInStatement, [place.as .left, ← eachPart g])
      | none => fail
    else
      let more ← manyWhile (skipSign ",") (g (.assignment false))
      sign ";"
      let start : Node :=
        if more.isEmpty then first else { kind := .sequence, line, children := first :: more }
      return (.forStatement, start :: (← stepParts g))

/-- Reads a loop with a head; one that awaits runs through values. -/
def forLoop (g : Grammar) : Production Node := do
  let line := (← get).line
  word "for"
  let awaits ← skipWord "await"
  sign "("
  let (kind, head) ← loopHead g
  require (!awaits || kind == .forInStatement)
  return { kind, line, children := head ++ [(← g .statement).as .body] }

/-- Reads a branch. -/
def branch (g : Grammar) : Production Node := do
  let line := (← get).line
  word "if"
  let test ← condition g
  let first ← g .statement
  let here ← get
  let other ← if ← skipWord "else" then
      pure [{ kind := .elseClause, line := here.line, children := [← g .statement] : Node }]
    else pure []
  return { kind := .ifStatement, line, children := test :: first :: other }

/-- Reads a keyword, an expression in parentheses and a statement. -/
def guarded (g : Grammar) (kind : Kind) : Production Node := do
  let line := (← get).line
  advance
  let test ← condition g
  return { kind, line, children := [test, (← g .statement).as .body] }

/-- Reads a loop that tests after its body; its semicolon may always be left out. -/
def doLoop (g : Grammar) : Production Node := do
  let line := (← get).line
  word "do"
  let body ← g .statement
  word "while"
  let test ← condition g
  let _ ← skipSign ";"
  return { kind := .doStatement, line, children := [body.as .body, test] }

/-- A case of a switch, or its end, stands here. -/
def atCaseEnd : Production Bool := do
  return (← atWord "case") || (← atWord "default") || (← atSign "\x7d")

/-- Reads a case of a switch. -/
def switchCase (g : Grammar) : Production Node := do
  let line := (← get).line
  let test ← if ← skipWord "case" then pure [← g .expression] else do
    word "default"
    pure []
  sign ":"
  let statements ← manyWhile (do return !(← atCaseEnd)) (g .statement)
  let kind := if test.isEmpty then .switchDefault else .switchCase
  return { kind, line, children := test ++ statements }

/-- Reads a switch. -/
def switch (g : Grammar) : Production Node := do
  let line := (← get).line
  word "switch"
  let value ← condition g
  let bodyLine := (← get).line
  sign "\x7b"
  let cases ← manyWhile (do return !(← atSign "\x7d")) (switchCase g)
  sign "\x7d"
  let body : Node := { kind := .switchBody, role := .body, line := bodyLine, children := cases }
  return { kind := .switchStatement, line, children := [value, body] }

/-- Reads a block that may fail, with its handler and what is done at last. -/
def attempt (g : Grammar) : Production Node := do
  let line := (← get).line
  word "try"
  let body ← block g
  let here ← get
  let handler ← if ← skipWord "catch" then do
      let parameter ← if ← skipSign "(" then do
          let place ← g .target
          sign ")"
          pure [place]
        else pure []
      let body ← block g
      pure [{ kind := .catchClause, line := here.line, children := parameter ++ [body] : Node }]
    else pure []
  let here ← get
  let last ← if ← skipWord "finally" then
      pure [{ kind := .finallyClause, line := here.line, children := [← block g] : Node }]
    else pure []
  require !(handler.isEmpty && last.isEmpty)
  return { kind := .tryStatement, line, children := body :: handler ++ last }

/-- A statement ends here. -/
def atStatementEnd : Production Bool := do
  let here ← get
  return here.fresh || [.sign ";", .sign "\x7d", .stop].contains here.token

/-- Reads a jump: its keyword and, on the same line, what `argument` reads. -/
def jumpStatement (kind : Kind) (argument : Production Node) : Production Node := do
  let line := (← get).line
  advance
  let arguments ← if ← atStatementEnd then pure [] else pure [← argument]
  statementEnd
  return { kind, line, children := arguments }

/-- Reads a throw, which needs a value. -/
def throwStatement (g : Grammar) : Production Node := do
  let line := (← get).line
  word "throw"
  let e ← g .expression
  statementEnd
  return { kind := .throwStatement, line, children := [e] }

/-- Reads an expression as a statement. -/
def expressionStatement (g : Grammar) : Production Node := do
  let line := (← get).line
  let e ← g .expression
  statementEnd
  return { kind := .expressionStatement, line, children := [e] }

/-- Reads a label and the statement it names. -/
def labeled (g : Grammar) : Production Node := do
  let line := (← get).line
  let _ ← name
  sign ":"
  return { kind := .labeledStatement, line, children := [(← g .statement).as .body] }

/-- Reads a statement that no import, export or decorator begins. -/
def plainStatement (g : Grammar) : Production Node := do
  let c ← get
  match c.token with
  | .sign "\x7b" => block g
  | .sign ";" => advance; return { kind := .emptyStatement, line := c.line }
  | .word "function" => named (anyFunction g true)
  | .word "class" => named (anyClass g true)
  | .word "if" => branch g
  | .word "for" => forLoop g
  | .word "while" => guarded g .whileStatement
  | .word "with" => guarded g .withStatement
  | .word "do" => doLoop g
  | .word "switch" => switch g
  | .word "try" => attempt g
  | .word "return" => jumpStatement .returnStatement (g .expression)
  | .word "throw" => throwStatement g
  | .word "break" => jumpStatement .breakStatement name
  | .word "continue" => jumpStatement .continueStatement name
  | .word "debugger" => jumpStatement .debuggerStatement fail
  | _ =>
    if (← atVariables) && !(← atLoneLet) then variableStatement g
    else if ← atAsyncFunction then named (anyFunction g true)
    else if c.token != .word "yield" && (nameOf? c.token).isSome && (← peek).1 == .sign ":" then
      labeled g
    else expressionStatement g

end CodeSurvey.Ecma.Grammar
