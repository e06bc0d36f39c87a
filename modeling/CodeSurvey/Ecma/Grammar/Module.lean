import CodeSurvey.Ecma.Grammar.Expression
import CodeSurvey.Ecma.Grammar.Statement

/-!
Imports and exports, and the whole source. Scripts and modules are read alike.
-/

namespace CodeSurvey.Ecma.Grammar

open Production

/-- Reads a name that an import or export lists: any word, or a string. -/
def listedName : Production Node := do
  let c ← get
  match c.token with
  | .word s | .escapedWord s => advance; return { kind := .identifier, line := c.line, text := s }
  | _ => stringLiteral

/-- Reads a listed name and, after `as`, another name for it. -/
def exportSpecifier : Production Node := do
  let own ← listedName
  let other ← if ← skipWord "as" then pure [(← listedName).as .alias] else pure []
  return { kind := .exportSpecifier, line := own.line, children := own.as .name :: other }

/-- Reads a listed name and, after `as`, the name it is bound to; without one it is bound to itself,
    so it has to be a name of its own. -/
def importSpecifier : Production Unit := do
  let named := (nameOf? (← token)).isSome
  let _ ← listedName
  if ← skipWord "as" then
    let _ ← name
  else require named

/-- Reads the names that an export lists in braces. -/
def exportClause : Production Node := do
  let line := (← get).line
  sign "\x7b"
  return { kind := .exportClause, line, children := ← listUntil "\x7d" exportSpecifier }

/-- Reads the names that an import lists in braces. -/
def importClause : Production Unit := do
  sign "\x7b"
  let _ ← listUntil "\x7d" importSpecifier

/-- The names of a list without a source are names of the module itself. -/
def namesOwn (clause : Node) : Bool :=
  clause.children.all fun spec =>
    (spec.child? .name).any fun own => own.kind == .identifier && !reservedWords.contains own.text

/-- Reads a source and the attributes after it. -/
def moduleSource (g : Grammar) : Production (List Node) := do
  let source ← stringLiteral
  let attributes ← if ← skipWord "with" then pure [← object g] else pure []
  return source.as .source :: attributes

/-- Reads `from` and a source. -/
def fromSource (g : Grammar) : Production (List Node) := do
  word "from"
  moduleSource g

/-- Reads the star of an import and the name for the module. -/
def wholeModule : Production Unit := do
  sign "*"
  word "as"
  let _ ← name

/-- Reads an import. -/
def importStatement (g : Grammar) : Production Node := do
  let line := (← get).line
  word "import"
  let children ← match ← token with
    | .string _ => moduleSource g
    | .sign "*" => do
      wholeModule
      fromSource g
    | .sign "\x7b" => do
      importClause
      fromSource g
    | _ => do
      let _ ← name
      if ← skipSign "," then
        if ← atSign "*" then wholeModule
        else
          importClause
      fromSource g
  statementEnd
  return { kind := .importStatement, line, children }

/-- Reads a function, a class or variables, if one of them starts here. -/
def declaration? (g : Grammar) : Production (Option Node) := do
  if (← atWord "function") || (← atAsyncFunction) then return some (← anyFunction g true)
  else if (← atWord "class") || (← atSign "@") then return some (← anyClass g true)
  else if ← atVariables then return some (← variableStatement g)
  else return none

/-- Reads what a default export exports: a function or class, which is a declaration if it has a
    name, or a value. -/
def defaultExport (g : Grammar) : Production Node := do
  if (← atWord "function") || (← atAsyncFunction) || (← atWord "class") || (← atSign "@") then
    match ← declaration? g with
    | some node =>
      return node.as (if (node.child? .name).isSome then .declaration else .value)
    | none => fail
  else
    let e ← g (.assignment true)
    statementEnd
    return e.as .value

/-- Reads an export, `before` being the decorators in front of it. -/
def exportFrom (g : Grammar) (line : Nat) (before : List Node) : Production Node := do
  word "export"
  let plain := fun (children : List Node) =>
    { kind := .exportStatement false, line, children := before ++ children : Node }
  if ← skipWord "default" then
    return { kind := .exportStatement true, line, children := before ++ [← defaultExport g] }
  else if ← skipSign "*" then
    if ← skipWord "as" then
      let _ ← listedName
    let source ← fromSource g
    statementEnd
    return plain source
  else if ← atSign "\x7b" then
    let clause ← exportClause
    let source ← if ← atWord "from" then fromSource g else do
      require (namesOwn clause)
      pure []
    statementEnd
    return plain (clause :: source)
  else match ← declaration? g with
    | some node =>
      require (node.kind != .classExpression && !node.kind.isFunctionLiteral)
      return plain [node.as .declaration]
    | none => fail

/-- Reads decorators and the class or export after them. A class without a name is a value. -/
def decorated (g : Grammar) : Production Node := do
  let start ← get
  let before ← decorators g
  if ← atWord "export" then exportFrom g start.line before
  else if (nameOf? (← peek).1).isSome then classFrom g true start.line before
  else
    set start
    expressionStatement g

/-- An import statement starts here, not a call of `import` or one of its members. -/
def atImport : Production Bool := do
  if ← atWord "import" then
    let later := (← peek).1
    return later != .sign "(" && later != .sign "."
  else return false

/-- Reads a statement. -/
def statement (g : Grammar) : Production Node := do
  if ← atImport then importStatement g
  else if ← atWord "export" then exportFrom g (← get).line []
  else if ← atSign "@" then decorated g
  else plainStatement g

/-- Reads statements to the end of the source. -/
def program (g : Grammar) : Production Node := do
  let statements ← manyWhile (do return (← token) != .stop) (g .statement)
  require ((← token) == .stop)
  return { kind := .program, line := 1, children := statements }

/-- The rule of a goal, given the productions of all goals. -/
def rule (g : Grammar) : Goal → Production Node
  | .statement => statement g
  | .expression => expression g
  | .assignment allowIn => assignment g allowIn
  | .operation level allowIn => operation g level allowIn
  | .operand => operand g
  | .chain calls => chain g calls
  | .target => target g
  | .element => element g

end CodeSurvey.Ecma.Grammar
