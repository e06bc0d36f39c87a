import CodeSurvey.Ecma.Cursor

/-!
The frame of the grammar. Its rules call each other in a circle; here the circle is cut at a few
goals. A rule takes the productions of these goals as an argument (`Grammar`), so each rule is a
plain definition, and the circle is closed in one place.
-/

namespace CodeSurvey.Ecma

/-- The goals through which the rules of the grammar call each other. -/
inductive Goal where
  | statement
  /-- One or more expressions with commas between them. -/
  | expression
  /-- One expression; `in` is an operator in it if `allowIn`. -/
  | assignment (allowIn : Bool)
  /-- Operands and the operators of at least this level between them. -/
  | operation (level : Nat) (allowIn : Bool)
  /-- An operand with the signs in front of it. -/
  | operand
  /-- A value with what is taken from it: members, and calls if `calls`. -/
  | chain (calls : Bool)
  /-- A name, or a pattern that takes a value apart. -/
  | target
  /-- Markup; it ends on its last angle bracket, so that text may follow. -/
  | element

/-- The productions of the goals. -/
abbrev Grammar := Goal → Production Node

namespace Grammar

open Production

/-- The words that are no names. -/
def reservedWords : List String := [
  "break", "case", "catch", "class", "const", "continue", "debugger", "default", "delete", "do",
  "else", "enum", "export", "extends", "false", "finally", "for", "function", "if", "import", "in",
  "instanceof", "new", "null", "return", "super", "switch", "this", "throw", "true", "try",
  "typeof", "var", "void", "while", "with"]

/-- The name that a token spells. -/
def nameOf? : Token → Option String
  | .word s => if reservedWords.contains s then none else some s
  | .escapedWord s => some s
  | _ => none

/-- Any word that a token spells, a keyword or not. -/
def wordOf? : Token → Option String
  | .word s | .escapedWord s => some s
  | _ => none

/-- The words that are no names and begin an operand. -/
def operandWords : List String := [
  "class", "delete", "false", "function", "import", "new", "null", "super", "this", "true",
  "typeof", "void"]

/-- The signs that begin an operand. -/
def operandSigns : List String := [
  "(", "[", "\x7b", "\x60", "!", "~", "+", "-", "++", "--", "/", "/=", "<", "@"]

/-- An operand may begin with the token. -/
def startsOperand (t : Token) : Bool :=
  match t with
  | .sign s => operandSigns.contains s
  | .word s => !reservedWords.contains s || operandWords.contains s
  | .escapedWord _ | .privateWord _ | .number _ | .string _ => true
  | .stop | .invalid => false

/-- The operators that assign a value made from the old one. -/
def updateOperators : List String :=
  ["+=", "-=", "*=", "/=", "%=", "**=", "<<=", ">>=", ">>>=", "&=", "|=", "^=", "&&=", "||=", "??="]

/-- What stands here may follow a value that is no place and no parameter list: no sign that
    assigns, no arrow, and no second operand on the same line. -/
def mayFollowValue (c : Cursor) : Bool :=
  match c.token with
  | .sign s => s != "=" && s != "=>" && !updateOperators.contains s
  | t => c.fresh || !startsOperand t

/-- A name stands here. -/
def atName : Production Bool := do return (nameOf? (← token)).isSome

/-- Reads a name. -/
def name : Production Node := do
  let c ← get
  match nameOf? c.token with
  | some s => advance; return { kind := .identifier, line := c.line, text := s }
  | none => fail

/-- Reads a name as a value or as a parameter, where `undefined` is no ordinary name. -/
def valueName : Production Node := do
  let n ← name
  return if n.text == "undefined" then { n with kind := .undefined } else n

/-- Reads a string. -/
def stringLiteral : Production Node := do
  let c ← get
  match c.token with
  | .string s => advance; return { kind := .string, line := c.line, text := s }
  | _ => fail

/-- Reads the key of a property or member: any word, a string, a number, a private name or an
    expression in brackets, which is spelled as in the source. -/
def propertyKey (g : Grammar) : Production Node := do
  let c ← get
  let spelled := fun (kind : Kind) (text : String) => do
    advance
    return { kind, role := .name, line := c.line, text }
  match c.token with
  | .word s | .escapedWord s => spelled .propertyName s
  | .privateWord s => spelled .privateName s
  | .string s => spelled .string s
  | .number s => spelled .number s
  | .sign "[" =>
    advance
    let e ← g (.assignment true)
    let text := c.textTo (← get) ++ [']']
    sign "]"
    return { kind := .computedName, role := .name, line := c.line, text := String.ofList text,
             children := [e] }
  | _ => fail

/-- A property or member has its key here, not an end right after a word such as `get`. -/
def startsKey : Token → Bool
  | .word _ | .escapedWord _ | .privateWord _ | .string _ | .number _ | .sign "[" => true
  | _ => false

/-- Reads an expression in parentheses. -/
def condition (g : Grammar) : Production Node := do
  let line := (← get).line
  sign "("
  let e ← g .expression
  sign ")"
  return { kind := .parenthesized, line, children := [e] }

/-- Reads statements in braces. -/
def block (g : Grammar) : Production Node := do
  let line := (← get).line
  sign "\x7b"
  let statements ← manyWhile (do return !(← atSign "\x7d")) (g .statement)
  sign "\x7d"
  return { kind := .block, line, children := statements }

/-- Reads a decorator: a dotted name, perhaps called, or an expression in parentheses. -/
def decorator (g : Grammar) : Production Node := do
  let line := (← get).line
  sign "@"
  if ← atSign "(" then
    return { kind := .decorator, line, children := [← condition g] }
  else
    let first ← name
    let path ← manyWhile (skipSign ".") (propertyKey g)
    let arguments ← if ← skipSign "(" then
        listUntil ")" do
          let line := (← get).line
          if ← skipSign "..." then
            return { kind := .spread, line, children := [← g (.assignment true)] }
          else g (.assignment true)
      else pure []
    return { kind := .decorator, line, children := first :: path.map (·.as .item) ++ arguments }

/-- Reads the decorators that stand here. -/
def decorators (g : Grammar) : Production (List Node) := manyWhile (atSign "@") (decorator g)

end Grammar

end CodeSurvey.Ecma
