/-!
The syntax tree of an ECMAScript source. Every node says what it is, which part it plays in its
parent, on which line it starts, and, where the text matters later (names, keys, sources), how it
is spelled. Punctuation and comments are no nodes; marks such as `async` belong to the kind.
-/

namespace CodeSurvey.Ecma

/-- The part a node plays in its parent. -/
inductive Role where
  /-- No part of its own: an element of a list. -/
  | item
  | name
  | value
  | body
  /-- A parameter list. -/
  | parameters
  /-- The only parameter of an arrow function, written without parentheses. -/
  | parameter
  | left
  | right
  | object
  | property
  | declaration
  | source
  | alias
  deriving DecidableEq, Repr

/-- What a node is. -/
inductive Kind where
  | program
  | functionDeclaration (async generator : Bool)
  | functionExpression (async generator : Bool)
  | arrowFunction (async : Bool)
  | classDeclaration
  /-- A class in expression position, or without a name. -/
  | classExpression
  | classBody
  | methodDefinition (async generator : Bool)
  | fieldDefinition
  | staticBlock
  | decorator
  | parameterList
  /-- Declared by `let` or `const`. -/
  | lexicalDeclaration
  /-- Declared by `var`. -/
  | variableDeclaration
  | variableDeclarator
  | expressionStatement
  | importStatement
  | exportStatement (isDefault : Bool)
  | exportClause
  | exportSpecifier
  | block
  | emptyStatement
  | ifStatement
  | elseClause
  | forStatement
  /-- A loop over keys or over values. -/
  | forInStatement
  | whileStatement
  | doStatement
  | withStatement
  | switchStatement
  | switchBody
  | switchCase
  | switchDefault
  | tryStatement
  | catchClause
  | finallyClause
  | labeledStatement
  | returnStatement
  | throwStatement
  | breakStatement
  | continueStatement
  | debuggerStatement
  | sequence
  | assignment
  | augmentedAssignment
  | ternary
  | binary (operator : String)
  | unary
  | update
  | awaiting
  | yielding
  | member
  | subscript
  | call
  /-- A call made only if what is called is there. -/
  | optionalCall
  | argumentList
  | newInstance
  | metaProperty
  | parenthesized
  /-- A parenthesised list that only an arrow may follow. -/
  | arrowParameters
  | array
  | object
  | pair
  | shorthand
  /-- A shorthand property with a default value, which only a pattern may hold. -/
  | shorthandDefault
  | spread
  | identifier
  /-- The identifier `undefined` read as a value. -/
  | undefined
  /-- One of the words that stand for a value, such as `this` or `null`. -/
  | valueWord
  | propertyName
  | privateName
  | computedName
  | number
  | string
  | template
  | regularExpression
  | objectPattern
  | arrayPattern
  | assignmentPattern
  | restPattern
  /-- An element of markup with an opening and a closing tag. -/
  | element
  | elementName
  | selfClosingElement
  | attribute
  deriving DecidableEq, Repr

/-- A node of the tree. -/
structure Node where
  kind : Kind
  role : Role := .item
  /-- The line of its first character; the first line is 1. -/
  line : Nat
  /-- The spelling of a name, key, literal or markup name; empty for other nodes. -/
  text : String := ""
  children : List Node := []

namespace Node

instance : Inhabited Node := ⟨{ kind := .program, line := 1 }⟩

/-- The same node in another role. -/
def as (n : Node) (role : Role) : Node := { n with role }

/-- The first child that plays a part. -/
def child? (n : Node) (role : Role) : Option Node := n.children.find? (·.role == role)

end Node

/-- A function written as an expression. -/
def Kind.isFunctionLiteral : Kind → Bool
  | functionExpression .. | arrowFunction .. => true
  | _ => false

/-- Anything that starts the body of a function. -/
def Kind.isFunctionBoundary : Kind → Bool
  | functionExpression .. | arrowFunction .. | functionDeclaration .. | methodDefinition .. => true
  | _ => false

/-- The function is marked `async`. -/
def Kind.isAsync : Kind → Bool
  | functionDeclaration a _ | functionExpression a _ | methodDefinition a _ | arrowFunction a => a
  | _ => false

/-- The function is marked as a generator. -/
def Kind.isGenerator : Kind → Bool
  | functionDeclaration _ g | functionExpression _ g | methodDefinition _ g => g
  | _ => false

end CodeSurvey.Ecma
