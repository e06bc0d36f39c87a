import CodeSurvey.Ecma.Tree
import CodeSurvey.Signature.Basic

/-!
The functions that a node of the tree declares: a function declaration itself, the methods and
function-valued fields of a class declaration, function literals bound to variables and function
literals assigned to a member of `exports`. Both the list of signatures and the scores of functions
are read off these.
-/

namespace CodeSurvey.Ecma

/-- A function under the name it is known by. -/
structure Declared where
  name : String
  kind : Signature.Kind
  line : Nat
  /-- The node with the parameters and the body. -/
  function : Node

/-- The name of a property; a quoted one without its quotes. -/
def Node.keyName (key : Node) : String :=
  match key.kind with
  | .string => String.ofList (key.text.toList.drop 1).dropLast
  | _ => if key.text.isEmpty then "anonymous" else key.text

/-- The name of a child that plays a part, as a property. -/
def Node.keyOf (n : Node) (role : Role) : String := ((n.child? role).map keyName).getD "anonymous"

/-- The child with a part, if it is a function literal. -/
def Node.literal? (n : Node) (role : Role) : Option Node :=
  (n.child? role).filter (·.kind.isFunctionLiteral)

/-- The member of `exports` or `module.exports` that a node names. -/
def Node.exportedMember? (n : Node) : Option String :=
  let parts := fun (n : Node) =>
    if n.kind == .member then
      (n.child? .object).bind fun o => (n.child? .property).map fun p => (o, p)
    else none
  match parts n with
  | none => none
  | some (object, property) =>
    if object.kind == .identifier && object.text == "exports" then some property.text
    else match parts object with
      | some (inner, innerProperty) =>
        if inner.text == "module" && innerProperty.text == "exports" then some property.text
        else none
      | none => none

/-- The function that a member of a class declares. -/
def declaredByMember (className : String) (member : Node) : Option Declared :=
  match member.kind with
  | .methodDefinition .. =>
    some ⟨className ++ "." ++ member.keyOf .name, .method, member.line, member⟩
  | .fieldDefinition =>
    (member.literal? .value).map fun f =>
      ⟨className ++ "." ++ member.keyOf .property, .method, member.line, f⟩
  | _ => none

/-- The function bound to a variable of a declaration on a line. -/
def declaredByVariable (line : Nat) (bound : Node) : Option Declared :=
  match bound.kind, bound.child? .name, bound.literal? .value with
  | .variableDeclarator, some name, some f =>
    if name.kind == .identifier then some ⟨name.text, .arrow, line, f⟩ else none
  | _, _, _ => none

/-- The function that an expression statement on a line assigns to a member of `exports`. -/
def declaredByAssignment (line : Nat) (expression : Node) : Option Declared :=
  match expression.kind, expression.child? .left, expression.literal? .right with
  | .assignment, some left, some f =>
    left.exportedMember?.map fun name => ⟨name, .function, line, f⟩
  | _, _, _ => none

/-- The functions that a node itself declares. -/
def Node.declared (n : Node) : List Declared :=
  match n.kind with
  | .functionDeclaration .. =>
    ((n.child? .name).map fun name => (⟨name.text, .function, n.line, n⟩ : Declared)).toList
  | .classDeclaration =>
    match n.child? .name, n.child? .body with
    | some name, some body => body.children.filterMap (declaredByMember name.text)
    | _, _ => []
  | .lexicalDeclaration | .variableDeclaration =>
    n.children.filterMap (declaredByVariable n.line)
  | .expressionStatement => (n.children.head?.bind (declaredByAssignment n.line)).toList
  | _ => []

end CodeSurvey.Ecma
