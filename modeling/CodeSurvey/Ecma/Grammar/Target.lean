import CodeSurvey.Ecma.Tree

/-!
Targets of assignment. What is assigned to or bound is read as an expression first and then read
again as a pattern: literals become patterns, assignments inside become default values, and the
rest of a list becomes a rest element. The tree of a whole source may hold no shorthand property
with a default value, since only a pattern may have one.
-/

namespace CodeSurvey.Ecma

mutual

/-- The node as an element of a pattern. -/
def Node.asPattern? : Node → Option Node
  | n@⟨kind, role, line, text, children⟩ =>
    match kind with
    | .identifier | .undefined | .member | .subscript | .shorthand => some n
    | .objectPattern | .arrayPattern | .assignmentPattern | .restPattern => some n
    | .object => (asPatterns? children).map fun cs => ⟨.objectPattern, role, line, text, cs⟩
    | .array => (asPatterns? children).map fun cs => ⟨.arrayPattern, role, line, text, cs⟩
    | .assignment | .shorthandDefault => some ⟨.assignmentPattern, role, line, text, children⟩
    | .spread => (asPatterns? children).map fun cs => ⟨.restPattern, role, line, text, cs⟩
    | .pair => (asValuePatterns? children).map fun cs => ⟨.pair, role, line, text, cs⟩
    | _ => none

/-- The nodes as elements of a pattern. -/
def asPatterns? : List Node → Option (List Node)
  | [] => some []
  | n :: more =>
    match n.asPattern?, asPatterns? more with
    | some p, some ps => some (p :: ps)
    | _, _ => none

/-- The parts of a property whose value is an element of a pattern. -/
def asValuePatterns? : List Node → Option (List Node)
  | [] => some []
  | n :: more =>
    match if n.role == .value then n.asPattern? else some n, asValuePatterns? more with
    | some p, some ps => some (p :: ps)
    | _, _ => none

end

/-- The node as the left side of an assignment: a pattern, or an expression in parentheses. -/
def Node.asTarget? (n : Node) : Option Node :=
  match n.kind with
  | .parenthesized => some n
  | .identifier | .undefined | .member | .subscript | .object | .array => n.asPattern?
  | _ => none

/-- The node can be updated in place. -/
def Node.isPlace (n : Node) : Bool :=
  match n.kind with
  | .parenthesized | .identifier | .undefined | .member | .subscript => true
  | _ => false

/-- The elements of a list that an arrow follows, as parameters. -/
def Node.asParameters? (n : Node) : Option (List Node) :=
  match n.kind with
  | .parenthesized =>
    match n.children with
    | [e] => if e.kind == .sequence then asPatterns? e.children else asPatterns? [e]
    | _ => none
  | .arrowParameters | .argumentList => asPatterns? n.children
  | _ => none

mutual

/-- A shorthand property with a default value stands somewhere below. -/
def Node.holdsShorthandDefault : Node → Bool
  | ⟨kind, _, _, _, children⟩ => kind == .shorthandDefault || holdShorthandDefault children

/-- A shorthand property with a default value stands in one of the nodes. -/
def holdShorthandDefault : List Node → Bool
  | [] => false
  | n :: more => n.holdsShorthandDefault || holdShorthandDefault more

end

end CodeSurvey.Ecma
