import CodeSurvey.Ecma.Declared

/-!
Cyclomatic complexity of function bodies. A body scores one and one more for each branch in it;
its nesting is the deepest stack of branching statements. What lies inside an inner function counts
for that function alone, so no step goes from a node into a function below it.

A body is scored by a walk that keeps a list of the nodes it has still to visit. `branches` and
`nesting` say by recursion over the tree what the walk finds.
-/

namespace CodeSurvey.Complexity

open Ecma

/-- An operator that may leave its right side out. -/
def isShortCircuit (operator : String) : Bool :=
  operator == "&&" || operator == "||" || operator == "??"

/-- The node counts as a branch. -/
def isBranch : Kind → Bool
  | .ifStatement | .ternary | .forStatement | .forInStatement | .whileStatement | .doStatement
  | .catchClause | .switchCase => true
  | .binary operator => isShortCircuit operator
  | _ => false

/-- The node makes what is inside it one level deeper. -/
def isNesting : Kind → Bool
  | .ifStatement | .forStatement | .forInStatement | .whileStatement | .doStatement
  | .switchStatement | .catchClause => true
  | _ => false

mutual

/-- The number of branches at a node and below it, inner functions left out. -/
def branches : Node → Nat
  | ⟨kind, _, _, _, children⟩ => (if isBranch kind then 1 else 0) + branchesBelow children

/-- The number of branches at the nodes that start no function and below them. -/
def branchesBelow : List Node → Nat
  | [] => 0
  | n :: more => (if n.kind.isFunctionBoundary then 0 else branches n) + branchesBelow more

end

theorem branchesBelow_append (l m : List Node) :
    branchesBelow (l ++ m) = branchesBelow l + branchesBelow m := by
  induction l with
  | nil => simp [branchesBelow]
  | cons n more ih => simp [branchesBelow, ih]; omega

mutual

/-- The most nesting nodes on a way down from a node, the node included, inner functions left
    out. -/
def nesting : Node → Nat
  | ⟨kind, _, _, _, children⟩ => (if isNesting kind then 1 else 0) + nestingBelow children

/-- The most nesting nodes on a way down from one of the nodes that start no function. -/
def nestingBelow : List Node → Nat
  | [] => 0
  | n :: more => max (if n.kind.isFunctionBoundary then 0 else nesting n) (nestingBelow more)

end

theorem nestingBelow_append (l m : List Node) :
    nestingBelow (l ++ m) = max (nestingBelow l) (nestingBelow m) := by
  induction l with
  | nil => simp [nestingBelow]
  | cons n more ih => simp [nestingBelow, ih, Nat.max_assoc]

mutual

/-- The number of nodes of a tree. -/
def size : Node → Nat
  | ⟨_, _, _, _, children⟩ => sizeOfAll children + 1

/-- The number of nodes of several trees. -/
def sizeOfAll : List Node → Nat
  | [] => 0
  | n :: more => size n + sizeOfAll more

end

/-- A walk over a body: what it has still to visit, and what it has found so far. -/
structure Walk where
  /-- The nodes still to be visited, the next one first, each with the number of nesting nodes
      above it. -/
  ahead : List (Node × Nat)
  complexity : Nat := 1
  deepest : Nat := 0

namespace Walk

/-- The walk after a visit to a node. The children that start no function are to be visited before
    all others, the last one first. -/
def visit (w : Walk) (n : Node) (depth : Nat) : Walk :=
  let inner := depth + if isNesting n.kind then 1 else 0
  let inside := n.children.filter (!·.kind.isFunctionBoundary)
  { ahead := (inside.map (·, inner)).reverse ++ w.ahead
    complexity := w.complexity + if isBranch n.kind then 1 else 0
    deepest := max w.deepest inner }

/-- The walk after at most so many more visits. -/
def run : Nat → Walk → Walk
  | 0, w => w
  | visits + 1, w =>
    match w.ahead with
    | [] => w
    | (n, depth) :: more => run visits ({ w with ahead := more }.visit n depth)

/-- The walk over a body; no node is visited twice. -/
def ofBody (body : Node) : Walk := run (size body) { ahead := [(body, 0)] }

end Walk

/-- The complexity of a function. -/
structure FunctionScore where
  name : String
  line : Nat
  complexity : Nat
  nesting : Nat
  deriving DecidableEq, Repr

/-- The score of a body under the name and on the line of its function. -/
def score (name : String) (line : Nat) (body : Node) : FunctionScore :=
  let found := Walk.ofBody body
  ⟨name, line, found.complexity, found.deepest⟩

mutual

/-- The functions declared at a node and below it, except that nothing inside a class declaration
    is listed but its own members. -/
def functionsIn : Node → List Declared
  | n@⟨kind, _, _, _, children⟩ =>
    n.declared ++ if kind == .classDeclaration then [] else functionsInAll children

/-- The functions declared at the nodes and below them. -/
def functionsInAll : List Node → List Declared
  | [] => []
  | n :: more => functionsIn n ++ functionsInAll more

end

theorem functionsInAll_append (l m : List Node) :
    functionsInAll (l ++ m) = functionsInAll l ++ functionsInAll m := by
  induction l with
  | nil => simp [functionsInAll]
  | cons n more ih => simp [functionsInAll, ih]

/-- The scores of the functions of a tree that have a body. -/
def scores (tree : Node) : List FunctionScore :=
  (functionsIn tree).filterMap fun d => (d.function.child? .body).map (score d.name d.line)

end CodeSurvey.Complexity
