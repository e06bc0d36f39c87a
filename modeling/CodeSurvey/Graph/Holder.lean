import CodeSurvey.Graph.Basic

/-!
A holder keeps the current graph. A new graph takes the place of the old one as a whole; whoever
has taken the old one keeps it. Graphs installed in a holder are told apart by their generation,
even if they are equal.
-/

namespace CodeSurvey.Graph

/-- A graph as a holder had it. -/
structure Snapshot where
  graph : DependencyGraph := {}
  generation : Nat := 0
  deriving DecidableEq, Repr

/-- A holder is known by what it holds now. -/
structure Holder where
  current : Snapshot := {}
  deriving DecidableEq, Repr

/-- Installs a graph. -/
def Holder.install (h : Holder) (graph : DependencyGraph) : Holder :=
  ⟨graph, h.current.generation + 1⟩

/-- A snapshot is what the holder still holds. -/
def Holder.holds (h : Holder) (s : Snapshot) : Bool := h.current.generation == s.generation

end CodeSurvey.Graph
