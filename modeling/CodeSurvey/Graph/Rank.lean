import CodeSurvey.Graph.Basic
import CodeSurvey.Text.Basic

/-!
Files ranked by their importers, and importers counted for files that are named loosely.
-/

namespace CodeSurvey.Graph

/-- The first items of a list: as many as `limit` says, or, if it is negative, all but so many of
    the last. -/
def firstItems {α : Type} (limit : Int) (items : List α) : List α :=
  if limit < 0 then items.take (items.length - (-limit).toNat) else items.take limit.toNat

theorem firstItems_prefix {α : Type} (limit : Int) (items : List α) :
    firstItems limit items <+: items := by
  unfold firstItems; split <;> exact List.take_prefix ..

/-- More importers come first, and files with equally many by their path. -/
def ranksBefore (a b : String × List String) : Bool :=
  if a.2.length == b.2.length then decide (a.1 ≤ b.1) else b.2.length < a.2.length

/-- The most imported files with the number of their importers. -/
def mostImported (g : DependencyGraph) (limit : Int) : List (String × Nat) :=
  (firstItems limit (g.reverse.mergeSort ranksBefore)).map fun entry => (entry.1, entry.2.length)

/-- Drops every leading pair of dot and slash. -/
def dropHere : List Char → List Char
  | '.' :: '/' :: rest => dropHere rest
  | path => path

/-- A path with slashes only and without leading `./`. -/
def plainPath (path : String) : List Char := dropHere (Text.swap '\\' '/' path.toList)

/-- One path ends with the other, and the rest of it is whole components. -/
def samePlace (a b : List Char) : Bool :=
  a == b || ('/' :: b).isSuffixOf a || ('/' :: a).isSuffixOf b

theorem samePlace_refl (a : List Char) : samePlace a a = true := by simp [samePlace]

theorem samePlace_comm (a b : List Char) : samePlace a b = samePlace b a := by
  unfold samePlace
  rw [Bool.or_assoc, Bool.or_comm (List.isSuffixOf _ _), ← Bool.or_assoc, Bool.beq_comm]

/-- The importers of files, counted once for each file and each key of the graph that may mean
    it. -/
def countImporters (g : DependencyGraph) (files : List String) : Nat :=
  (files.map fun file => Adjacency.size
    (g.reverse.filter fun entry => samePlace (plainPath entry.1) (plainPath file))).foldr (· + ·) 0

end CodeSurvey.Graph
