import CodeSurvey.Graph.Basic

/-!
Impact of a change: every file that imports a given file, directly or through others. The files to
go on from wait in a queue with their distances; a file is noted when it is met for the first time.
Files at the greatest distance allowed are noted, but the search does not go on from them: if one
of them has an importer that was never met, the report is marked as truncated.
-/

namespace CodeSurvey.Graph

/-- What depends on a file. -/
structure ImpactReport where
  file : String
  direct : List String := []
  /-- Files at a distance of at least 2, with their distance. -/
  transitive : List (String × Nat) := []
  fanIn : Nat := 0
  deepest : Nat := 0
  /-- There are importers beyond the greatest distance allowed. -/
  truncated : Bool := false
  deriving DecidableEq, Repr

/-- The state of the search for importers. -/
structure Sweep where
  /-- The files to go on from, with their distances, next first. -/
  queue : List (String × Nat)
  /-- The files met so far, the given one included. -/
  seen : List String
  direct : List String := []
  transitive : List (String × Nat) := []
  /-- The files at the greatest distance allowed. -/
  frontier : List String := []
  deepest : Nat := 0

namespace Sweep

/-- Notes a file that is met for the first time, and its distance. -/
def note (maxDepth : Int) (s : Sweep) (file : String) (distance : Nat) : Sweep where
  queue := if distance < maxDepth then s.queue ++ [(file, distance)] else s.queue
  seen := s.seen ++ [file]
  direct := if distance == 1 then s.direct ++ [file] else s.direct
  transitive := if distance == 1 then s.transitive else s.transitive ++ [(file, distance)]
  frontier := if distance < maxDepth then s.frontier else s.frontier ++ [file]
  deepest := max s.deepest distance

/-- Meets the importers of a file at a distance. -/
def expand (maxDepth : Int) (distance : Nat) (s : Sweep) (importers : List String) : Sweep :=
  importers.foldl
    (fun s file => if s.seen.contains file then s else s.note maxDepth file (distance + 1)) s

/-- Takes files from the queue until it is empty, as many of them as there is fuel for. -/
def run (reverse : Adjacency) (maxDepth : Int) : Nat → Sweep → Sweep
  | 0, s => s
  | fuel + 1, s =>
    match s.queue with
    | [] => s
    | (file, distance) :: more =>
      run reverse maxDepth fuel
        ({ s with queue := more }.expand maxDepth distance (reverse.neighbours file))

/-- The search from a file. Every file that waits in the queue, but the first, has been found by an
    edge of its own. -/
def start (reverse : Adjacency) (maxDepth : Int) (file : String) : Sweep :=
  run reverse maxDepth (reverse.size + 1) { queue := [(file, 0)], seen := [file] }

end Sweep

/-- The files that depend on a file within a distance; direct importers always count. -/
def impact (g : DependencyGraph) (file : String) (maxDepth : Int) : ImpactReport :=
  let s := Sweep.start g.reverse maxDepth file
  { file, direct := s.direct,
    transitive := s.transitive.mergeSort fun d e => decide (d.2 ≤ e.2),
    fanIn := s.direct.length + s.transitive.length, deepest := s.deepest,
    truncated := s.frontier.any fun f => (g.reverse.neighbours f).any fun i => !s.seen.contains i }

/-- The record of a report. -/
def ImpactReport.toJson (r : ImpactReport) : Json :=
  .object [("file", .string r.file), ("direct_dependents", .strings r.direct),
    ("transitive_dependents", .array (r.transitive.map fun t =>
      .object [("file", .string t.1), ("depth", .nat t.2)])), ("fan_in", .nat r.fanIn),
    ("max_depth_reached", .nat r.deepest), ("truncated", .bool r.truncated)]

end CodeSurvey.Graph
