import CodeSurvey.Graph.Basic

/-!
Import cycles: the strongly connected components of at least two files, found by one depth-first
search. A file is numbered when the search meets it and put on a stack; its low link is the least
number on the stack that is known to be within its reach. When the search leaves a file whose low
link is its own number, the file is the root of a component, which is then taken off the stack.

The search keeps its own list of work instead of calling itself. A work item is a file with the
position of the neighbour to look at next; position 0 says that the search meets the file now.
-/

namespace CodeSurvey.Graph

/-- The state of the search. The numbers and links of a file are those of its first pair; the lists
    of work, stack and components have the latest first. -/
structure Search where
  work : List (String × Nat) := []
  index : List (String × Nat) := []
  low : List (String × Nat) := []
  stack : List String := []
  counter : Nat := 0
  components : List (List String) := []
  deriving DecidableEq, Repr

namespace Search

/-- The number of a file. -/
def indexOf? (s : Search) (file : String) : Option Nat := s.index.lookup file

/-- The low link of a file; a file that is not numbered has none, and none is asked for. -/
def lowOf (s : Search) (file : String) : Nat := (s.low.lookup file).getD 0

/-- Lowers the low link of a file to a number, if that is less. -/
def lower (s : Search) (file : String) (n : Nat) : Search :=
  { s with low := (file, min (s.lowOf file) n) :: s.low }

theorem lowOf_lower_self (s : Search) (file : String) (n : Nat) :
    (s.lower file n).lowOf file = min (s.lowOf file) n := by
  simp [lower, lowOf]

theorem lowOf_lower_of_ne (s : Search) {file other : String} (h : other ≠ file) (n : Nat) :
    (s.lower file n).lowOf other = s.lowOf other := by
  simp [lower, lowOf, List.lookup_cons, beq_false_of_ne h]

/-- Numbers a file and puts it on the stack. -/
def meet (s : Search) (file : String) : Search :=
  { s with index := (file, s.counter) :: s.index, low := (file, s.counter) :: s.low,
           stack := file :: s.stack, counter := s.counter + 1 }

theorem indexOf?_meet_self (s : Search) (file : String) :
    (s.meet file).indexOf? file = some s.counter := by
  simp [meet, indexOf?]

theorem indexOf?_meet_of_ne (s : Search) {file other : String} (h : other ≠ file) :
    (s.meet file).indexOf? other = s.indexOf? other := by
  simp [meet, indexOf?, List.lookup_cons, beq_false_of_ne h]

theorem lowOf_meet_self (s : Search) (file : String) : (s.meet file).lowOf file = s.counter := by
  simp [meet, lowOf]

theorem lowOf_meet_of_ne (s : Search) {file other : String} (h : other ≠ file) :
    (s.meet file).lowOf other = s.lowOf other := by
  simp [meet, lowOf, List.lookup_cons, beq_false_of_ne h]

/-- Looks at the neighbours of a file from a position on: a neighbour on the stack may lower the
    link of the file, and one that is not numbered ends the look with the position behind it. -/
def look (s : Search) (file : String) (position : Nat) :
    List String → Search × Option (String × Nat)
  | [] => (s, none)
  | neighbour :: more =>
    match s.indexOf? neighbour with
    | none => (s, some (neighbour, position + 1))
    | some n =>
      let s := if s.stack.contains neighbour then s.lower file n else s
      s.look file (position + 1) more

/-- The stack down to a file, the file included, and what is below it. -/
def unstack (file : String) : List String → List String × List String
  | [] => ([], [])
  | top :: below =>
    if top == file then ([top], below)
    else
      let (taken, rest) := unstack file below
      (top :: taken, rest)

theorem unstack_append (file : String) (stack : List String) :
    (unstack file stack).1 ++ (unstack file stack).2 = stack := by
  fun_induction unstack file stack <;> simp_all

/-- A file on the stack is the last one taken, and what stood above it is taken with it. -/
theorem unstack_of_mem {file : String} {stack : List String} (h : file ∈ stack) :
    ∃ above below, stack = above ++ file :: below ∧
      unstack file stack = (above ++ [file], below) := by
  induction stack with
  | nil => simp at h
  | cons top rest ih =>
    by_cases ht : top = file
    · subst ht; exact ⟨[], rest, rfl, by simp [unstack]⟩
    · obtain ⟨above, below, hs, hu⟩ := ih ((List.mem_cons.1 h).resolve_left (Ne.symm ht))
      exact ⟨top :: above, below, by rw [hs]; rfl, by simp [unstack, ht, hu]⟩

/-- Takes the component of a file off the stack, if the file is the root of one. -/
def complete (s : Search) (file : String) : Search :=
  if some (s.lowOf file) == s.indexOf? file then
    let (component, stack) := unstack file s.stack
    { s with stack,
             components :=
              if component.length ≥ 2 then component :: s.components else s.components }
  else s

/-- Hands the low link of a file to the file below it in the work. -/
def handDown (s : Search) (file : String) : Search :=
  match s.work with
  | [] => s
  | (parent, _) :: _ => s.lower parent (s.lowOf file)

/-- Leaves a file when all its neighbours have been looked at. -/
def leave (s : Search) (file : String) : Search := (s.complete file).handDown file

/-- Goes on with a numbered file from a position: down to the first neighbour that is not numbered,
    or out of the file if there is none. -/
def proceed (forward : Adjacency) (s : Search) (file : String) (position : Nat) :
    Search :=
  match s.look file position ((forward.neighbours file).drop position) with
  | (s, some (neighbour, next)) => { s with work := (neighbour, 0) :: (file, next) :: s.work }
  | (s, none) => s.leave file

/-- Does the next work item. -/
def step (forward : Adjacency) (s : Search) : Search :=
  match s.work with
  | [] => s
  | (file, position) :: work =>
    let s := { s with work }
    (if position == 0 then s.meet file else s).proceed forward file position

/-- Works until nothing is left to do, at most `fuel` items. -/
def run (forward : Adjacency) : Nat → Search → Search
  | 0, s => s
  | fuel + 1, s => if s.work.isEmpty then s else run forward fuel (s.step forward)

/-- Searches from a file, if the search has not met it yet. -/
def start (forward : Adjacency) (fuel : Nat) (s : Search) (file : String) : Search :=
  if (s.indexOf? file).isSome then s else run forward fuel { s with work := [(file, 0)] }

end Search

/-- The files of an adjacency: those that have neighbours, then those that only are neighbours. -/
def nodes (forward : Adjacency) : List String :=
  (forward.map (·.1) ++ forward.flatMap (·.2)).eraseDups

/-- The whole search. A file gives rise to a work item when it is met and to one more for the step
    back to the file it was met from, so twice as many items as files are enough. -/
def search (forward : Adjacency) : Search :=
  let files := nodes forward
  files.foldl (Search.start forward (2 * files.length)) {}

/-- The cycles of a graph. -/
structure CycleReport where
  cycles : List (List String) := []
  count : Nat := 0
  files : Nat := 0
  deriving DecidableEq, Repr

/-- The components of at least two files, largest first and those of one size in the order in which
    the search completes them. -/
def findCycles (g : DependencyGraph) : CycleReport :=
  let cycles := (search g.forward).components.reverse.mergeSort fun a b => b.length ≤ a.length
  { cycles, count := cycles.length, files := cycles.flatten.eraseDups.length }

/-- The record of a report. -/
def CycleReport.toJson (r : CycleReport) : Json :=
  .object [("cycles", .array (r.cycles.map Json.strings)), ("cycle_count", .nat r.count),
    ("files_in_cycles", .nat r.files)]

end CodeSurvey.Graph
