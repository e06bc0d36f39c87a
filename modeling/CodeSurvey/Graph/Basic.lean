import CodeSurvey.Json.Basic

/-!
Dependency graphs. An adjacency lists, for each file that has neighbours, its neighbours; the order
of the files and of the neighbours is the order in which they were found. A graph holds the imports
of each file (`forward`), the importers of each file (`reverse`) and counts about how it was built.
Main statements: turning an adjacency round keeps every edge and invents none.
-/

namespace CodeSurvey

/-- Files with their neighbours. -/
abbrev Adjacency := List (String × List String)

namespace Adjacency

/-- The neighbours of a file. -/
def neighbours (a : Adjacency) (file : String) : List String := (a.lookup file).getD []

/-- Puts the neighbours of a file in the place of those it has, or behind all others. -/
def put (file : String) (targets : List String) : Adjacency → Adjacency
  | [] => [(file, targets)]
  | entry :: more =>
    if entry.1 == file then (file, targets) :: more else entry :: put file targets more

theorem neighbours_put_self (a : Adjacency) (file : String) (targets : List String) :
    (a.put file targets).neighbours file = targets := by
  fun_induction put file targets a <;> grind [neighbours]

theorem neighbours_put_of_ne (a : Adjacency) {file other : String} (h : other ≠ file)
    (targets : List String) : (a.put file targets).neighbours other = a.neighbours other := by
  fun_induction put file targets a <;> grind [neighbours]

/-- The adjacency in which each file has the neighbours of its last pair. -/
def ofPairs (pairs : List (String × List String)) : Adjacency :=
  pairs.foldl (fun a pair => a.put pair.1 pair.2) []

/-- Adds one neighbour of a file behind those it has. -/
def add (file target : String) : Adjacency → Adjacency
  | [] => [(file, [target])]
  | entry :: more =>
    if entry.1 == file then (file, entry.2 ++ [target]) :: more else entry :: add file target more

theorem neighbours_add_self (a : Adjacency) (file target : String) :
    (a.add file target).neighbours file = a.neighbours file ++ [target] := by
  fun_induction add file target a <;> grind [neighbours]

theorem neighbours_add_of_ne (a : Adjacency) {file other : String} (h : other ≠ file)
    (target : String) : (a.add file target).neighbours other = a.neighbours other := by
  fun_induction add file target a <;> grind [neighbours]

/-- The adjacency with every edge turned round, one entry for each edge. -/
def turned (a : Adjacency) : Adjacency :=
  a.foldl (fun r entry => entry.2.foldl (fun r target => r.add target entry.1) r) []

theorem neighbours_foldl_add (file target : String) (targets : List String) (a : Adjacency) :
    (targets.foldl (fun r t => r.add t file) a).neighbours target =
      a.neighbours target ++ (targets.filter (· == target)).map fun _ => file := by
  induction targets generalizing a with
  | nil => simp
  | cons t more ih =>
    rw [List.foldl_cons, ih]
    by_cases h : t = target
    · subst h; simp [neighbours_add_self]
    · simp [neighbours_add_of_ne a (Ne.symm h), h]

/-- The neighbours of a file after turning are the files that had it as a neighbour, each once for
    each time it was listed. -/
theorem neighbours_turned (a : Adjacency) (target : String) :
    a.turned.neighbours target =
      a.flatMap fun entry => (entry.2.filter (· == target)).map fun _ => entry.1 := by
  suffices h : ∀ b : Adjacency,
      (a.foldl (fun r entry => entry.2.foldl (fun r t => r.add t entry.1) r) b).neighbours target =
        b.neighbours target ++ a.flatMap fun entry =>
          (entry.2.filter (· == target)).map fun _ => entry.1 by
    simpa [turned, neighbours] using h []
  induction a with
  | nil => simp
  | cons entry more ih => intro b; rw [List.foldl_cons, ih, neighbours_foldl_add]; simp

theorem mem_neighbours_turned (a : Adjacency) (file target : String) :
    file ∈ a.turned.neighbours target ↔ ∃ entry ∈ a, entry.1 = file ∧ target ∈ entry.2 := by
  simp only [neighbours_turned, List.mem_flatMap, List.mem_map, List.mem_filter, beq_iff_eq]
  constructor
  · rintro ⟨entry, he, t, ⟨ht, rfl⟩, rfl⟩; exact ⟨entry, he, rfl, ht⟩
  · rintro ⟨entry, he, rfl, ht⟩; exact ⟨entry, he, target, ⟨ht, rfl⟩, rfl⟩

/-- The number of edges. -/
def size (a : Adjacency) : Nat := (a.map (·.2.length)).foldr (· + ·) 0

theorem size_add (a : Adjacency) (file target : String) :
    (a.add file target).size = a.size + 1 := by
  fun_induction add file target a <;> simp_all [size] <;> omega

theorem size_foldl_add (file : String) (targets : List String) (a : Adjacency) :
    (targets.foldl (fun r target => r.add target file) a).size = a.size + targets.length := by
  induction targets generalizing a with
  | nil => rfl
  | cons t more ih => simp [ih, size_add]; omega

/-- Turning the edges round keeps their number. -/
theorem size_turned (a : Adjacency) : a.turned.size = a.size := by
  suffices h : ∀ b : Adjacency,
      (a.foldl (fun r entry => entry.2.foldl (fun r target => r.add target entry.1) r) b).size =
        b.size + a.size by
    have := h []
    rwa [show size [] = 0 from rfl, Nat.zero_add] at this
  induction a with
  | nil => simp [size]
  | cons entry more ih =>
    intro b
    rw [List.foldl_cons, ih, size_foldl_add]
    simp [size]; omega

/-- The record of an adjacency. -/
def toJson (a : Adjacency) : Json := .object (a.map fun entry => (entry.1, .strings entry.2))

end Adjacency

/-- What is known about the building of a graph. -/
structure GraphStats where
  filesParsed : Nat := 0
  edges : Nat := 0
  languages : List String := []
  errors : Nat := 0
  deriving DecidableEq, Repr

/-- A dependency graph. -/
structure DependencyGraph where
  forward : Adjacency := []
  reverse : Adjacency := []
  stats : GraphStats := {}
  /-- When it was built from files; empty if it was not. -/
  builtAt : String := ""
  deriving DecidableEq, Repr

/-- The record of the counts. -/
def GraphStats.toJson (s : GraphStats) : Json :=
  .object [("total_files_parsed", .nat s.filesParsed), ("total_edges", .nat s.edges),
    ("languages_parsed", .strings s.languages), ("parse_errors", .nat s.errors)]

/-- The members of the record of a graph. -/
def DependencyGraph.members (g : DependencyGraph) : List (String × Json) :=
  [("forward", g.forward.toJson), ("reverse", g.reverse.toJson), ("stats", g.stats.toJson),
    ("built_at", .string g.builtAt)]

end CodeSurvey
