import CodeSurvey.Graph.Cycles
import Mathlib.Logic.Relation

/-!
Reachability in a dependency graph. An edge leads from a file to each of its neighbours; a file
reaches another if edges lead there, any number of them. Main statements: a set of files that no
edge leaves holds whatever its members reach, and the files of an adjacency are such a set.
-/

namespace CodeSurvey.Adjacency

variable (a : Adjacency)

/-- An edge leads from `x` to `y`. -/
def Edge (x y : String) : Prop := y ∈ a.neighbours x

/-- Edges lead from `x` to `y`, any number of them. -/
def Reaches : String → String → Prop := Relation.ReflTransGen a.Edge

/-- Two files reach each other. -/
def Mutual (x y : String) : Prop := a.Reaches x y ∧ a.Reaches y x

variable {a} {x y z : String}

theorem Reaches.refl : a.Reaches x x := Relation.ReflTransGen.refl

theorem Reaches.trans (hxy : a.Reaches x y) (hyz : a.Reaches y z) : a.Reaches x z :=
  Relation.ReflTransGen.trans hxy hyz

theorem Edge.reaches (h : a.Edge x y) : a.Reaches x y := Relation.ReflTransGen.single h

/-- What no edge leaves holds everything its members reach. -/
theorem Reaches.mem_of_closed {P : String → Prop} (closed : ∀ u, P u → ∀ w, a.Edge u w → P w)
    (hx : P x) (h : a.Reaches x y) : P y := by
  induction h with
  | refl => exact hx
  | tail _ he ih => exact closed _ ih _ he

/-- A file that reaches another one has a neighbour. -/
theorem Reaches.exists_edge (h : a.Reaches x y) (hne : x ≠ y) : ∃ w, a.Edge x w := by
  rcases Relation.ReflTransGen.cases_head h with he | ⟨w, hw, _⟩
  · exact absurd he hne
  · exact ⟨w, hw⟩

/-- Against the direction of every edge, files are reached the other way round. -/
theorem Reaches.iff_swap {r : Adjacency} (h : ∀ u w, a.Edge u w ↔ r.Edge w u) :
    a.Reaches x y ↔ r.Reaches y x := by
  have hedge : a.Edge = Function.swap r.Edge := by
    funext u w
    exact propext (h u w)
  rw [Reaches, hedge]
  exact Relation.reflTransGen_swap

theorem mem_of_lookup {ts : List String} (h : a.lookup x = some ts) :
    (x, ts) ∈ a := by
  obtain ⟨l, r, hl, _⟩ := List.lookup_eq_some_iff.1 h
  rw [hl]; simp

/-- An edge starts at a file with an entry that lists its end. -/
theorem Edge.exists_entry (h : a.Edge x y) : ∃ ts, (x, ts) ∈ a ∧ y ∈ ts := by
  unfold Edge neighbours at h
  cases hl : a.lookup x with
  | none => simp [hl] at h
  | some ts => exact ⟨ts, mem_of_lookup hl, by simpa [hl] using h⟩

end CodeSurvey.Adjacency

namespace CodeSurvey.Graph

open Adjacency

variable {a : Adjacency} {x y : String}

theorem mem_nodes : x ∈ nodes a ↔ ∃ e ∈ a, e.1 = x ∨ x ∈ e.2 := by
  simp only [nodes, List.mem_eraseDups, List.mem_append, List.mem_map, List.mem_flatMap]
  constructor
  · rintro (⟨e, he, rfl⟩ | ⟨e, he, hx⟩)
    · exact ⟨e, he, Or.inl rfl⟩
    · exact ⟨e, he, Or.inr hx⟩
  · rintro ⟨e, he, rfl | hx⟩
    · exact Or.inl ⟨e, he, rfl⟩
    · exact Or.inr ⟨e, he, hx⟩

theorem mem_nodes_of_edge_left (h : a.Edge x y) : x ∈ nodes a := by
  obtain ⟨ts, hts, _⟩ := h.exists_entry
  exact mem_nodes.2 ⟨_, hts, Or.inl rfl⟩

theorem mem_nodes_of_edge_right (h : a.Edge x y) : y ∈ nodes a := by
  obtain ⟨ts, hts, hy⟩ := h.exists_entry
  exact mem_nodes.2 ⟨_, hts, Or.inr hy⟩

end CodeSurvey.Graph
