import CodeSurvey.Proofs.Graph.SearchRun
import CodeSurvey.Sorting
import Mathlib.Algebra.Ring.Nat

/-!
The report on import cycles. Main statements: it lists the strongly connected components of at least
two files, each once and whole, the largest first, and counts them and their files; of two
components of one size, the one that the other leads to is listed first.
-/

namespace CodeSurvey.Graph

open Adjacency

/-- The lists are the strongly connected components of at least two files: members of one reach each
    other, two files that reach each other are members of one, and no file stands in two places. -/
structure Components (a : Adjacency) (components : List (List String)) : Prop where
  size : ∀ c ∈ components, 2 ≤ c.length
  known : ∀ c ∈ components, ∀ x ∈ c, x ∈ nodes a
  reaches : ∀ c ∈ components, ∀ x ∈ c, ∀ y ∈ c, a.Reaches x y
  whole : ∀ x y, x ≠ y → a.Mutual x y → ∃ c ∈ components, x ∈ c ∧ y ∈ c
  nodup : components.flatten.Nodup

variable {a : Adjacency}

theorem Components.perm {cs ds : List (List String)} (h : Components a cs) (hp : ds.Perm cs) :
    Components a ds := by
  refine ⟨fun c hc => h.size c (hp.subset hc), fun c hc => h.known c (hp.subset hc),
    fun c hc => h.reaches c (hp.subset hc), fun x y hne hxy => ?_, hp.flatten.nodup_iff.2 h.nodup⟩
  obtain ⟨c, hc, hin⟩ := h.whole x y hne hxy
  exact ⟨c, hp.symm.subset hc, hin⟩

/-- What the search has taken off its stack in the end are all components. -/
theorem components_search (a : Adjacency) : Components a (search a).components := by
  obtain ⟨hready, hdone⟩ := search_ready a
  have hc := hready.completed
  refine ⟨hc.size, fun c hm x hx => (hdone x).1 (hc.done c hm x hx), hc.reaches, ?_, ?_⟩
  · intro x y hne hxy
    obtain ⟨w, hw⟩ := hxy.1.exists_edge hne
    exact hc.whole x y ((hdone x).2 (mem_nodes_of_edge_left hw)) hne hxy
  · refine List.nodup_flatten.2 ⟨hc.nodup, hc.order.imp fun {later earlier} h => ?_⟩
    intro x hx hx'
    exact h x hx' x hx Reaches.refl

/-- Sorting the components by size keeps them the same. -/
theorem components_cycles (g : DependencyGraph) :
    Components g.forward (findCycles g).cycles :=
  (components_search g.forward).perm
    ((List.mergeSort_perm _ _).trans (List.reverse_perm _))

/-- The report on cycles lists exactly the strongly connected components of at least two files,
    largest first, with their number and the number of their files. -/
theorem components_findCycles (g : DependencyGraph) :
    Components g.forward (findCycles g).cycles ∧
      ((findCycles g).cycles.Pairwise fun c d => d.length ≤ c.length) ∧
      (findCycles g).count = (findCycles g).cycles.length ∧
      (findCycles g).files = ((findCycles g).cycles.map List.length).sum := by
  have hperm : (findCycles g).cycles.Perm (search g.forward).components :=
    (List.mergeSort_perm _ _).trans (List.reverse_perm _)
  have hcomponents := (components_search g.forward).perm hperm
  refine ⟨hcomponents, ?_, rfl, ?_⟩
  · refine (List.pairwise_mergeSort ?_ ?_ _).imp of_decide_eq_true
    · intro a b c
      simp only [decide_eq_true_eq]
      omega
    · intro a b
      simp only [Bool.or_eq_true, decide_eq_true_eq]
      omega
  · show (findCycles g).cycles.flatten.eraseDups.length = _
    rw [Distinct.eraseDups_of_nodup hcomponents.nodup, List.length_flatten]

/-! ### The order of the components -/

/-- Nothing in a cycle leads to a later cycle of the same size. -/
theorem pairwise_cycles (g : DependencyGraph) : (findCycles g).cycles.Pairwise fun c d =>
    c.length = d.length → ∀ x ∈ c, ∀ y ∈ d, ¬ g.forward.Reaches x y :=
  Sorting.pairwise_largestFirst_of_pairwise
    (List.pairwise_reverse.2 (search_ready g.forward).1.completed.order)

/-- Of two cycles of one size, the one that the other leads to is listed first. -/
theorem reached_cycle_first (g : DependencyGraph) {i j : Nat} {c d : List String} {x y : String}
    (hc : (findCycles g).cycles[i]? = some c) (hd : (findCycles g).cycles[j]? = some d)
    (hne : i ≠ j) (hsize : c.length = d.length) (hx : x ∈ c) (hy : y ∈ d)
    (hreach : g.forward.Reaches x y) : j < i := by
  obtain ⟨hi, rfl⟩ := List.getElem?_eq_some_iff.1 hc
  obtain ⟨hj, rfl⟩ := List.getElem?_eq_some_iff.1 hd
  refine Nat.lt_of_le_of_ne (Nat.not_lt.1 fun hlt => ?_) hne.symm
  exact List.pairwise_iff_getElem.1 (pairwise_cycles g) i j hi hj hlt hsize x hx y hy hreach

/-- Two pairs of files, the first of which imports from the second. -/
theorem reached_cycle_first_pairs :
    let g : DependencyGraph :=
      { forward := [("a", ["b", "c"]), ("b", ["a"]), ("c", ["d"]), ("d", ["c"])] }
    (findCycles g).cycles[1]? = some ["b", "a"] ∧ (findCycles g).cycles[0]? = some ["d", "c"] ∧
      (1 : Nat) ≠ 0 ∧ ["b", "a"].length = ["d", "c"].length ∧ "a" ∈ ["b", "a"] ∧ "c" ∈ ["d", "c"] ∧
      g.forward.Reaches "a" "c" ∧ 0 < 1 := by
  intro g
  have hsearch : (search g.forward).components = [["b", "a"], ["d", "c"]] := by decide +kernel
  have hcycles : (findCycles g).cycles = [["d", "c"], ["b", "a"]] := by
    rw [findCycles, hsearch]
    exact List.mergeSort_of_pairwise (by decide)
  have hc : (findCycles g).cycles[1]? = some ["b", "a"] := by rw [hcycles]; rfl
  have hd : (findCycles g).cycles[0]? = some ["d", "c"] := by rw [hcycles]; rfl
  have hx : "a" ∈ ["b", "a"] := by decide
  have hy : "c" ∈ ["d", "c"] := by decide
  have hedge : g.forward.Edge "a" "c" := by unfold Edge; decide +kernel
  exact ⟨hc, hd, by decide, rfl, hx, hy, hedge.reaches,
    reached_cycle_first g hc hd (by decide) rfl hx hy hedge.reaches⟩

end CodeSurvey.Graph
