import CodeSurvey.Complexity.Score
import Mathlib.Algebra.BigOperators.Group.List.Basic
import Mathlib.Algebra.Order.Ring.Nat

/-!
The walk over a body comes to an end and finds what the recursion over the tree finds. What a walk
has found together with what is still to be found below the nodes ahead is the same after every
visit; each visit leaves fewer nodes to be visited, so nothing is ahead in the end. Main statement:
the score of a body counts its `branches` and takes its `nesting`.
-/

namespace CodeSurvey.Complexity

open Ecma

variable {n body : Node} {cs : List Node} {k depth : Nat}

/-! ### Children one by one -/

theorem branches_mk (n : Node) :
    branches n = (if isBranch n.kind then 1 else 0) + branchesBelow n.children := by
  cases n
  rw [branches]

theorem nesting_mk (n : Node) :
    nesting n = (if isNesting n.kind then 1 else 0) + nestingBelow n.children := by
  cases n
  rw [nesting]

theorem size_mk (n : Node) : size n = sizeOfAll n.children + 1 := by
  cases n
  rw [size]

theorem branchesBelow_eq_sum (cs : List Node) :
    branchesBelow cs = ((cs.filter (!·.kind.isFunctionBoundary)).map fun c => branches c).sum := by
  induction cs with
  | nil => rfl
  | cons c more ih => cases h : c.kind.isFunctionBoundary <;> simp [branchesBelow, h, ih]

theorem nestingBelow_le_iff :
    nestingBelow cs ≤ k ↔ ∀ c ∈ cs.filter (!·.kind.isFunctionBoundary), nesting c ≤ k := by
  induction cs with
  | nil => simp [nestingBelow]
  | cons c more ih =>
    rw [nestingBelow, Nat.max_le, ih]
    cases h : c.kind.isFunctionBoundary <;> simp [h]

theorem sum_size_filter_le (p : Node → Bool) (cs : List Node) :
    ((cs.filter p).map fun c => size c).sum ≤ sizeOfAll cs := by
  induction cs with
  | nil => exact Nat.le_refl 0
  | cons c more ih => cases h : p c <;> simp [sizeOfAll, h] <;> omega

namespace Walk

variable {w : Walk} {more : List (Node × Nat)} {visits : Nat}

/-! ### One visit -/

/-- The nodes at and below those ahead. -/
def left (w : Walk) : Nat := (w.ahead.map fun e => size e.1).sum

/-- The complexity found so far with all branches at and below the nodes ahead. -/
def total (w : Walk) : Nat := w.complexity + (w.ahead.map fun e => branches e.1).sum

/-- The nesting is at most `k` so far, and is so at and below the nodes ahead. -/
def Within (k : Nat) (w : Walk) : Prop := w.deepest ≤ k ∧ ∀ e ∈ w.ahead, e.2 + nesting e.1 ≤ k

theorem left_visit_lt (h : w.ahead = (n, depth) :: more) :
    ({ w with ahead := more }.visit n depth).left < w.left := by
  have hinside := sum_size_filter_le (!·.kind.isFunctionBoundary) n.children
  have hsize := size_mk n
  simp only [left, visit, h, List.map_append, List.map_reverse, List.map_map, List.sum_append,
    List.sum_reverse, List.map_cons, List.sum_cons, Function.comp_def]
  omega

theorem total_visit (h : w.ahead = (n, depth) :: more) :
    ({ w with ahead := more }.visit n depth).total = w.total := by
  have hinside := branchesBelow_eq_sum n.children
  have hbranches := branches_mk n
  simp only [total, visit, h, List.map_append, List.map_reverse, List.map_map, List.sum_append,
    List.sum_reverse, List.map_cons, List.sum_cons, Function.comp_def]
  omega

/-- The nesting at and below a node is that of the node itself or reached below a child. -/
theorem nesting_le_iff_children (n : Node) (depth : Nat) : depth + nesting n ≤ k ↔
    depth + (if isNesting n.kind then 1 else 0) ≤ k ∧
      ∀ c ∈ n.children.filter (!·.kind.isFunctionBoundary),
        depth + (if isNesting n.kind then 1 else 0) + nesting c ≤ k := by
  rw [nesting_mk, ← Nat.add_assoc]
  generalize depth + (if isNesting n.kind then 1 else 0) = inner
  constructor
  · intro hle
    have hall := nestingBelow_le_iff.1 (Nat.le_sub_of_add_le' hle)
    exact ⟨by omega, fun c hc => by have := hall c hc; omega⟩
  · rintro ⟨hinner, hall⟩
    have hle := nestingBelow_le_iff.2 fun c hc => Nat.le_sub_of_add_le' (hall c hc)
    omega

theorem within_visit (h : w.ahead = (n, depth) :: more) :
    Within k ({ w with ahead := more }.visit n depth) ↔ Within k w := by
  rw [Within, Within, h, List.forall_mem_cons, nesting_le_iff_children]
  simp only [visit, List.forall_mem_append, List.mem_reverse, List.forall_mem_map, Nat.max_le]
  tauto

/-! ### The whole walk -/

theorem ahead_run (h : w.left ≤ visits) : (w.run visits).ahead = [] := by
  induction visits generalizing w with
  | zero =>
    cases hahead : w.ahead with
    | nil => rw [run, hahead]
    | cons e more =>
      have hsize := size_mk e.1
      rw [left, hahead, List.map_cons, List.sum_cons] at h
      omega
  | succ visits ih =>
    rw [run]
    split
    · assumption
    · rename_i hahead
      have hlt := left_visit_lt hahead
      exact ih (by omega)

theorem total_run (w : Walk) (visits : Nat) : (w.run visits).total = w.total := by
  induction visits generalizing w with
  | zero => rfl
  | succ visits ih =>
    rw [run]
    split
    · rfl
    · rename_i hahead
      rw [ih, total_visit hahead]

theorem within_run (w : Walk) (visits : Nat) : Within k (w.run visits) ↔ Within k w := by
  induction visits generalizing w with
  | zero => rfl
  | succ visits ih =>
    rw [run]
    split
    · rfl
    · rename_i hahead
      rw [ih, within_visit hahead]

theorem ahead_ofBody (body : Node) : (ofBody body).ahead = [] := ahead_run (Nat.le_refl _)

theorem complexity_ofBody (body : Node) : (ofBody body).complexity = 1 + branches body := by
  have htotal := total_run { ahead := [(body, 0)] } (size body)
  have hend := ahead_ofBody body
  rw [ofBody] at hend ⊢
  simpa [total, hend] using htotal

theorem deepest_ofBody (body : Node) : (ofBody body).deepest = nesting body := by
  refine eq_of_forall_ge_iff fun k => ?_
  have hwithin := within_run (k := k) { ahead := [(body, 0)] } (size body)
  have hend := ahead_ofBody body
  rw [ofBody] at hend ⊢
  simpa [Within, hend] using hwithin

end Walk

/-- The walk finds what the recursion over the tree finds. -/
theorem score_eq (name : String) (line : Nat) (body : Node) :
    score name line body = ⟨name, line, 1 + branches body, nesting body⟩ := by
  rw [score, Walk.complexity_ofBody, Walk.deepest_ofBody]

end CodeSurvey.Complexity
