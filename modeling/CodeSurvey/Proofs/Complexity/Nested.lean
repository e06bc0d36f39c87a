import CodeSurvey.Proofs.Complexity.Branches

/-!
What the score of a function says about its own branches: those of its body between which and the
function no other function starts. The walk over a body leaves out the functions inside, but it
never asks whether the body is a function itself. So the score is exact, except for an arrow
function whose body is a function literal: its own branches are none, and what is counted instead
are the branches of that literal.
-/

namespace CodeSurvey.Complexity

open Ecma

/-- The node is a branch at or below a place, and no function starts strictly between the two. -/
def directlyBelow (start o : Occurrence) : Bool :=
  isBranch o.node.kind && start.place.isPrefixOf o.place &&
    noFunction (o.above.drop (start.place.length + 1))

/-- The node is a branch in the body of the function, and no other function starts between them. -/
def ownBranch (f o : Occurrence) : Bool :=
  (f.child? .body).any (·.place.isPrefixOf o.place) && directlyBelow f o

variable {tree : Node} {o f b : Occurrence} {d : Declared}

/-- A branch starts no function, so it may be left out of the way to it. -/
theorem noFunction_drop_above (hbranch : isBranch o.node.kind = true) (k : Nat) :
    noFunction (o.above.drop k) = noFunction (o.way.drop k) := by
  have hlast : o.node.kind.isFunctionBoundary = false := by
    cases hkind : o.node.kind <;> rw [hkind] at hbranch <;> first | rfl | cases hbranch
  have hnode : noFunction ([o.node].drop (k - o.above.length)) = true := by
    cases k - o.above.length with
    | zero => simp [noFunction, hlast]
    | succ => simp [noFunction]
  rw [Occurrence.way, List.drop_append, noFunction, noFunction, List.all_append]
  rw [noFunction] at hnode
  rw [hnode, Bool.and_true]

theorem noFunction_drop_way (hb : b ∈ tree.occurrences) (ho : o ∈ tree.occurrences)
    (hplace : b.place <+: o.place) :
    noFunction (o.way.drop b.place.length) =
      (!b.node.kind.isFunctionBoundary && noFunction (o.way.drop (b.place.length + 1))) := by
  have hway := Occurrence.getElem?_way hb ho hplace
  obtain ⟨hlt, hget⟩ := List.getElem?_eq_some_iff.1 hway
  rw [List.drop_eq_getElem_cons hlt, hget]
  rfl

/-- A branch counts for a function if it is directly below the body. -/
theorem countsFor_eq_directlyBelow (hbody : f.child? .body = some b) (o : Occurrence) :
    countsFor f o = directlyBelow b o := by
  rw [countsFor, hbody, directlyBelow, Option.any_some, reaches, Bool.and_assoc]
  cases hbranch : isBranch o.node.kind with
  | false => rfl
  | true => rw [noFunction_drop_above hbranch]

/-- The own branches of a function are those directly below its body, unless that is a function. -/
theorem ownBranch_eq (hf : f ∈ tree.occurrences) (ho : o ∈ tree.occurrences)
    (hbody : f.child? .body = some b) :
    ownBranch f o = (!b.node.kind.isFunctionBoundary && directlyBelow b o) := by
  have hmem := Occurrence.mem_children_of_child? hbody
  have hb := Occurrence.mem_occurrences_of_mem_children hf hmem
  obtain ⟨i, hi, _⟩ := Occurrence.place_of_mem_children hmem
  have hlength : f.place.length + 1 = b.place.length := by
    rw [hi, List.length_append, List.length_singleton]
  rw [ownBranch, hbody, Option.any_some, directlyBelow, directlyBelow, hlength]
  cases hbranch : isBranch o.node.kind with
  | false => simp
  | true =>
    cases hplace : b.place.isPrefixOf o.place with
    | false => simp
    | true =>
      have hbo := List.isPrefixOf_iff_prefix.1 hplace
      have hfo : f.place.isPrefixOf o.place = true :=
        List.isPrefixOf_iff_prefix.2 ((hi ▸ List.prefix_append ..).trans hbo)
      rw [hfo, noFunction_drop_above hbranch, noFunction_drop_above hbranch,
        noFunction_drop_way hb ho hbo]
      rfl

/-- How the score of a function compares to its own branches. -/
theorem countP_countsFor_eq (hf : f ∈ tree.occurrences) (hbody : f.child? .body = some b) :
    tree.occurrences.countP (countsFor f) = tree.occurrences.countP (ownBranch f) +
      if b.node.kind.isFunctionBoundary then tree.occurrences.countP (directlyBelow b) else 0 := by
  have hcounts : tree.occurrences.countP (countsFor f) =
      tree.occurrences.countP (directlyBelow b) :=
    List.countP_congr fun o _ => by rw [countsFor_eq_directlyBelow hbody]
  have hown : tree.occurrences.countP (ownBranch f) =
      tree.occurrences.countP fun o => !b.node.kind.isFunctionBoundary && directlyBelow b o :=
    List.countP_congr fun o ho => by rw [ownBranch_eq hf ho hbody]
  rw [hcounts, hown]
  cases b.node.kind.isFunctionBoundary with
  | false => rfl
  | true => simp

end CodeSurvey.Complexity

namespace CodeSurvey.ComplexityReport

open Ecma Complexity

variable {path language : String} {asked : Option String} {code : List Char} {tree : Node}

end CodeSurvey.ComplexityReport
