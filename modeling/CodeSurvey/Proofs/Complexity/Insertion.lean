import CodeSurvey.Proofs.Complexity.Branches
import Mathlib.Order.Bounds.Basic

/-!
What the score of a body is in terms of the nodes that can be reached from it by steps to a child
that starts no function. Main statement: the complexity is one more than the branches among these
nodes, the nesting is the most nesting nodes on a way to one of them, and a new child below one of
them raises the complexity by the branches reached in it and the nesting to at most what it makes
there, or changes nothing if it starts a function.
-/

namespace CodeSurvey.Ecma

variable {n new : Node} {i j : Nat} {place : List Nat}

/-- The tree with a new child of the node at a place, in front of its child with this index. -/
def Node.insertAt (new : Node) (i : Nat) : List Nat → Node → Node
  | [], n => { n with children := n.children.insertIdx i new }
  | j :: place, n => { n with children := n.children.modify j (Node.insertAt new i place) }

/-- The node at the top stays what it is. -/
theorem Node.kind_insertAt (new : Node) (i : Nat) (place : List Nat) (n : Node) :
    (Node.insertAt new i place n).kind = n.kind := by
  cases place <;> rfl

end CodeSurvey.Ecma

namespace CodeSurvey.Complexity

open Ecma

variable {n body new : Node} {o x : Occurrence} {cs : List Node} {i j k : Nat}

/-! ### Nodes that are reached -/

/-- The node is reached from the top of the tree by steps to a child that starts no function. -/
inductive Reached (body : Node) : Occurrence → Prop where
  | body : Reached body (.root body)
  | child {o c : Occurrence} (before : Reached body o) (child : c ∈ o.children)
      (goesOn : c.node.kind.isFunctionBoundary = false) : Reached body c

/-- The nodes that are reached from the top of a tree, where they stand. -/
def reached (body : Node) : List Occurrence :=
  body.occurrences.filter fun o => noFunction o.way.tail

/-- The number of nesting nodes on the way to a node, itself included. -/
def depth (o : Occurrence) : Nat := o.way.countP (isNesting ·.kind)

theorem depth_root (n : Node) : depth (.root n) = if isNesting n.kind then 1 else 0 := by
  rw [depth, Occurrence.root, Occurrence.way, List.nil_append, List.countP_singleton]

theorem depth_under (n : Node) (i : Nat) (o : Occurrence) :
    depth (o.under n i) = (if isNesting n.kind then 1 else 0) + depth o := by
  rw [depth, Occurrence.way_under, List.countP_cons, Nat.add_comm, depth]

theorem noFunction_under (ho : o ∈ n.occurrences) (parent : Node) (i : Nat) :
    noFunction (o.under parent i).way.tail =
      (!n.kind.isFunctionBoundary && noFunction o.way.tail) := by
  rw [Occurrence.way_under, List.tail_cons, Occurrence.way_eq_cons ho, List.tail_cons]
  rfl

theorem Reached.under {c : Node} (hc : n.children[i]? = some c)
    (hkind : c.kind.isFunctionBoundary = false) (h : Reached c o) : Reached n (o.under n i) := by
  induction h with
  | body =>
    refine .child .body (Occurrence.mem_children.2 ⟨i, c, hc, rfl⟩) hkind
  | child _ hchild hgoesOn ih =>
    obtain ⟨j, c', hc', rfl⟩ := Occurrence.mem_children.1 hchild
    exact .child ih (Occurrence.mem_children.2 ⟨j, c', hc', rfl⟩) hgoesOn

theorem mem_reached_iff : o ∈ reached body ↔ Reached body o := by
  rw [reached, List.mem_filter]
  constructor
  · rintro ⟨ho, hway⟩
    induction ho using Node.occurrences_induction with
    | root n => exact .body
    | under hc ho ih =>
      rw [noFunction_under ho, Bool.and_eq_true, Bool.not_eq_true'] at hway
      exact .under hc hway.1 (ih hway.2)
  · intro h
    induction h with
    | body => exact ⟨root_mem_occurrences body, rfl⟩
    | @child o c _ hchild hgoesOn ih =>
      refine ⟨Occurrence.mem_occurrences_of_mem_children ih.1 hchild, ?_⟩
      obtain ⟨j, c', _, rfl⟩ := Occurrence.mem_children.1 hchild
      have hway : (o.way ++ [c']).tail = o.way.tail ++ [c'] :=
        List.tail_append_of_ne_nil (List.append_ne_nil_of_right_ne_nil _ (List.cons_ne_nil _ _))
      rw [Occurrence.way, hway, noFunction, List.all_append]
      exact Bool.and_eq_true_iff.2 ⟨ih.2, by simpa using hgoesOn⟩

/-- What holds of the top of every tree, and of a node under a child that starts no function if it
    holds of it in the tree of the child, holds of every node that is reached. -/
@[elab_as_elim]
theorem Reached.induction_from_top
    {motive : (n : Node) → (o : Occurrence) → Reached n o → Prop}
    (root : ∀ n, motive n (.root n) .body)
    (under : ∀ {n : Node} {i : Nat} {c : Node} {o : Occurrence} (hc : n.children[i]? = some c)
      (hkind : c.kind.isFunctionBoundary = false) (h : Reached c o), motive c o h →
        motive n (o.under n i) (.under hc hkind h))
    {n : Node} {o : Occurrence} (h : Reached n o) : motive n o h := by
  obtain ⟨ho, hway⟩ := List.mem_filter.1 (mem_reached_iff.2 h)
  induction ho using Node.occurrences_induction with
  | root n => exact root n
  | under hc ho ih =>
    rw [noFunction_under ho, Bool.and_eq_true, Bool.not_eq_true'] at hway
    have hinner := mem_reached_iff.1 (List.mem_filter.2 ⟨ho, hway.2⟩)
    exact under hc hway.1 hinner (ih hinner hway.2)

/-- The walk counts the branches among the nodes that are reached. -/
theorem branches_eq_countP_reached (body : Node) :
    branches body = (reached body).countP (isBranch ·.node.kind) := by
  rw [branches_eq_countP, reached, List.countP_filter]

/-! ### The deepest way -/

theorem nesting_le_nestingBelow {c : Node} (hc : c ∈ cs)
    (hkind : c.kind.isFunctionBoundary = false) : nesting c ≤ nestingBelow cs :=
  nestingBelow_le_iff.1 (Nat.le_refl _) c (List.mem_filter.2 ⟨hc, by rw [hkind]; rfl⟩)

/-- The nesting below the nodes is that of one of them, or there is none to go to. -/
theorem nestingBelow_eq (cs : List Node) : nestingBelow cs = 0 ∨
    ∃ c ∈ cs, c.kind.isFunctionBoundary = false ∧ nestingBelow cs = nesting c := by
  induction cs with
  | nil => exact .inl rfl
  | cons c more ih =>
    rw [nestingBelow]
    cases hkind : c.kind.isFunctionBoundary with
    | true => simpa [hkind] using ih
    | false =>
      rcases Nat.le_total (nestingBelow more) (nesting c) with hle | hle
      · exact .inr ⟨c, List.mem_cons_self, hkind, by simp [hle]⟩
      · rcases ih with hzero | ⟨c', hc', hkind', hsame⟩
        · exact .inr ⟨c, List.mem_cons_self, hkind, by simp [hzero]⟩
        · exact .inr ⟨c', List.mem_cons_of_mem _ hc', hkind', by simpa [hsame] using hle⟩

theorem depth_le_nesting (h : Reached body o) : depth o ≤ nesting body := by
  induction h using Reached.induction_from_top with
  | root n =>
    rw [depth_root, nesting_mk]
    exact Nat.le_add_right ..
  | under hc hkind _ ih =>
    have hbelow := nesting_le_nestingBelow (List.mem_of_getElem? hc) hkind
    rw [depth_under, nesting_mk]
    exact Nat.add_le_add_left (ih.trans hbelow) _

theorem exists_depth_eq_nesting (n : Node) : ∃ o, Reached n o ∧ depth o = nesting n := by
  rcases nestingBelow_eq n.children with hzero | ⟨c, hc, hkind, hsame⟩
  · exact ⟨.root n, .body, by rw [depth_root, nesting_mk, hzero, Nat.add_zero]⟩
  · obtain ⟨o, ho, hdepth⟩ := exists_depth_eq_nesting c
    obtain ⟨j, hj⟩ := List.mem_iff_getElem?.1 hc
    exact ⟨o.under n j, ho.under hj hkind, by rw [depth_under, nesting_mk, hsame, hdepth]⟩
termination_by sizeOf n
decreasing_by
  have hlt := List.sizeOf_lt_of_mem hc
  cases n
  rw [Node.mk.sizeOf_spec]
  exact Nat.lt_of_lt_of_le hlt (Nat.le_add_left ..)

theorem isGreatest_nesting (body : Node) :
    IsGreatest {k | ∃ o, Reached body o ∧ depth o = k} (nesting body) := by
  refine ⟨exists_depth_eq_nesting body, ?_⟩
  rintro k ⟨o, ho, rfl⟩
  exact depth_le_nesting ho

/-! ### A new child -/

theorem branchesBelow_insertIdx (new : Node) (hi : i ≤ cs.length) :
    branchesBelow (cs.insertIdx i new) =
      branchesBelow cs + if new.kind.isFunctionBoundary then 0 else branches new := by
  induction cs generalizing i with
  | nil =>
    obtain rfl := Nat.le_zero.1 hi
    exact Nat.add_comm ..
  | cons c more ih =>
    cases i with
    | zero => rw [List.insertIdx_zero, branchesBelow, Nat.add_comm]
    | succ i =>
      rw [List.insertIdx_succ_cons, branchesBelow, branchesBelow,
        ih (Nat.le_of_succ_le_succ hi), Nat.add_assoc]

theorem nestingBelow_insertIdx (new : Node) (hi : i ≤ cs.length) :
    nestingBelow (cs.insertIdx i new) =
      max (nestingBelow cs) (if new.kind.isFunctionBoundary then 0 else nesting new) := by
  induction cs generalizing i with
  | nil =>
    obtain rfl := Nat.le_zero.1 hi
    exact Nat.max_comm ..
  | cons c more ih =>
    cases i with
    | zero => rw [List.insertIdx_zero, nestingBelow, Nat.max_comm]
    | succ i =>
      rw [List.insertIdx_succ_cons, nestingBelow, nestingBelow,
        ih (Nat.le_of_succ_le_succ hi), Nat.max_assoc]

theorem branchesBelow_modify {f : Node → Node} {c : Node} (hc : cs[j]? = some c)
    (hkind : c.kind.isFunctionBoundary = false) (hf : (f c).kind = c.kind)
    (hbranches : branches (f c) = branches c + k) :
    branchesBelow (cs.modify j f) = branchesBelow cs + k := by
  induction cs generalizing j with
  | nil => cases hc
  | cons d more ih =>
    cases j with
    | zero =>
      obtain rfl := Option.some.inj hc
      simp only [List.modify_zero_cons, branchesBelow, hf, hkind, hbranches]
      exact Nat.add_right_comm ..
    | succ j =>
      rw [List.modify_succ_cons, branchesBelow, branchesBelow, ih hc, Nat.add_assoc]

theorem nestingBelow_modify {f : Node → Node} {c : Node} (hc : cs[j]? = some c)
    (hkind : c.kind.isFunctionBoundary = false) (hf : (f c).kind = c.kind)
    (hnesting : nesting (f c) = max (nesting c) k) :
    nestingBelow (cs.modify j f) = max (nestingBelow cs) k := by
  induction cs generalizing j with
  | nil => cases hc
  | cons d more ih =>
    cases j with
    | zero =>
      obtain rfl := Option.some.inj hc
      simp only [List.modify_zero_cons, nestingBelow, hf, hkind, hnesting]
      exact Nat.max_right_comm ..
    | succ j =>
      rw [List.modify_succ_cons, nestingBelow, nestingBelow, ih hc, Nat.max_assoc]

/-- A new child that starts no function adds the branches reached in it. -/
theorem branches_insertAt (h : Reached body o) (hi : i ≤ o.node.children.length) (new : Node) :
    branches (Node.insertAt new i o.place body) =
      branches body + if new.kind.isFunctionBoundary then 0 else branches new := by
  induction h using Reached.induction_from_top with
  | root n =>
    have hbelow := branchesBelow_insertIdx new hi
    simp only [Occurrence.root, Node.insertAt, branches_mk] at hbelow ⊢
    rw [hbelow, Nat.add_assoc]
  | @under n j c o hc hkind _ ih =>
    have hbelow := branchesBelow_modify hc hkind (Node.kind_insertAt new i o.place c) (ih hi)
    rw [Occurrence.under, Node.insertAt, branches_mk, branches_mk n, hbelow, Nat.add_assoc]

/-- A new child makes the nesting at least what it is on the ways through the new child. -/
theorem nesting_insertAt (h : Reached body o) (hi : i ≤ o.node.children.length) (new : Node) :
    nesting (Node.insertAt new i o.place body) = max (nesting body)
      (depth o + if new.kind.isFunctionBoundary then 0 else nesting new) := by
  induction h using Reached.induction_from_top with
  | root n =>
    have hbelow := nestingBelow_insertIdx new hi
    rw [depth_root]
    simp only [Occurrence.root, Node.insertAt, nesting_mk] at hbelow ⊢
    rw [hbelow, Nat.add_max_add_left]
  | @under n j c o hc hkind _ ih =>
    have hbelow := nestingBelow_modify hc hkind (Node.kind_insertAt new i o.place c) (ih hi)
    rw [depth_under, Nat.add_assoc, Occurrence.under, Node.insertAt, nesting_mk, nesting_mk n,
      hbelow, Nat.add_max_add_left]

theorem nodup_places_reached (body : Node) : ((reached body).map (·.place)).Nodup :=
  (nodup_places_occurrences body).sublist (List.filter_sublist.map _)

/-- A branch with no other one reached below it is one branch. -/
theorem branches_eq_one (hkind : isBranch new.kind = true)
    (hno : ∀ x, Reached new x → isBranch x.node.kind = true → x = .root new) :
    branches new = 1 := by
  rw [branches_eq_countP_reached]
  refine Nat.le_antisymm (countP_le_one ?_)
    (List.countP_pos_iff.2 ⟨.root new, mem_reached_iff.2 .body, hkind⟩)
  refine (List.pairwise_map.1 (nodup_places_reached new)).imp_of_mem fun hx hy hne hbx hby => ?_
  exact hne (by rw [hno _ (mem_reached_iff.1 hx) hbx, hno _ (mem_reached_iff.1 hy) hby])

/-- The score of a body is what its reached nodes make it, and so it grows by what is reached in a
    new child below one of them. -/
theorem score_of_reached (name : String) (line : Nat) (body : Node) :
    let found := score name line body
    (∀ o, o ∈ reached body ↔ Reached body o) ∧ ((reached body).map (·.place)).Nodup ∧
      found.complexity = 1 + (reached body).countP (isBranch ·.node.kind) ∧
      IsGreatest {k | ∃ o, Reached body o ∧ depth o = k} found.nesting ∧
      ∀ o i new, Reached body o → i ≤ o.node.children.length →
        let after := score name line (Node.insertAt new i o.place body)
        (new.kind.isFunctionBoundary = true → after = found) ∧
          (new.kind.isFunctionBoundary = false →
            after.complexity = found.complexity + (reached new).countP (isBranch ·.node.kind) ∧
              after.nesting = max found.nesting (depth o + (score name line new).nesting)) ∧
          (new.kind = .ifStatement →
            (∀ x, Reached new x → isBranch x.node.kind = true → x = .root new) →
            after.complexity = found.complexity + 1) := by
  intro found
  have hfound : found = ⟨name, line, 1 + branches body, nesting body⟩ := score_eq name line body
  refine ⟨fun o => mem_reached_iff, nodup_places_reached body, ?_, ?_, ?_⟩
  · rw [hfound, ← branches_eq_countP_reached]
  · rw [hfound]
    exact isGreatest_nesting body
  · intro o i new ho hi after
    have hafter : after = ⟨name, line, 1 + branches (Node.insertAt new i o.place body),
      nesting (Node.insertAt new i o.place body)⟩ := score_eq ..
    rw [branches_insertAt ho hi, nesting_insertAt ho hi, ← Nat.add_assoc] at hafter
    refine ⟨fun hkind => ?_, fun hkind => ⟨?_, ?_⟩, fun hif hno => ?_⟩
    · rw [hafter, hfound, hkind]
      simp [depth_le_nesting ho]
    · rw [hafter, hfound, hkind, ← branches_eq_countP_reached]
      simp
    · rw [hafter, hfound, hkind, score_eq]
      simp
    · rw [hafter, hfound, hif, branches_eq_one (by rw [hif]; rfl) hno]
      rfl

/-- The body `{ while (x) { } y => y && x; }`: of its two branches one is reached, the `while` that
    one `if` more is put into. -/
theorem score_of_reached_loop :
    let loop : Node := { kind := .whileStatement, line := 2, children :=
      [{ kind := .identifier, line := 2, text := "x" },
        { kind := .block, role := .body, line := 2 }] }
    let arrow : Node := { kind := .arrowFunction false, line := 3, children :=
      [{ kind := .identifier, role := .parameter, line := 3, text := "y" },
        { kind := .binary "&&", role := .body, line := 3 }] }
    let body : Node := { kind := .block, role := .body, line := 1, children := [loop, arrow] }
    let choice : Node := { kind := .ifStatement, line := 2, children :=
      [{ kind := .identifier, line := 2, text := "y" }, { kind := .emptyStatement, line := 2 }] }
    let inside : Occurrence := ⟨[0, 1], [body, loop], { kind := .block, role := .body, line := 2 }⟩
    Reached body inside ∧ body.occurrences.countP (isBranch ·.node.kind) = 2 ∧
      score "f" 1 body = ⟨"f", 1, 2, 1⟩ ∧
      score "f" 1 (Node.insertAt choice 0 inside.place body) = ⟨"f", 1, 3, 2⟩ ∧
      score "f" 1 (Node.insertAt arrow 0 inside.place body) = score "f" 1 body := by
  intro loop arrow body choice inside
  have hloop : Reached body ⟨[0], [body], loop⟩ :=
    .child .body (Occurrence.mem_children.2 ⟨0, loop, rfl, rfl⟩) rfl
  have hinside : Reached body inside :=
    .child hloop (Occurrence.mem_children.2 ⟨1, inside.node, rfl, rfl⟩) rfl
  have hbody : score "f" 1 body = ⟨"f", 1, 2, 1⟩ := by decide +kernel
  have hdepth : depth inside = 1 := by decide +kernel
  have hchoice : score "f" 1 choice = ⟨"f", 1, 2, 1⟩ := by decide +kernel
  have hcount : (reached choice).countP (isBranch ·.node.kind) = 1 := by decide +kernel
  have hall := (score_of_reached "f" 1 body).2.2.2.2 inside 0
  obtain ⟨hcomplexity, hnesting⟩ := (hall choice hinside (Nat.zero_le _)).2.1 rfl
  refine ⟨hinside, by decide +kernel, hbody, ?_, (hall arrow hinside (Nat.zero_le _)).1 rfl⟩
  rw [hbody, hcount] at hcomplexity
  rw [hbody, hdepth, hchoice] at hnesting
  rw [score_eq] at hcomplexity hnesting ⊢
  exact congrArg₂ (FunctionScore.mk "f" 1) hcomplexity hnesting

end CodeSurvey.Complexity
