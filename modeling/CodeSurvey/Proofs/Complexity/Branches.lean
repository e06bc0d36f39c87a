import CodeSurvey.Complexity.Report
import CodeSurvey.Proofs.Complexity.Walk
import CodeSurvey.Proofs.Ecma.Declared
import CodeSurvey.Proofs.Ecma.Grammar.Module

/-!
Which branches of a source count for which of its functions. The walk over the body of a function
starts at the body and goes on from a node to the children that start no function; the functions
that are scored are declared by the nodes outside class declarations.
-/

namespace CodeSurvey.Complexity

open Ecma

/-- None of the nodes starts a function. -/
def noFunction (ns : List Node) : Bool := ns.all (!·.kind.isFunctionBoundary)

/-- A node is at or below another one, and between the two no function starts. -/
def reaches (start o : Occurrence) : Bool :=
  start.place.isPrefixOf o.place && noFunction (o.way.drop (start.place.length + 1))

/-- The node is a branch that counts for the function. -/
def countsFor (f o : Occurrence) : Bool :=
  isBranch o.node.kind && (f.child? .body).any (reaches · o)

/-- The node stands inside a class declaration. -/
def inClass (o : Occurrence) : Bool := o.above.any (·.kind == .classDeclaration)

/-- The functions that are scored, where they stand. -/
def functionsAt (tree : Node) : List (Occurrence × Declared) :=
  (tree.occurrences.filter (!inClass ·)).flatMap (·.declared)

/-! ### Counting -/

section Counting

variable {α β : Type}

/-- What holds of no two members of a list holds of one at most. -/
theorem countP_le_one {p : α → Bool} {l : List α}
    (h : l.Pairwise fun a b => p a = true → p b = true → False) : l.countP p ≤ 1 := by
  induction h with
  | nil => exact Nat.zero_le 1
  | @cons a l ha _ ih =>
    rw [List.countP_cons]
    split
    case isTrue hpa =>
      have hzero : l.countP p = 0 := List.countP_eq_zero.2 fun b hb hpb => ha b hb hpa hpb
      rw [hzero]
    case isFalse => exact ih

theorem countP_eq_sum (p : α → Bool) (l : List α) :
    l.countP p = (l.map fun a => if p a then 1 else 0).sum := by
  induction l with
  | nil => rfl
  | cons a l ih => rw [List.countP_cons, List.map_cons, List.sum_cons, ih, Nat.add_comm]

/-- Counting for each of some things how many others belong to it counts for each of those to how
    many it belongs. -/
theorem sum_countP_comm (r : α → β → Bool) (l : List α) (m : List β) :
    (l.map fun a => m.countP (r a)).sum = (m.map fun b => l.countP (r · b)).sum := by
  simp only [countP_eq_sum]
  exact Multiset.sum_map_sum_map (l : Multiset α) (m : Multiset β)

end Counting

/-! ### Walks over bodies -/

mutual

/-- The branches of a tree are those that the walk over it reaches. -/
theorem branches_eq_countP : ∀ n : Node, branches n =
    n.occurrences.countP fun o => isBranch o.node.kind && noFunction o.way.tail
  | ⟨kind, role, line, text, children⟩ => by
    rw [branches, Node.occurrences, List.countP_cons, Nat.add_comm,
      branchesBelow_eq_countP ⟨kind, role, line, text, children⟩ 0 children]
    simp [Occurrence.root, Occurrence.way, noFunction]

theorem branchesBelow_eq_countP (parent : Node) : ∀ (i : Nat) (cs : List Node), branchesBelow cs =
    (occurrencesBelow parent i cs).countP fun o => isBranch o.node.kind && noFunction o.way.tail
  | _, [] => by rw [branchesBelow, occurrencesBelow, List.countP_nil]
  | i, c :: more => by
    rw [branchesBelow, occurrencesBelow, List.countP_append, List.countP_map,
      branchesBelow_eq_countP parent (i + 1) more]
    congr 1
    have hway : ∀ o ∈ c.occurrences, (noFunction (o.under parent i).way.tail) =
        (!c.kind.isFunctionBoundary && noFunction o.way.tail) := by
      intro o ho
      rw [Occurrence.way_under, List.tail_cons, Occurrence.way_eq_cons ho, List.tail_cons]
      rfl
    split
    case isTrue hboundary =>
      symm
      rw [List.countP_eq_zero]
      intro o ho
      simp [hway o ho, hboundary]
    case isFalse hboundary =>
      rw [branches_eq_countP c]
      refine List.countP_congr fun o ho => ?_
      rw [Function.comp_apply, Occurrence.node_under, hway o ho]
      simp [hboundary]

end

variable {tree : Node} {o f g : Occurrence} {d : Declared}

/-- The branches at or below a node are those of the whole tree that the walk reaches from there. -/
theorem branches_eq_countP_reaches (ho : o ∈ tree.occurrences) : branches o.node =
    tree.occurrences.countP fun x => isBranch x.node.kind && reaches o x := by
  have hfilter : tree.occurrences.countP (fun x => isBranch x.node.kind && reaches o x) =
      (tree.occurrences.filter (o.place.isPrefixOf ·.place)).countP
        fun x => isBranch x.node.kind && noFunction (x.way.drop (o.place.length + 1)) := by
    rw [List.countP_filter]
    refine List.countP_congr fun x _ => ?_
    simp only [reaches, Bool.and_eq_true]
    tauto
  rw [hfilter, filter_occurrences ho, List.countP_map, branches_eq_countP]
  refine List.countP_congr fun inner hinner => ?_
  have hdrop : (o.join inner).way.drop (o.place.length + 1) = inner.way.tail := by
    rw [Occurrence.way_join, ← Occurrence.length_above ho, List.drop_append, List.drop_eq_nil_of_le,
      List.nil_append, Nat.add_sub_cancel_left, List.drop_one]
    exact Nat.le_succ _
  rw [Function.comp_apply, hdrop]
  rfl

/-! ### Functions that are scored -/

theorem inClass_under (n : Node) (i : Nat) (o : Occurrence) :
    inClass (o.under n i) = (n.kind == .classDeclaration || inClass o) := rfl

mutual

theorem functionsIn_eq_flatMap : ∀ n : Node, functionsIn n =
    (n.occurrences.filter (!inClass ·)).flatMap (·.node.declared)
  | ⟨kind, role, line, text, children⟩ => by
    rw [functionsIn, Node.occurrences, List.filter_cons_of_pos rfl, List.flatMap_cons]
    congr 1
    split
    case isTrue hclass =>
      rw [List.filter_eq_nil_iff.2, List.flatMap_nil]
      intro o ho
      obtain ⟨i, c, inner, _, _, rfl⟩ := mem_occurrencesBelow.1 ho
      rw [inClass_under, hclass]
      exact Bool.false_ne_true
    case isFalse hclass =>
      exact functionsInAll_eq_flatMap _ (Bool.eq_false_of_not_eq_true hclass) 0 children

theorem functionsInAll_eq_flatMap (parent : Node)
    (hparent : (parent.kind == .classDeclaration) = false) :
    ∀ (i : Nat) (cs : List Node), functionsInAll cs =
      ((occurrencesBelow parent i cs).filter (!inClass ·)).flatMap (·.node.declared)
  | _, [] => by
    rw [functionsInAll, occurrencesBelow]
    rfl
  | i, c :: more => by
    rw [functionsInAll, occurrencesBelow, List.filter_append, List.flatMap_append,
      functionsInAll_eq_flatMap parent hparent (i + 1) more, functionsIn_eq_flatMap c]
    congr 1
    rw [List.filter_map, List.flatMap_map]
    congr 2
    funext o
    rw [Function.comp_apply, inClass_under, hparent, Bool.false_or]

end

/-- The functions that are scored are those that are listed. -/
theorem map_snd_functionsAt (tree : Node) : (functionsAt tree).map (·.2) = functionsIn tree := by
  rw [functionsAt, List.map_flatMap, functionsIn_eq_flatMap]
  congr 1
  funext o
  exact Occurrence.map_snd_declared o

theorem mem_functionsAt (h : (f, d) ∈ functionsAt tree) :
    ∃ o ∈ tree.occurrences, inClass o = false ∧ o.Declares f d := by
  obtain ⟨o, ho, hd⟩ := List.mem_flatMap.1 h
  obtain ⟨hmem, hclass⟩ := List.mem_filter.1 ho
  rw [Bool.not_eq_true'] at hclass
  exact ⟨o, hmem, hclass, Occurrence.declares_of_mem hd⟩

theorem mem_occurrences_of_mem_functionsAt {f : Occurrence × Declared} (h : f ∈ functionsAt tree) :
    f.1 ∈ tree.occurrences ∧ f.1.node = f.2.function := by
  obtain ⟨o, ho, _, hdeclares⟩ := mem_functionsAt h
  exact ⟨hdeclares.mem_occurrences ho, hdeclares.function_eq.symm⟩

/-- No two functions that are scored stand at one place. -/
theorem pairwise_functionsAt (tree : Node) :
    (functionsAt tree).Pairwise (·.1.place ≠ ·.1.place) := by
  rw [functionsAt, List.pairwise_flatMap]
  refine ⟨fun o _ => Occurrence.pairwise_declared o, ?_⟩
  refine ((List.pairwise_map.1 (nodup_places_occurrences tree)).filter _).imp_of_mem ?_
  rintro o o' ho ho' hne ⟨f, d⟩ hf ⟨f', d'⟩ hf' heq
  have hdeclares := Occurrence.declares_of_mem hf
  have hdeclares' := Occurrence.declares_of_mem hf'
  have hsame : f = f' := Occurrence.eq_of_place_eq
    (hdeclares.mem_occurrences (List.mem_of_mem_filter ho))
    (hdeclares'.mem_occurrences (List.mem_of_mem_filter ho')) heq
  subst hsame
  exact hne (hdeclares.place_eq.trans hdeclares'.place_eq.symm)

/-! ### One function for each branch -/

section Once

variable {x y : Occurrence} {d' : Declared}

/-- Where a branch counts for a function, it stands below the body of the function, and no other
    function starts between the body and the branch. -/
theorem exists_body_of_countsFor (h : countsFor f o = true) :
    ∃ b, f.child? .body = some b ∧ b.place <+: o.place ∧
      noFunction (o.way.drop (b.place.length + 1)) = true := by
  obtain ⟨_, hbody⟩ := Bool.and_eq_true_iff.1 h
  obtain ⟨b, hb, hreaches⟩ := (Option.any_eq_true ..).1 hbody
  obtain ⟨hplace, hway⟩ := Bool.and_eq_true_iff.1 hreaches
  exact ⟨b, hb, List.isPrefixOf_iff_prefix.1 hplace, hway⟩

theorem prefix_of_countsFor (h : countsFor f o = true) : f.place <+: o.place := by
  obtain ⟨b, hb, hplace, _⟩ := exists_body_of_countsFor h
  obtain ⟨i, hi, _⟩ := Occurrence.place_of_mem_children (Occurrence.mem_children_of_child? hb)
  exact (hi ▸ List.prefix_append ..).trans hplace

/-- Of two declared functions for which a branch counts, the inner one would start between the body
    of the outer one and the branch, or be that body, which is declared nowhere. -/
theorem place_eq_of_countsFor_of_le (htree : tree.WellFormed) (hx : x ∈ tree.occurrences)
    (hy : y ∈ tree.occurrences) (ho : o ∈ tree.occurrences) (hf : x.Declares f d)
    (hg : y.Declares g d') (hcountsf : countsFor f o = true) (hcountsg : countsFor g o = true)
    (hle : f.place.length ≤ g.place.length) : f.place = g.place := by
  by_contra hne
  have hfmem := hf.mem_occurrences hx
  have hgmem := hg.mem_occurrences hy
  obtain ⟨b, hb, hbo, hway⟩ := exists_body_of_countsFor hcountsf
  have hgo := prefix_of_countsFor hcountsg
  have hfg := List.prefix_of_prefix_length_le (prefix_of_countsFor hcountsf) hgo hle
  have hlt : f.place.length < g.place.length :=
    Nat.lt_of_le_of_ne hle fun hlength => hne (hfg.eq_of_length hlength)
  have hbmem := Occurrence.mem_children_of_child? hb
  obtain ⟨i, hi, _⟩ := Occurrence.place_of_mem_children hbmem
  have hbody : b.place.length = f.place.length + 1 := by
    rw [hi, List.length_append, List.length_singleton]
  have hbg : b.place <+: g.place := List.prefix_of_prefix_length_le hbo hgo (hbody ▸ hlt)
  rcases Nat.lt_or_eq_of_le hbg.length_le with hdeep | hsame
  · have hnode : g.node ∈ o.way.drop (b.place.length + 1) := by
      refine List.mem_of_getElem? (i := g.place.length - (b.place.length + 1)) ?_
      rw [List.getElem?_drop, Nat.add_sub_cancel' hdeep]
      exact Occurrence.getElem?_way hgmem ho hgo
    have hstarts := List.all_eq_true.1 hway g.node hnode
    rw [hg.isFunctionBoundary] at hstarts
    cases hstarts
  · obtain rfl : b = g := Occurrence.eq_of_place_eq
      (Occurrence.mem_occurrences_of_mem_children hfmem hbmem) hgmem (hbg.eq_of_length hsame)
    obtain ⟨b', hb', hdeclared⟩ := Occurrence.exists_body
      (Occurrence.wellFormed hfmem htree) hf.isFunctionBoundary
    obtain rfl := Option.some.inj (hb.symm.trans hb')
    rw [hg.isDeclaredFunction_of_role (Occurrence.role_eq_of_child? hb)] at hdeclared
    cases hdeclared

/-- A branch counts for one declared function at most. -/
theorem place_eq_of_countsFor (htree : tree.WellFormed) (hx : x ∈ tree.occurrences)
    (hy : y ∈ tree.occurrences) (ho : o ∈ tree.occurrences) (hf : x.Declares f d)
    (hg : y.Declares g d') (hcountsf : countsFor f o = true) (hcountsg : countsFor g o = true) :
    f.place = g.place := by
  rcases Nat.le_total f.place.length g.place.length with hle | hle
  · exact place_eq_of_countsFor_of_le htree hx hy ho hf hg hcountsf hcountsg hle
  · exact (place_eq_of_countsFor_of_le htree hy hx ho hg hf hcountsg hcountsf hle).symm

end Once

theorem countP_countsFor_le_one (htree : tree.WellFormed) (ho : o ∈ tree.occurrences) :
    (functionsAt tree).countP (fun f => countsFor f.1 o) ≤ 1 := by
  refine countP_le_one ((pairwise_functionsAt tree).imp_of_mem ?_)
  rintro ⟨f, d⟩ ⟨g, d'⟩ hf hg hne hcountsf hcountsg
  obtain ⟨x, hx, _, hdeclares⟩ := mem_functionsAt hf
  obtain ⟨y, hy, _, hdeclares'⟩ := mem_functionsAt hg
  exact hne (place_eq_of_countsFor htree hx hy ho hdeclares hdeclares' hcountsf hcountsg)

/-- The scores of the functions count the branches below each. -/
theorem map_complexity_scores (htree : tree.WellFormed) :
    (scores tree).map (fun s => (s.name, s.line, s.complexity)) =
      (functionsAt tree).map fun f =>
        (f.2.name, f.2.line, 1 + tree.occurrences.countP (countsFor f.1)) := by
  rw [scores, ← map_snd_functionsAt, List.filterMap_map, List.map_filterMap,
    ← List.filterMap_eq_map]
  refine List.filterMap_congr ?_
  rintro ⟨f, d⟩ hmem
  obtain ⟨o, ho, _, hdeclares⟩ := mem_functionsAt hmem
  have hf := hdeclares.mem_occurrences ho
  obtain ⟨b, hb, _⟩ := Occurrence.exists_body (Occurrence.wellFormed hf htree)
    hdeclares.isFunctionBoundary
  have hbody : d.function.child? .body = some b.node := by
    rw [hdeclares.function_eq, Occurrence.node_child?_eq hb]
  have hcounts : branches b.node = tree.occurrences.countP (countsFor f) := by
    rw [branches_eq_countP_reaches
      (Occurrence.mem_occurrences_of_mem_children hf (Occurrence.mem_children_of_child? hb))]
    refine List.countP_congr fun x _ => ?_
    rw [countsFor, hb]
    rfl
  simp only [Function.comp_apply, hbody, Option.map_some, score_eq, hcounts]

/-- The functions have no more branches together than the tree. -/
theorem sum_countP_countsFor_le (htree : tree.WellFormed) :
    ((functionsAt tree).map fun f => tree.occurrences.countP (countsFor f.1)).sum ≤
      tree.occurrences.countP (isBranch ·.node.kind) := by
  rw [sum_countP_comm (fun f : Occurrence × Declared => countsFor f.1), countP_eq_sum]
  refine List.sum_le_sum fun o ho => ?_
  split
  case isTrue => exact countP_countsFor_le_one htree ho
  case isFalse hbranch =>
    refine Nat.le_of_eq (List.countP_eq_zero.2 fun f _ hcounts => hbranch ?_)
    exact (Bool.and_eq_true_iff.1 hcounts).1

end CodeSurvey.Complexity

namespace CodeSurvey.ComplexityReport

open Ecma Complexity

variable {path language : String} {asked : Option String} {code : List Char} {tree : Node}

/-- A source with a tree is reported by the scores of its functions. -/
theorem of_eq_scores (hlanguage : Language.choose? asked path = some language)
    (hgrammar : Language.hasGrammar language = true)
    (htree : treeOf? path language code = some tree) :
    ComplexityReport.of path asked (some code) =
      { file := path
        total := ((scores tree).map (·.complexity)).sum
        functions := scores tree } := by
  simp only [ComplexityReport.of, hlanguage, ofCode, hgrammar, if_true, htree]
  rfl

end CodeSurvey.ComplexityReport
