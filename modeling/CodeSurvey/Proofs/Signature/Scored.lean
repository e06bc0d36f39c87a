import CodeSurvey.Proofs.Complexity.Branches
import CodeSurvey.Signature.Report

/-!
Which signatures have a score. Signatures and scores are read off one tree by two walks: the walk
for signatures goes everywhere, the walk for scores stops at class declarations. With each signature
comes the place of what it is about, a class declaration or a function. The functions with a score
are those that stand in no class declaration, or are members of the only one they stand in.
-/

namespace CodeSurvey.Signature

open Ecma Complexity

/-- The signatures that a node itself gives rise to, with the places of what they are about. -/
def entriesOf (o : Occurrence) : List (Occurrence × Signature) :=
  (ofClass? o.node).toList.map (fun s => (o, s)) ++ o.declared.map fun f => (f.1, ofDeclared f.2)

/-- The signatures of a tree with the places of what they are about. -/
def entries (tree : Node) : List (Occurrence × Signature) := tree.occurrences.flatMap entriesOf

/-- The number of class declarations that a node stands in. -/
def classesAround (o : Occurrence) : Nat := o.above.countP (·.kind == .classDeclaration)

/-- The signature is about a function that stands in no class declaration except, if it is a member
    of one, its own. -/
def isScored (e : Occurrence × Signature) : Bool :=
  e.2.kind != .classDef && classesAround e.1 == if e.2.kind = .method then 1 else 0

/-! ### The walk for signatures -/

mutual

theorem ofTree_eq_flatMap : ∀ n : Node, ofTree n = n.occurrences.flatMap (ofNode ·.node)
  | ⟨kind, role, line, text, children⟩ => by
    rw [ofTree, Node.occurrences, List.flatMap_cons, ofForest_eq_flatMap _ 0 children]
    rfl

theorem ofForest_eq_flatMap (parent : Node) : ∀ (i : Nat) (cs : List Node),
    ofForest cs = (occurrencesBelow parent i cs).flatMap (ofNode ·.node)
  | _, [] => by
    rw [ofForest, occurrencesBelow]
    rfl
  | i, c :: more => by
    rw [ofForest, occurrencesBelow, List.flatMap_append, List.flatMap_map, ofTree_eq_flatMap c,
      ofForest_eq_flatMap parent (i + 1) more]
    rfl

end

variable {tree n : Node} {o f : Occurrence} {d : Declared} {s : Signature}

/-- A class declaration itself gives rise to a class, on its own line. -/
theorem of_mem_ofClass? (h : s ∈ (ofClass? n).toList) :
    n.kind = .classDeclaration ∧ s.kind = .classDef ∧ s.line = n.line := by
  rw [Option.mem_toList, ofClass?] at h
  split at h
  case isTrue hclass =>
    obtain ⟨name, _, rfl⟩ := Option.map_eq_some_iff.1 h
    exact ⟨beq_iff_eq.1 hclass, rfl, rfl⟩
  case isFalse => cases h

/-- The entries are the signatures, each with a place. -/
theorem map_snd_entries (tree : Node) : (entries tree).map (·.2) = ofTree tree := by
  rw [entries, List.map_flatMap, ofTree_eq_flatMap]
  congr 1
  funext o
  rw [entriesOf, ofNode, List.map_append, List.map_map, List.map_map, ← o.map_snd_declared,
    List.map_map]
  congr 1
  exact List.map_id _

/-! ### Classes around a function -/

theorem classesAround_eq_zero_iff : classesAround o = 0 ↔ inClass o = false := by
  rw [classesAround, inClass, List.countP_eq_zero, List.any_eq_false]

theorem classesAround_of_mem_children {x : Occurrence} (h : x ∈ o.children) :
    classesAround x = classesAround o + if o.node.kind = .classDeclaration then 1 else 0 := by
  obtain ⟨_, _, habove⟩ := Occurrence.place_of_mem_children h
  rw [classesAround, habove, Occurrence.way, List.countP_append]
  simp [classesAround]

/-- A function stands in the class declarations around the node that declares it, and in that node
    itself if it is a member of it. -/
theorem classesAround_of_declares (h : o.Declares f d) (ho : o.node.WellFormed) :
    classesAround f = classesAround o + if d.kind = .method then 1 else 0 := by
  cases h with
  | function _ _ found => rcases found with found | found <;> simp [found]
  | method kind body member _ _ found =>
    have hbody := Occurrence.kind_of_classBody ho kind body
    rw [classesAround_of_mem_children member,
      classesAround_of_mem_children (Occurrence.mem_children_of_child? body)]
    simp [kind, hbody, found]
  | field kind body member memberKind value _ _ found =>
    have hbody := Occurrence.kind_of_classBody ho kind body
    rw [classesAround_of_mem_children (Occurrence.mem_children_of_child? value),
      classesAround_of_mem_children member,
      classesAround_of_mem_children (Occurrence.mem_children_of_child? body)]
    simp [kind, hbody, memberKind, found]
  | bound kind child holds value _ _ found =>
    have hchild := (Occurrence.kind_ne_of_holds holds).2
    rw [classesAround_of_mem_children (Occurrence.mem_children_of_child? value),
      classesAround_of_mem_children child]
    rcases found with found | found <;> simp [kind, hchild, found]

/-! ### The walk for scores -/

/-- Of the signatures of a node those are scored that are about its functions, if it stands in no
    class declaration. -/
theorem filter_entriesOf (ho : o.node.WellFormed) :
    (entriesOf o).filter isScored =
      if inClass o then [] else o.declared.map fun f => (f.1, ofDeclared f.2) := by
  have hclass : ((ofClass? o.node).toList.map fun s => (o, s)).filter isScored = [] := by
    refine List.filter_eq_nil_iff.2 fun e he => ?_
    obtain ⟨s, hs, rfl⟩ := List.mem_map.1 he
    rw [isScored, (of_mem_ofClass? hs).2.1]
    exact Bool.false_ne_true
  have hfunction : ∀ f ∈ o.declared, isScored (f.1, ofDeclared f.2) = !inClass o := by
    rintro ⟨f, d⟩ hf
    have hdeclares := Occurrence.declares_of_mem hf
    have hkind : d.kind ≠ .classDef := hdeclares.kind_ne
    have hscored : isScored (f, ofDeclared d) = (d.kind != .classDef &&
        classesAround f == if d.kind = .method then 1 else 0) := rfl
    have hnone : (classesAround o == 0) = !inClass o := by
      rw [Bool.eq_iff_iff, beq_iff_eq, Bool.not_eq_true', classesAround_eq_zero_iff]
    rw [hscored, classesAround_of_declares hdeclares ho, ← hnone, bne_iff_ne.2 hkind,
      Bool.true_and, Bool.eq_iff_iff, beq_iff_eq, beq_iff_eq, Nat.add_eq_right]
  rw [entriesOf, List.filter_append, hclass, List.nil_append, List.filter_map]
  cases hin : inClass o with
  | false =>
    rw [List.filter_eq_self.2]
    · rfl
    · intro f hf
      rw [Function.comp_apply, hfunction f hf, hin]
      rfl
  | true =>
    rw [List.filter_eq_nil_iff.2]
    · rfl
    · intro f hf
      rw [Function.comp_apply, hfunction f hf, hin]
      exact Bool.false_ne_true

theorem flatMap_filter {α β : Type} (p : α → Bool) (f : α → List β) (l : List α) :
    (l.filter p).flatMap f = l.flatMap fun a => if p a then f a else [] := by
  induction l with
  | nil => rfl
  | cons a l ih =>
    rw [List.filter_cons, List.flatMap_cons, ← ih]
    split
    · rw [List.flatMap_cons]
    · rw [List.nil_append]

/-- The signatures that are scored are those of the functions with a score. -/
theorem filter_entries (htree : tree.WellFormed) :
    (entries tree).filter isScored =
      (functionsAt tree).map fun f => (f.1, ofDeclared f.2) := by
  rw [entries, functionsAt, List.filter_flatMap, List.map_flatMap, flatMap_filter]
  refine List.flatMap_congr fun o ho => ?_
  rw [filter_entriesOf (Occurrence.wellFormed ho htree)]
  cases inClass o with
  | false => rfl
  | true => rfl

/-- What a signature is about stands in the tree: the class declaration or the function. -/
theorem mem_entries {e : Occurrence × Signature} (h : e ∈ entries tree) :
    e.1 ∈ tree.occurrences ∧
      (if e.2.kind = .classDef then e.1.node.kind = .classDeclaration
        else e.1.node.kind.isFunctionBoundary = true) := by
  obtain ⟨o, ho, he⟩ := List.mem_flatMap.1 h
  rcases List.mem_append.1 he with he | he
  · obtain ⟨s, hs, rfl⟩ := List.mem_map.1 he
    obtain ⟨hclass, hkind, _⟩ := of_mem_ofClass? hs
    rw [if_pos hkind]
    exact ⟨ho, hclass⟩
  · obtain ⟨⟨f, d⟩, hf, rfl⟩ := List.mem_map.1 he
    have hdeclares := Occurrence.declares_of_mem hf
    have hkind : (ofDeclared d).kind ≠ .classDef := hdeclares.kind_ne
    rw [if_neg hkind]
    exact ⟨hdeclares.mem_occurrences ho, hdeclares.isFunctionBoundary⟩

end CodeSurvey.Signature

namespace CodeSurvey.SignatureReport

open Ecma Complexity Signature

variable {path language : String} {asked : Option String} {code : List Char} {tree : Node}

/-- The signatures of a source with a tree are those of the tree. -/
theorem signatures_of (hlanguage : Language.choose? asked path = some language)
    (hgrammar : Language.hasGrammar language = true)
    (htree : treeOf? path language code = some tree) :
    (SignatureReport.of path asked (some code)).signatures = ofTree tree := by
  simp only [SignatureReport.of, hlanguage, ofCode, hgrammar, if_true, ofScript, htree]

end CodeSurvey.SignatureReport
