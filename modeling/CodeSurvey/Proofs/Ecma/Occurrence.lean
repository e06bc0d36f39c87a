import CodeSurvey.Ecma.Tree
import Mathlib.Data.List.Indexes
import Mathlib.Data.List.Nodup

/-!
The nodes of a tree where they stand. Equal nodes may stand at several places of a tree, so what
counts single nodes has to tell them by their place: which child to take at each step from the root
down. The occurrences of a tree are listed as the tree is written, a node before what is below it.

Main statement: the occurrences below a place are those of the tree that stands there.
-/

namespace CodeSurvey.Ecma

/-- A node of a tree where it stands. -/
structure Occurrence where
  /-- Which child it is, from the root on. -/
  place : List Nat
  /-- The nodes above it, from the root on. -/
  above : List Node
  node : Node

namespace Occurrence

/-- The root of a tree. -/
def root (n : Node) : Occurrence := ⟨[], [], n⟩

/-- The occurrence in a larger tree, of which its tree is a child of the root. -/
def under (parent : Node) (i : Nat) (o : Occurrence) : Occurrence :=
  ⟨i :: o.place, parent :: o.above, o.node⟩

/-- An occurrence in the tree of this one, as an occurrence of the tree of both. -/
def join (o inner : Occurrence) : Occurrence :=
  ⟨o.place ++ inner.place, o.above ++ inner.above, inner.node⟩

/-- The nodes from the root down to this one. -/
def way (o : Occurrence) : List Node := o.above ++ [o.node]

/-- The children of the node where they stand. -/
def children (o : Occurrence) : List Occurrence :=
  o.node.children.mapIdx fun i c => ⟨o.place ++ [i], o.way, c⟩

/-- The first child that plays a part, where it stands. -/
def child? (o : Occurrence) (role : Role) : Option Occurrence :=
  o.children.find? (·.node.role == role)

end Occurrence

mutual

/-- The nodes of a tree where they stand. -/
def Node.occurrences : Node → List Occurrence
  | n@⟨_, _, _, _, children⟩ => .root n :: occurrencesBelow n 0 children

/-- The nodes below a node where they stand, of the children with these indices on. -/
def occurrencesBelow (parent : Node) (i : Nat) : List Node → List Occurrence
  | [] => []
  | c :: more => c.occurrences.map (.under parent i) ++ occurrencesBelow parent (i + 1) more

end

theorem occurrences_eq (n : Node) :
    n.occurrences = .root n :: occurrencesBelow n 0 n.children := by
  cases n
  rw [Node.occurrences]

theorem mem_occurrencesBelow {parent : Node} {o : Occurrence} {i : Nat} {cs : List Node} :
    o ∈ occurrencesBelow parent i cs ↔
      ∃ (j : Nat) (c : Node) (inner : Occurrence), cs[j]? = some c ∧ inner ∈ c.occurrences ∧
        o = inner.under parent (i + j) := by
  induction cs generalizing i with
  | nil => simp [occurrencesBelow]
  | cons c more ih =>
    rw [occurrencesBelow, List.mem_append, ih, List.mem_map]
    constructor
    · rintro (⟨inner, hinner, rfl⟩ | ⟨j, c', inner, hc', hinner, rfl⟩)
      · exact ⟨0, c, inner, rfl, hinner, rfl⟩
      · refine ⟨j + 1, c', inner, hc', hinner, ?_⟩
        rw [Nat.add_right_comm, Nat.add_assoc]
    · rintro ⟨j, c', inner, hc', hinner, rfl⟩
      cases j with
      | zero =>
        cases hc'
        exact .inl ⟨inner, hinner, rfl⟩
      | succ j =>
        refine .inr ⟨j, c', inner, hc', hinner, ?_⟩
        rw [Nat.add_right_comm, Nat.add_assoc]

theorem root_mem_occurrences (n : Node) : .root n ∈ n.occurrences := by
  rw [occurrences_eq]
  exact List.mem_cons_self

theorem mem_occurrences_under {n c : Node} {o : Occurrence} {i : Nat} (hc : n.children[i]? = some c)
    (ho : o ∈ c.occurrences) : o.under n i ∈ n.occurrences := by
  rw [occurrences_eq]
  refine List.mem_cons_of_mem _ (mem_occurrencesBelow.2 ⟨i, c, o, hc, ho, ?_⟩)
  rw [Nat.zero_add]

/-- What holds of every root, and of an occurrence below a root if it holds of it in the tree of
    the child, holds of every occurrence. -/
@[elab_as_elim]
theorem Node.occurrences_induction
    {motive : (n : Node) → (o : Occurrence) → o ∈ n.occurrences → Prop}
    (root : ∀ n, motive n (.root n) (root_mem_occurrences n))
    (under : ∀ {n : Node} {i : Nat} {c : Node} {o : Occurrence} (hc : n.children[i]? = some c)
      (ho : o ∈ c.occurrences), motive c o ho →
        motive n (o.under n i) (mem_occurrences_under hc ho)) :
    ∀ {n : Node} {o : Occurrence} (ho : o ∈ n.occurrences), motive n o ho
  | ⟨kind, role, line, text, children⟩, o, ho => by
    rcases List.mem_cons.1 (occurrences_eq _ ▸ ho) with rfl | hbelow
    · exact root _
    · obtain ⟨i, c, inner, hc, hinner, rfl⟩ := mem_occurrencesBelow.1 hbelow
      have : sizeOf c < sizeOf children := List.sizeOf_lt_of_mem (List.mem_of_getElem? hc)
      simp only [Nat.zero_add]
      exact under hc hinner (Node.occurrences_induction root under hinner)

variable {n : Node} {o : Occurrence}

namespace Occurrence

/-! ### Places -/

theorem node_under (n : Node) (i : Nat) (o : Occurrence) : (o.under n i).node = o.node := rfl

theorem way_under (n : Node) (i : Nat) (o : Occurrence) : (o.under n i).way = n :: o.way := rfl

theorem way_join (o inner : Occurrence) : (o.join inner).way = o.above ++ inner.way :=
  List.append_assoc ..

theorem length_above (ho : o ∈ n.occurrences) : o.above.length = o.place.length := by
  induction ho using Node.occurrences_induction with
  | root n => rfl
  | under _ _ ih => exact congrArg (· + 1) ih

/-- The way to a node starts at the root. -/
theorem way_eq_cons (ho : o ∈ n.occurrences) : o.way = n :: o.way.tail := by
  induction ho using Node.occurrences_induction with
  | root n => rfl
  | under _ _ _ => rfl

theorem mem_children {x : Occurrence} :
    x ∈ o.children ↔
      ∃ i c, o.node.children[i]? = some c ∧ x = ⟨o.place ++ [i], o.way, c⟩ := by
  rw [children, List.mem_mapIdx]
  constructor
  · rintro ⟨i, hi, rfl⟩
    exact ⟨i, _, List.getElem?_eq_getElem hi, rfl⟩
  · rintro ⟨i, c, hc, rfl⟩
    obtain ⟨hi, rfl⟩ := List.getElem?_eq_some_iff.1 hc
    exact ⟨i, hi, rfl⟩

/-- The children of a node of a tree are nodes of the tree. -/
theorem mem_occurrences_of_mem_children {x : Occurrence} (ho : o ∈ n.occurrences)
    (hx : x ∈ o.children) : x ∈ n.occurrences := by
  obtain ⟨i, c, hc, rfl⟩ := mem_children.1 hx
  clear hx
  induction ho using Node.occurrences_induction with
  | root n => exact mem_occurrences_under hc (root_mem_occurrences c)
  | under hchild _ ih => exact mem_occurrences_under hchild (ih hc)

theorem map_node_children (o : Occurrence) : o.children.map (·.node) = o.node.children := by
  refine List.ext_getElem ?_ fun i _ _ => ?_
  · rw [List.length_map, children, List.length_mapIdx]
  · simp only [children, List.getElem_map, List.getElem_mapIdx]

theorem map_node_child? (o : Occurrence) (role : Role) :
    (o.child? role).map (·.node) = o.node.child? role := by
  rw [Node.child?, ← map_node_children, List.find?_map]
  rfl

/-- No two children stand at one place. -/
theorem nodup_places_children (o : Occurrence) : (o.children.map (·.place)).Nodup := by
  refine List.nodup_iff_injective_getElem.2 fun i j heq => ?_
  simp only [children, List.getElem_map, List.getElem_mapIdx] at heq
  exact Fin.ext (List.singleton_inj.1 (List.append_cancel_left heq))

end Occurrence

mutual

/-- No two nodes of a tree stand at one place. -/
theorem nodup_places_occurrences : ∀ n : Node, (n.occurrences.map (·.place)).Nodup
  | ⟨kind, role, line, text, cs⟩ => by
    rw [Node.occurrences, List.map_cons, List.nodup_cons]
    refine ⟨fun hmem => ?_, nodup_places_occurrencesBelow _ 0 cs⟩
    obtain ⟨o, ho, hplace⟩ := List.mem_map.1 hmem
    obtain ⟨j, c, inner, _, _, rfl⟩ := mem_occurrencesBelow.1 ho
    cases hplace

theorem nodup_places_occurrencesBelow (parent : Node) : ∀ (i : Nat) (cs : List Node),
    ((occurrencesBelow parent i cs).map (·.place)).Nodup
  | _, [] => by
    rw [occurrencesBelow]
    exact List.nodup_nil
  | i, c :: more => by
    rw [occurrencesBelow, List.map_append, List.map_map, List.nodup_append]
    refine ⟨?_, nodup_places_occurrencesBelow parent (i + 1) more, ?_⟩
    · have hcons := List.Nodup.map (@List.cons_injective _ i) (nodup_places_occurrences c)
      rwa [List.map_map] at hcons
    · intro p hp q hq heq
      obtain ⟨inner, _, rfl⟩ := List.mem_map.1 hp
      obtain ⟨o, ho, rfl⟩ := List.mem_map.1 hq
      obtain ⟨j, c', inner', _, _, rfl⟩ := mem_occurrencesBelow.1 ho
      have hindex : i = i + 1 + j := List.head_eq_of_cons_eq heq
      omega

end

/-- A place tells the node of a tree. -/
theorem Occurrence.eq_of_place_eq {x : Occurrence} (ho : o ∈ n.occurrences)
    (hx : x ∈ n.occurrences) (hplace : o.place = x.place) : o = x :=
  List.inj_on_of_nodup_map (nodup_places_occurrences n) ho hx hplace

/-! ### Trees inside a tree -/

/-- Of the nodes below some children, those at or below a place are the ones below the child on
    the way there. -/
theorem filter_occurrencesBelow (parent : Node) (i j : Nat) (place : List Nat) (cs : List Node) :
    (occurrencesBelow parent i cs).filter (fun o => ((i + j) :: place).isPrefixOf o.place) =
      (cs[j]?.toList.flatMap fun c => c.occurrences.filter (place.isPrefixOf ·.place)).map
        (.under parent (i + j)) := by
  induction cs generalizing i j with
  | nil => simp [occurrencesBelow]
  | cons c more ih =>
    rw [occurrencesBelow, List.filter_append, List.filter_map]
    cases j with
    | zero =>
      have hlater : (occurrencesBelow parent (i + 1) more).filter
          (fun o => ((i + 0) :: place).isPrefixOf o.place) = [] := by
        rw [List.filter_eq_nil_iff]
        intro o ho
        obtain ⟨k, c', inner, _, _, rfl⟩ := mem_occurrencesBelow.1 ho
        have hne : i ≠ i + 1 + k := by omega
        simp [Occurrence.under, List.isPrefixOf, hne]
      rw [hlater, List.append_nil]
      simp [Occurrence.under, Function.comp_def]
    | succ j =>
      have hfirst : c.occurrences.filter ((fun o => ((i + (j + 1)) :: place).isPrefixOf o.place) ∘
          Occurrence.under parent i) = [] := by
        rw [List.filter_eq_nil_iff]
        intro o _
        have hne : i + (j + 1) ≠ i := by omega
        simp [Occurrence.under, List.isPrefixOf]
      have hindex : i + (j + 1) = i + 1 + j := by omega
      rw [hfirst, List.map_nil, List.nil_append, List.getElem?_cons_succ, hindex, ih]

/-- The nodes of a tree at or below one of its nodes are those of the tree that stands there. -/
theorem filter_occurrences {f : Occurrence} (hf : f ∈ n.occurrences) :
    n.occurrences.filter (f.place.isPrefixOf ·.place) = f.node.occurrences.map f.join := by
  induction hf using Node.occurrences_induction with
  | root n =>
    have hall : n.occurrences.filter ((Occurrence.root n).place.isPrefixOf ·.place) =
        n.occurrences := List.filter_eq_self.2 fun _ _ => rfl
    rw [hall]
    exact (List.map_id _).symm
  | @under n i c f hc hf ih =>
    have hbelow := filter_occurrencesBelow n 0 i f.place n.children
    rw [Nat.zero_add, hc] at hbelow
    rw [occurrences_eq, List.filter_cons_of_neg Bool.false_ne_true]
    refine hbelow.trans ?_
    rw [Option.toList_some, List.flatMap_singleton, ih, List.map_map]
    rfl

/-- What stands at or below a node of a tree stands in the tree of that node. -/
theorem Occurrence.exists_join {f : Occurrence} (hf : f ∈ n.occurrences) (ho : o ∈ n.occurrences)
    (hplace : f.place <+: o.place) : ∃ inner ∈ f.node.occurrences, o = f.join inner := by
  have hmem : o ∈ n.occurrences.filter (f.place.isPrefixOf ·.place) :=
    List.mem_filter.2 ⟨ho, List.isPrefixOf_iff_prefix.2 hplace⟩
  rw [filter_occurrences hf, List.mem_map] at hmem
  obtain ⟨inner, hinner, rfl⟩ := hmem
  exact ⟨inner, hinner, rfl⟩

/-- The node that stands on the way to another one. -/
theorem Occurrence.getElem?_way {f : Occurrence} (hf : f ∈ n.occurrences) (ho : o ∈ n.occurrences)
    (hplace : f.place <+: o.place) : o.way[f.place.length]? = some f.node := by
  obtain ⟨inner, hinner, rfl⟩ := exists_join hf ho hplace
  rw [way_join, way_eq_cons hinner, ← length_above hf, List.getElem?_append_right (Nat.le_refl _),
    Nat.sub_self, List.getElem?_cons_zero]

end CodeSurvey.Ecma
