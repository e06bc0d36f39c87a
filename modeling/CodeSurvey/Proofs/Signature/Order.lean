import CodeSurvey.Proofs.Ecma.Grammar.Module
import CodeSurvey.Proofs.Signature.Scored

/-!
In which order signatures come. The lines of the nodes of a tree never decrease in document order,
and a signature has the line of a node that is at, or just below, the one that gives rise to it. A
class declaration gives rise to the signatures of all its members before what is declared inside
them. So the lines of the signatures never decrease, unless something inside a member stands on an
earlier line than another member of the class.

      line 1   class A {             A
      line 2     m() {               A.m
      line 3       function f() {}   A.n   line 5
      line 4     }                   f     line 3
      line 5     n() {}
-/

namespace CodeSurvey.Signature

open Ecma

/-- No member of the class begins behind something that is declared inside the class. -/
def MembersFirst (n : Node) : Prop :=
  n.kind = .classDeclaration → ∀ d ∈ n.declared, ∀ s ∈ ofForest n.children, d.line ≤ s.line

variable {n : Node} {d : Declared} {s : Signature}

/-! ### The lines of what a node declares -/

theorem line_of_declaredByVariable {line : Nat} (h : declaredByVariable line n = some d) :
    d.line = line := by
  unfold declaredByVariable at h
  split at h
  case h_1 =>
    split at h
    · cases h
      rfl
    · cases h
  case h_2 => cases h

theorem line_of_declaredByAssignment {line : Nat} (h : declaredByAssignment line n = some d) :
    d.line = line := by
  unfold declaredByAssignment at h
  split at h
  case h_1 =>
    obtain ⟨_, _, rfl⟩ := Option.map_eq_some_iff.1 h
    rfl
  case h_2 => cases h

/-- All that another node than a class declares has its line. -/
theorem line_of_declared (hkind : n.kind ≠ .classDeclaration) (hd : d ∈ n.declared) :
    d.line = n.line := by
  unfold Node.declared at hd
  split at hd
  case h_1 =>
    obtain ⟨name, _, rfl⟩ := Option.map_eq_some_iff.1 (Option.mem_toList.1 hd)
    rfl
  case h_2 hclass => exact absurd hclass hkind
  case h_3 | h_4 =>
    obtain ⟨x, _, hx⟩ := List.mem_filterMap.1 hd
    exact line_of_declaredByVariable hx
  case h_5 =>
    obtain ⟨x, _, hx⟩ := Option.bind_eq_some_iff.1 (Option.mem_toList.1 hd)
    exact line_of_declaredByAssignment hx
  case h_6 => exact absurd hd List.not_mem_nil

/-- What a class declares are members of its body. -/
theorem declared_of_class (hkind : n.kind = .classDeclaration) :
    n.declared = [] ∨ ∃ name, ∃ body ∈ n.children,
      n.declared = body.children.filterMap (declaredByMember name) := by
  rw [Node.declared, hkind]
  cases n.child? .name with
  | none => exact .inl rfl
  | some name =>
    cases hbody : n.child? .body with
    | none => exact .inl rfl
    | some body => exact .inr ⟨name.text, body, List.mem_of_find?_eq_some hbody, rfl⟩

theorem line_of_declaredByMember {name : String} (h : declaredByMember name n = some d) :
    d.line = n.line := by
  unfold declaredByMember at h
  split at h
  case h_1 =>
    cases h
    rfl
  case h_2 =>
    obtain ⟨_, _, rfl⟩ := Option.map_eq_some_iff.1 h
    rfl
  case h_3 => cases h

theorem lies_of_declared (hn : n.WellFormed) (hd : d ∈ n.declared) :
    n.line ≤ d.line ∧ d.line ≤ n.lastLine := by
  by_cases hkind : n.kind = .classDeclaration
  · rcases declared_of_class hkind with hnone | ⟨name, body, hbody, hmembers⟩
    · rw [hnone] at hd
      cases hd
    · rw [hmembers] at hd
      obtain ⟨m, hm, hmd⟩ := List.mem_filterMap.1 hd
      rw [line_of_declaredByMember hmd]
      have hb := hn.lies_of_mem hbody
      have hlies := hb.wellFormed.lies_of_mem hm
      exact ⟨Nat.le_trans hb.begins hlies.begins,
        Nat.le_trans hlies.wellFormed.line_le (Nat.le_trans hlies.ends hb.ends)⟩
  · rw [line_of_declared hkind hd]
    exact ⟨Nat.le_refl _, hn.line_le⟩

theorem pairwise_declared (hn : n.WellFormed) : n.declared.Pairwise (·.line ≤ ·.line) := by
  by_cases hkind : n.kind = .classDeclaration
  · rcases declared_of_class hkind with hnone | ⟨name, body, hbody, hmembers⟩
    · rw [hnone]
      exact .nil
    · rw [hmembers]
      have hlaid := (hn.lies_of_mem hbody).wellFormed.laid_children.1
      refine hlaid.pairwise_line.filterMap _ fun m m' hle d hd d' hd' => ?_
      rw [line_of_declaredByMember hd, line_of_declaredByMember hd']
      exact hle
  · refine List.pairwise_of_forall_mem_list fun d hd d' hd' => ?_
    rw [line_of_declared hkind hd, line_of_declared hkind hd']

/-! ### The lines of signatures -/

/-- A signature of a node itself has its line, or that of what it declares. -/
theorem line_of_mem_ofNode (h : s ∈ ofNode n) :
    s.line = n.line ∨ ∃ d ∈ n.declared, s.line = d.line := by
  rcases List.mem_append.1 h with h | h
  · exact .inl (of_mem_ofClass? h).2.2
  · obtain ⟨d, hd, rfl⟩ := List.mem_map.1 h
    exact .inr ⟨d, hd, rfl⟩

mutual

/-- The signatures of a tree lie where the tree does. -/
theorem lies_of_mem_ofTree : ∀ {n : Node}, n.WellFormed → s ∈ ofTree n →
    n.line ≤ s.line ∧ s.line ≤ n.lastLine
  | n@⟨kind, role, line, text, children⟩, hn, hs => by
    rw [ofTree] at hs
    rcases List.mem_append.1 hs with hs | hs
    · rcases line_of_mem_ofNode hs with hline | ⟨d, hd, hline⟩
      · rw [hline]
        exact ⟨Nat.le_refl _, hn.line_le⟩
      · rw [hline]
        exact lies_of_declared hn hd
    · exact lies_of_mem_ofForest hn.laid_children.1 hs

theorem lies_of_mem_ofForest : ∀ {low : Nat} {ns : List Node}, LaidFrom low ns →
    s ∈ ofForest ns → low ≤ s.line ∧ s.line ≤ lastLineFrom low ns
  | low, [], _, hs => absurd hs List.not_mem_nil
  | low, n :: more, h, hs => by
    obtain ⟨hline, hn, hmore⟩ := (laidFrom_cons low n more).1 h
    rw [ofForest] at hs
    rw [lastLineFrom_cons]
    rcases List.mem_append.1 hs with hs | hs
    · obtain ⟨hbegins, hends⟩ := lies_of_mem_ofTree hn hs
      exact ⟨Nat.le_trans hline hbegins, Nat.le_trans hends hmore.le_lastLineFrom⟩
    · obtain ⟨hbegins, hends⟩ := lies_of_mem_ofForest hmore hs
      exact ⟨Nat.le_trans (Nat.le_trans hline hn.line_le) hbegins, hends⟩

end

/-! ### Order -/

theorem pairwise_ofNode (hn : n.WellFormed) : (ofNode n).Pairwise (·.line ≤ ·.line) := by
  rw [ofNode, List.pairwise_append]
  refine ⟨Option.pairwise_toList, List.pairwise_map.2 (pairwise_declared hn), ?_⟩
  intro a ha b hb
  obtain ⟨d, hd, rfl⟩ := List.mem_map.1 hb
  rw [(of_mem_ofClass? ha).2.2]
  exact (lies_of_declared hn hd).1

/-- The signatures of a node come before those of what is below it, if the node is no class with a
    member behind something that is declared inside. -/
theorem membersFirst_iff (hn : n.WellFormed) :
    MembersFirst n ↔ ∀ a ∈ ofNode n, ∀ s ∈ ofForest n.children, a.line ≤ s.line := by
  constructor
  · intro hfirst a ha s hs
    have hline := (lies_of_mem_ofForest hn.laid_children.1 hs).1
    rcases line_of_mem_ofNode ha with ha | ⟨d, hd, ha⟩
    · rw [ha]
      exact hline
    · rw [ha]
      by_cases hkind : n.kind = .classDeclaration
      · exact hfirst hkind d hd s hs
      · rw [line_of_declared hkind hd]
        exact hline
  · intro h _ d hd s hs
    exact h (ofDeclared d) (List.mem_append_right _ (List.mem_map.2 ⟨d, hd, rfl⟩)) s hs

mutual

/-- The lines of the signatures of a tree never decrease if and only if they do not in any class. -/
theorem pairwise_ofTree_iff : ∀ {n : Node}, n.WellFormed →
    ((ofTree n).Pairwise (·.line ≤ ·.line) ↔ ∀ o ∈ n.occurrences, MembersFirst o.node)
  | ⟨kind, role, line, text, children⟩, hn => by
    have hbelow := pairwise_ofForest_iff ⟨kind, role, line, text, children⟩ 0 hn.laid_children.1
    rw [ofTree, List.pairwise_append, Node.occurrences, List.forall_mem_cons]
    constructor
    · rintro ⟨_, hsorted, hhere⟩
      exact ⟨(membersFirst_iff hn).2 hhere, hbelow.1 hsorted⟩
    · rintro ⟨hhere, hfirst⟩
      exact ⟨pairwise_ofNode hn, hbelow.2 hfirst, (membersFirst_iff hn).1 hhere⟩

theorem pairwise_ofForest_iff (parent : Node) : ∀ (i : Nat) {low : Nat} {ns : List Node},
    LaidFrom low ns → ((ofForest ns).Pairwise (·.line ≤ ·.line) ↔
      ∀ o ∈ occurrencesBelow parent i ns, MembersFirst o.node)
  | _, _, [], _ => by
    rw [ofForest, occurrencesBelow]
    exact ⟨fun _ o ho => absurd ho List.not_mem_nil, fun _ => .nil⟩
  | i, low, n :: more, h => by
    obtain ⟨_, hn, hmore⟩ := (laidFrom_cons low n more).1 h
    rw [ofForest, List.pairwise_append, pairwise_ofTree_iff hn,
      pairwise_ofForest_iff parent (i + 1) hmore, occurrencesBelow, List.forall_mem_append,
      List.forall_mem_map]
    constructor
    · rintro ⟨hfirst, hlater, _⟩
      exact ⟨hfirst, hlater⟩
    · rintro ⟨hfirst, hlater⟩
      refine ⟨hfirst, hlater, fun a ha b hb => ?_⟩
      exact Nat.le_trans (lies_of_mem_ofTree hn ha).2 (lies_of_mem_ofForest hmore hb).1

end

end CodeSurvey.Signature

namespace CodeSurvey.SignatureReport

open Ecma Signature

variable {path language : String} {asked : Option String} {code : List Char} {tree : Node}

end CodeSurvey.SignatureReport
