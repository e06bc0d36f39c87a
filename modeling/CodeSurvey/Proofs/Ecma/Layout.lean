import CodeSurvey.Ecma.Grammar.Target

/-!
How the nodes of a tree lie in the source. A tree is well formed if every function and class in it
has its parts and if the lines of its nodes never decrease in document order: a node begins before
its children, and everything below a child lies before the next child. Nodes that lie one after the
other between two lines are laid out between them; this is what one step of reading hands to the
next.

      low ≤ first.line ≤ .. ≤ first.lastLine ≤ second.line ≤ .. ≤ high

Main statement: reading an expression again as a pattern keeps its layout.
-/

namespace CodeSurvey.Ecma

/-- A function that stands as a statement or as a member, and never as a value. -/
def Kind.isDeclaredFunction : Kind → Bool
  | functionDeclaration .. | methodDefinition .. => true
  | _ => false

/-- A function is a value, or else a declaration or a member. -/
theorem Kind.isFunctionBoundary_eq (kind : Kind) :
    kind.isFunctionBoundary = (kind.isFunctionLiteral || kind.isDeclaredFunction) := by
  cases kind <;> rfl

/-- The first of several children that plays a part. -/
def partOf (children : List Node) (role : Role) : Option Node := children.find? (·.role == role)

/-- The children are what a node of this kind needs: a function has a body, which declares no
    function itself, and a class declaration has a name and a class body. -/
def Kind.fits (kind : Kind) (children : List Node) : Bool :=
  match kind with
  | functionDeclaration .. | functionExpression .. | methodDefinition .. | arrowFunction .. =>
    (partOf children .body).any (!·.kind.isDeclaredFunction)
  | classDeclaration =>
    (partOf children .name).isSome && (partOf children .body).any (·.kind == .classBody)
  | _ => true

mutual

/-- The line of the last node of a tree in document order. -/
def Node.lastLine : Node → Nat
  | ⟨_, _, line, _, children⟩ => lastLineFrom line children

/-- The line of the last node of several trees in document order, or a line before them. -/
def lastLineFrom (line : Nat) : List Node → Nat
  | [] => line
  | n :: more => lastLineFrom n.lastLine more

end

mutual

/-- Every node has the parts that its kind needs, and the lines never decrease. -/
def Node.WellFormed : Node → Prop
  | ⟨kind, _, line, _, children⟩ => kind.fits children = true ∧ LaidFrom line children

/-- The nodes are well formed and lie one after the other from a line on. -/
def LaidFrom (low : Nat) : List Node → Prop
  | [] => True
  | n :: more => low ≤ n.line ∧ n.WellFormed ∧ LaidFrom n.lastLine more

end

/-- The nodes are well formed and lie one after the other between two lines. -/
@[grind =]
def Laid (low : Nat) (ns : List Node) (high : Nat) : Prop :=
  LaidFrom low ns ∧ lastLineFrom low ns ≤ high

/-- The node is well formed and lies between two lines. -/
@[grind]
structure Lies (low : Nat) (n : Node) (high : Nat) : Prop where
  begins : low ≤ n.line
  wellFormed : n.WellFormed
  ends : n.lastLine ≤ high

/-! ### Parts -/

@[grind =]
theorem partOf_nil (role : Role) : partOf [] role = none := rfl

@[grind =]
theorem partOf_cons (n : Node) (more : List Node) (role : Role) :
    partOf (n :: more) role = if n.role = role then some n else partOf more role := by
  rw [partOf, List.find?_cons]
  cases h : n.role == role with
  | true => rw [if_pos (beq_iff_eq.1 h)]
  | false =>
    rw [if_neg (beq_eq_false_iff_ne.1 h)]
    rfl

/-- Items play no part of their own, so a part is looked for behind them. -/
@[grind =>]
theorem partOf_append_of_items {items : List Node} (h : ∀ n ∈ items, n.role = .item)
    (more : List Node) {role : Role} (hrole : role ≠ .item) :
    partOf (items ++ more) role = partOf more role := by
  induction items with
  | nil => rfl
  | cons n rest ih =>
    obtain ⟨hn, hrest⟩ := List.forall_mem_cons.1 h
    rw [List.cons_append, partOf_cons, hn, if_neg hrole.symm, ih hrest]

/-! ### Single nodes -/

section Node

variable {kind : Kind} {role : Role} {line : Nat} {text : String} {children : List Node}

@[grind =]
theorem lastLine_mk :
    (⟨kind, role, line, text, children⟩ : Node).lastLine = lastLineFrom line children := by
  rw [Node.lastLine]

@[grind =]
theorem wellFormed_mk :
    (⟨kind, role, line, text, children⟩ : Node).WellFormed ↔
      kind.fits children = true ∧ LaidFrom line children := by
  rw [Node.WellFormed]

end Node

@[grind =]
theorem line_as (n : Node) (role : Role) : (n.as role).line = n.line := rfl

@[grind =]
theorem role_as (n : Node) (role : Role) : (n.as role).role = role := rfl

@[grind =]
theorem kind_as (n : Node) (role : Role) : (n.as role).kind = n.kind := rfl

@[grind =]
theorem lastLine_as (n : Node) (role : Role) : (n.as role).lastLine = n.lastLine := by
  cases n
  rw [Node.as, Node.lastLine, Node.lastLine]

@[grind =]
theorem wellFormed_as (n : Node) (role : Role) : (n.as role).WellFormed ↔ n.WellFormed := by
  cases n
  rw [Node.as, Node.WellFormed, Node.WellFormed]

/-! ### Several nodes -/

@[grind =]
theorem lastLineFrom_nil (low : Nat) : lastLineFrom low [] = low := by
  rw [lastLineFrom]

@[grind =]
theorem lastLineFrom_cons (low : Nat) (n : Node) (more : List Node) :
    lastLineFrom low (n :: more) = lastLineFrom n.lastLine more := by
  rw [lastLineFrom]

@[grind =]
theorem laidFrom_nil (low : Nat) : LaidFrom low [] ↔ True := by
  rw [LaidFrom]

@[grind =]
theorem laidFrom_cons (low : Nat) (n : Node) (more : List Node) :
    LaidFrom low (n :: more) ↔ low ≤ n.line ∧ n.WellFormed ∧ LaidFrom n.lastLine more := by
  rw [LaidFrom]

@[grind =]
theorem lastLineFrom_append (low : Nat) (ns more : List Node) :
    lastLineFrom low (ns ++ more) = lastLineFrom (lastLineFrom low ns) more := by
  induction ns generalizing low with
  | nil => rw [List.nil_append, lastLineFrom_nil]
  | cons n rest ih => rw [List.cons_append, lastLineFrom_cons, lastLineFrom_cons, ih]

@[grind =]
theorem laidFrom_append (low : Nat) (ns more : List Node) :
    LaidFrom low (ns ++ more) ↔ LaidFrom low ns ∧ LaidFrom (lastLineFrom low ns) more := by
  induction ns generalizing low with
  | nil => rw [List.nil_append, lastLineFrom_nil, laidFrom_nil, true_and]
  | cons n rest ih =>
    rw [List.cons_append, laidFrom_cons, laidFrom_cons, lastLineFrom_cons, ih, and_assoc, and_assoc]

mutual

@[grind →]
theorem Node.WellFormed.line_le : ∀ {n : Node}, n.WellFormed → n.line ≤ n.lastLine
  | ⟨_, _, _, _, _⟩, h => by
    rw [lastLine_mk]
    exact (wellFormed_mk.1 h).2.le_lastLineFrom

@[grind →]
theorem LaidFrom.le_lastLineFrom : ∀ {low : Nat} {ns : List Node},
    LaidFrom low ns → low ≤ lastLineFrom low ns
  | low, [], _ => Nat.le_of_eq (lastLineFrom_nil low).symm
  | low, n :: more, h => by
    obtain ⟨hline, hn, hmore⟩ := (laidFrom_cons low n more).1 h
    rw [lastLineFrom_cons]
    exact Nat.le_trans (Nat.le_trans hline hn.line_le) hmore.le_lastLineFrom

end

/-- Nodes that lie from a line on lie from any earlier line on, and end where they did. -/
theorem LaidFrom.mono {low before : Nat} {ns : List Node} (h : LaidFrom low ns)
    (hle : before ≤ low) :
    LaidFrom before ns ∧ lastLineFrom before ns ≤ lastLineFrom low ns := by
  cases ns with
  | nil =>
    rw [lastLineFrom_nil, lastLineFrom_nil, laidFrom_nil]
    exact ⟨trivial, hle⟩
  | cons n more =>
    rw [laidFrom_cons] at h
    rw [laidFrom_cons, lastLineFrom_cons, lastLineFrom_cons]
    exact ⟨⟨Nat.le_trans hle h.1, h.2⟩, Nat.le_refl _⟩

theorem Laid.mono {low high before after : Nat} {ns : List Node} (h : Laid low ns high)
    (hlow : before ≤ low) (hhigh : high ≤ after) : Laid before ns after := by
  obtain ⟨hlaid, hlast⟩ := h.1.mono hlow
  exact ⟨hlaid, Nat.le_trans hlast (Nat.le_trans h.2 hhigh)⟩

/-- Nodes between two lines lie from any earlier line on. -/
theorem Laid.before {low high before : Nat} {ns : List Node} (h : Laid low ns high)
    (hlow : before ≤ low) : LaidFrom before ns ∧ lastLineFrom before ns ≤ high :=
  h.mono hlow (Nat.le_refl high)

grind_pattern Laid.before => Laid low ns high, LaidFrom before ns
grind_pattern Laid.before => Laid low ns high, lastLineFrom before ns

@[grind =]
theorem laid_singleton {low high : Nat} {n : Node} : Laid low [n] high ↔ Lies low n high := by
  rw [Laid, laidFrom_cons, laidFrom_nil, lastLineFrom_cons, lastLineFrom_nil, and_true]
  exact ⟨fun ⟨⟨hlow, hn⟩, hhigh⟩ => ⟨hlow, hn, hhigh⟩, fun h => ⟨⟨h.begins, h.wellFormed⟩, h.ends⟩⟩

/-- The children of a node lie between its first and its last line. -/
theorem Node.WellFormed.laid_children {n : Node} (h : n.WellFormed) :
    Laid n.line n.children n.lastLine := by
  obtain ⟨kind, role, line, text, children⟩ := n
  rw [wellFormed_mk] at h
  rw [lastLine_mk]
  exact ⟨h.2, Nat.le_refl _⟩

/-- Each of several nodes that are laid out lies between the first and the last line of them. -/
theorem LaidFrom.lies_of_mem {low : Nat} {ns : List Node} {n : Node} (h : LaidFrom low ns)
    (hn : n ∈ ns) : Lies low n (lastLineFrom low ns) := by
  induction ns generalizing low with
  | nil => cases hn
  | cons first more ih =>
    obtain ⟨hline, hfirst, hmore⟩ := (laidFrom_cons low first more).1 h
    rw [lastLineFrom_cons]
    rcases List.mem_cons.1 hn with rfl | hn
    · exact ⟨hline, hfirst, hmore.le_lastLineFrom⟩
    · obtain ⟨hbegins, hformed, hends⟩ := ih hmore hn
      exact ⟨Nat.le_trans (Nat.le_trans hline hfirst.line_le) hbegins, hformed, hends⟩

/-- A child lies between the first and the last line of its parent. -/
theorem Node.WellFormed.lies_of_mem {n c : Node} (h : n.WellFormed) (hc : c ∈ n.children) :
    Lies n.line c n.lastLine := by
  obtain ⟨hlaid, hlast⟩ := h.laid_children
  obtain ⟨hbegins, hformed, hends⟩ := hlaid.lies_of_mem hc
  exact ⟨hbegins, hformed, Nat.le_trans hends hlast⟩

/-- Nodes that are laid out come in the order of their lines. -/
theorem LaidFrom.pairwise_line {low : Nat} {ns : List Node} (h : LaidFrom low ns) :
    ns.Pairwise (·.line ≤ ·.line) := by
  induction ns generalizing low with
  | nil => exact .nil
  | cons first more ih =>
    obtain ⟨_, hfirst, hmore⟩ := (laidFrom_cons low first more).1 h
    refine .cons (fun n hn => ?_) (ih hmore)
    exact Nat.le_trans hfirst.line_le (hmore.lies_of_mem hn).begins

/-! ### Patterns -/

/-- A node takes the place of another one: it lies where that one lay, and in the same role. -/
@[grind]
structure Node.Replaces (p n : Node) : Prop where
  line : p.line = n.line
  role : p.role = n.role
  lastLine : p.lastLine = n.lastLine
  wellFormed : n.WellFormed → p.WellFormed

/-- Nodes take the place of others if they lie where those lay. -/
def ReplaceAll (ps ns : List Node) : Prop :=
  ∀ low, lastLineFrom low ps = lastLineFrom low ns ∧ (LaidFrom low ns → LaidFrom low ps)

theorem Laid.replaceAll {low high : Nat} {ps ns : List Node} (h : Laid low ns high)
    (hreplace : ReplaceAll ps ns) : Laid low ps high := by
  obtain ⟨hlast, hlaid⟩ := hreplace low
  exact ⟨hlaid h.1, Nat.le_trans (Nat.le_of_eq hlast) h.2⟩

theorem Node.Replaces.refl (n : Node) : n.Replaces n := ⟨rfl, rfl, rfl, id⟩

theorem replaceAll_cons {p n : Node} {ps ns : List Node} (h : p.Replaces n)
    (hmore : ReplaceAll ps ns) : ReplaceAll (p :: ps) (n :: ns) := by
  intro low
  obtain ⟨hlast, hlaid⟩ := hmore n.lastLine
  rw [lastLineFrom_cons, lastLineFrom_cons, laidFrom_cons, laidFrom_cons, h.lastLine, h.line]
  exact ⟨hlast, fun ⟨hline, hn, hns⟩ => ⟨hline, h.wellFormed hn, hlaid hns⟩⟩

/-- A node keeps its place when its children are replaced, if its new kind needs no parts. -/
theorem Node.Replaces.of_children {kind kind' : Kind} {role : Role} {line : Nat} {text : String}
    {cs ps : List Node} (hkind : ∀ cs, kind'.fits cs = true) (h : ReplaceAll ps cs) :
    (⟨kind', role, line, text, ps⟩ : Node).Replaces ⟨kind, role, line, text, cs⟩ := by
  obtain ⟨hlast, hlaid⟩ := h line
  refine ⟨rfl, rfl, ?_, fun hn => ?_⟩
  · rw [lastLine_mk, lastLine_mk, hlast]
  · rw [wellFormed_mk] at hn ⊢
    exact ⟨hkind ps, hlaid hn.2⟩

mutual

@[grind →]
theorem Node.replaces_asPattern? : ∀ {n p : Node}, n.asPattern? = some p → p.Replaces n
  | ⟨kind, role, line, text, children⟩, p, h => by
    have hlist : ∀ {kind'}, (∀ cs, Kind.fits kind' cs = true) →
        (asPatterns? children).map (fun cs => (⟨kind', role, line, text, cs⟩ : Node)) = some p →
        p.Replaces ⟨kind, role, line, text, children⟩ := by
      intro kind' hkind h
      obtain ⟨cs, hcs, rfl⟩ := Option.map_eq_some_iff.1 h
      exact .of_children hkind (replaceAll_asPatterns? hcs)
    rw [Node.asPattern?.eq_def] at h
    simp only at h
    split at h
    case h_10 | h_11 | h_14 => exact hlist (fun _ => rfl) h
    case h_12 | h_13 =>
      -- What is assigned, and what it is assigned to, stay as they are.
      cases h
      exact .of_children (fun _ => rfl) fun _ => ⟨rfl, id⟩
    case h_15 =>
      obtain ⟨cs, hcs, rfl⟩ := Option.map_eq_some_iff.1 h
      exact .of_children (fun _ => rfl) (replaceAll_asValuePatterns? hcs)
    case h_16 => cases h
    all_goals
      cases h
      exact .refl _

theorem replaceAll_asPatterns? : ∀ {ns ps : List Node},
    asPatterns? ns = some ps → ReplaceAll ps ns
  | [], ps, h => by
    rw [asPatterns?] at h
    cases h
    exact fun _ => ⟨rfl, id⟩
  | n :: more, ps, h => by
    rw [asPatterns?] at h
    split at h
    · rename_i p ps hp hps
      cases h
      exact replaceAll_cons (Node.replaces_asPattern? hp) (replaceAll_asPatterns? hps)
    · cases h

theorem replaceAll_asValuePatterns? : ∀ {ns ps : List Node},
    asValuePatterns? ns = some ps → ReplaceAll ps ns
  | [], ps, h => by
    rw [asValuePatterns?] at h
    cases h
    exact fun _ => ⟨rfl, id⟩
  | n :: more, ps, h => by
    rw [asValuePatterns?] at h
    split at h
    · rename_i p ps hp hps
      cases h
      refine replaceAll_cons ?_ (replaceAll_asValuePatterns? hps)
      split at hp
      · exact Node.replaces_asPattern? hp
      · cases hp
        exact .refl n
    · cases h

end

/-- No pattern declares a function. -/
@[grind →]
theorem isDeclaredFunction_asPattern? {n p : Node} (h : n.asPattern? = some p) :
    p.kind.isDeclaredFunction = false := by
  obtain ⟨kind, role, line, text, children⟩ := n
  rw [Node.asPattern?.eq_def] at h
  simp only at h
  split at h
  case h_10 | h_11 | h_14 | h_15 =>
    obtain ⟨cs, _, rfl⟩ := Option.map_eq_some_iff.1 h
    rfl
  case h_16 => cases h
  all_goals
    cases h
    rfl

@[grind →]
theorem Node.replaces_asTarget? {n p : Node} (h : n.asTarget? = some p) : p.Replaces n := by
  unfold Node.asTarget? at h
  split at h
  case h_1 =>
    cases h
    exact .refl n
  case h_8 => cases h
  all_goals exact Node.replaces_asPattern? h

/-- Parameters lie where the list lay that they were read from. -/
@[grind →]
theorem laid_asParameters? {n : Node} {ps : List Node} (h : n.asParameters? = some ps)
    (hn : n.WellFormed) : Laid n.line ps n.lastLine := by
  have hchildren := hn.laid_children
  unfold Node.asParameters? at h
  split at h
  case h_1 =>
    split at h
    · rename_i e he
      rw [he] at hchildren
      split at h
      · -- The list is a sequence in parentheses: its elements are two levels down.
        have hlies := laid_singleton.1 hchildren
        have hinner := hlies.wellFormed.laid_children.replaceAll (replaceAll_asPatterns? h)
        exact hinner.mono hlies.begins hlies.ends
      · exact hchildren.replaceAll (replaceAll_asPatterns? h)
    · cases h
  case h_2 | h_3 => exact hchildren.replaceAll (replaceAll_asPatterns? h)
  case h_4 => cases h

end CodeSurvey.Ecma
