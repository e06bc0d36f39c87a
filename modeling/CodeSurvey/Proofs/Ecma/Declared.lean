import CodeSurvey.Ecma.Declared
import CodeSurvey.Proofs.Ecma.Layout
import CodeSurvey.Proofs.Ecma.Occurrence

/-!
The functions that a node declares, where they stand. A declaration names a node itself, the member
of a class, or a function literal that a field, a variable or an assignment holds. Each place is
that of at most one declared function, and the place tells which node declares it.
-/

namespace CodeSurvey.Ecma

namespace Occurrence

/-- The function that a declaration is about: the node itself or the function it holds. -/
def function? (o : Occurrence) : Option Occurrence :=
  match o.node.kind with
  | .functionDeclaration .. | .methodDefinition .. => some o
  | .assignment => o.child? .right
  | _ => o.child? .value

/-- What is declared, with the place of the function. -/
def withPlace (o : Occurrence) (declared : Option Declared) : Option (Occurrence × Declared) :=
  declared.bind fun d => o.function?.map fun f => (f, d)

/-- The functions that the node itself declares, where they stand. -/
def declared (o : Occurrence) : List (Occurrence × Declared) :=
  match o.node.kind with
  | .functionDeclaration .. => o.node.declared.filterMap fun d => o.withPlace (some d)
  | .classDeclaration =>
    match o.node.child? .name, o.child? .body with
    | some name, some body =>
      body.children.filterMap fun m => m.withPlace (declaredByMember name.text m.node)
    | _, _ => []
  | .lexicalDeclaration | .variableDeclaration =>
    o.children.filterMap fun x => x.withPlace (declaredByVariable o.node.line x.node)
  | .expressionStatement =>
    (o.children.head?.bind fun x => x.withPlace (declaredByAssignment o.node.line x.node)).toList
  | _ => []

/-- What holds a function literal that is declared with it. -/
def Holds (x : Node) (role : Role) : Prop :=
  x.kind = .variableDeclarator ∧ role = .value ∨ x.kind = .assignment ∧ role = .right

/-- A node declares the function at a place. -/
inductive Declares (o : Occurrence) : Occurrence → Declared → Prop where
  | function {d : Declared} {async generator : Bool}
      (kind : o.node.kind = .functionDeclaration async generator)
      (function : d.function = o.node) (found : d.kind = .function ∨ d.kind = .arrow) :
      Declares o o d
  | method {d : Declared} {inside m : Occurrence} {async generator : Bool}
      (kind : o.node.kind = .classDeclaration) (body : o.child? .body = some inside)
      (member : m ∈ inside.children) (memberKind : m.node.kind = .methodDefinition async generator)
      (function : d.function = m.node) (found : d.kind = .method) : Declares o m d
  | field {d : Declared} {inside m f : Occurrence}
      (kind : o.node.kind = .classDeclaration) (body : o.child? .body = some inside)
      (member : m ∈ inside.children) (memberKind : m.node.kind = .fieldDefinition)
      (value : m.child? .value = some f) (literal : f.node.kind.isFunctionLiteral = true)
      (function : d.function = f.node) (found : d.kind = .method) : Declares o f d
  | bound {d : Declared} {x f : Occurrence} {role : Role}
      (kind : o.node.kind ≠ .classDeclaration) (child : x ∈ o.children)
      (holds : Holds x.node role) (value : x.child? role = some f)
      (literal : f.node.kind.isFunctionLiteral = true) (function : d.function = f.node)
      (found : d.kind = .function ∨ d.kind = .arrow) : Declares o f d

/-! ### Children with a part -/

variable {o x f : Occurrence} {role : Role} {d : Declared}

theorem mem_children_of_child? (h : o.child? role = some x) : x ∈ o.children :=
  List.mem_of_find?_eq_some h

theorem node_child?_eq (h : o.child? role = some x) : o.node.child? role = some x.node := by
  rw [← map_node_child?, h]
  rfl

theorem role_eq_of_child? (h : o.child? role = some x) : x.node.role = role := by
  have hrole := List.find?_some h
  exact beq_iff_eq.1 hrole

/-- A function literal that is a child with a part stands there as an occurrence too. -/
theorem child?_of_literal? {n : Node} (h : o.node.literal? role = some n) :
    ∃ f, o.child? role = some f ∧ f.node = n ∧ f.node.kind.isFunctionLiteral = true := by
  obtain ⟨hchild, hliteral⟩ := Option.filter_eq_some_iff.1 h
  rw [← map_node_child?] at hchild
  obtain ⟨f, hf, rfl⟩ := Option.map_eq_some_iff.1 hchild
  exact ⟨f, hf, rfl, hliteral⟩

/-! ### Members, variables and assignments -/

/-- A member that declares a function is a method, or a field with a function literal. -/
theorem declaredByMember_cases {name : String}
    (h : declaredByMember name x.node = some d) :
    ∃ f, x.function? = some f ∧ d.function = f.node ∧ d.kind = .method ∧
      ((∃ async generator, x.node.kind = .methodDefinition async generator ∧ f = x) ∨
        x.node.kind = .fieldDefinition ∧ x.child? .value = some f ∧
          f.node.kind.isFunctionLiteral = true) := by
  unfold declaredByMember at h
  split at h
  case h_1 async generator hkind =>
    cases h
    exact ⟨x, by rw [function?, hkind], rfl, rfl, .inl ⟨async, generator, hkind, rfl⟩⟩
  case h_2 hkind =>
    obtain ⟨n, hliteral, rfl⟩ := Option.map_eq_some_iff.1 h
    obtain ⟨f, hf, rfl, hfunction⟩ := child?_of_literal? hliteral
    exact ⟨f, by rw [function?, hkind, hf], rfl, rfl, .inr ⟨hkind, hf, hfunction⟩⟩
  case h_3 => cases h

/-- A variable that is a function holds a function literal. -/
theorem declaredByVariable_cases {line : Nat} (h : declaredByVariable line x.node = some d) :
    ∃ f, x.function? = some f ∧ d.function = f.node ∧ (d.kind = .function ∨ d.kind = .arrow) ∧
      x.child? .value = some f ∧ Holds x.node .value ∧ f.node.kind.isFunctionLiteral = true := by
  unfold declaredByVariable at h
  split at h
  case h_1 name n hkind _ hliteral =>
    split at h
    · cases h
      obtain ⟨f, hf, rfl, hfunction⟩ := child?_of_literal? hliteral
      exact ⟨f, by rw [function?, hkind, hf], rfl, .inr rfl, hf, .inl ⟨hkind, rfl⟩, hfunction⟩
    · cases h
  case h_2 => cases h

/-- An assignment that exports a function holds a function literal. -/
theorem declaredByAssignment_cases {line : Nat} (h : declaredByAssignment line x.node = some d) :
    ∃ f, x.function? = some f ∧ d.function = f.node ∧ (d.kind = .function ∨ d.kind = .arrow) ∧
      x.child? .right = some f ∧ Holds x.node .right ∧ f.node.kind.isFunctionLiteral = true := by
  unfold declaredByAssignment at h
  split at h
  case h_1 left n hkind _ hliteral =>
    obtain ⟨name, _, rfl⟩ := Option.map_eq_some_iff.1 h
    obtain ⟨f, hf, rfl, hfunction⟩ := child?_of_literal? hliteral
    exact ⟨f, by rw [function?, hkind, hf], rfl, .inl rfl, hf, .inr ⟨hkind, rfl⟩, hfunction⟩
  case h_2 => cases h

/-! ### Declared functions -/

/-- What is declared keeps its place or finds one. -/
theorem map_snd_withPlace {declared : Option Declared}
    (h : ∀ d, declared = some d → ∃ f, x.function? = some f) :
    (x.withPlace declared).map (·.2) = declared := by
  cases declared with
  | none => rfl
  | some d =>
    obtain ⟨f, hf⟩ := h d rfl
    rw [withPlace, Option.bind_some, hf]
    rfl

theorem map_snd_filterMap_withPlace {declared : Node → Option Declared}
    (h : ∀ (x : Occurrence) d, declared x.node = some d → ∃ f, x.function? = some f)
    (xs : List Occurrence) :
    (xs.filterMap fun x => x.withPlace (declared x.node)).map (·.2) =
      (xs.map (·.node)).filterMap declared := by
  rw [List.map_filterMap, List.filterMap_map]
  congr 1
  funext x
  exact map_snd_withPlace (h x)

/-- The functions with their places are those that the node declares. -/
theorem map_snd_declared (o : Occurrence) : o.declared.map (·.2) = o.node.declared := by
  unfold declared
  split
  case h_1 async generator hkind =>
    rw [List.map_filterMap]
    have hself : ∀ d, (o.withPlace (some d)).map (·.2) = some d := fun d =>
      map_snd_withPlace fun _ _ => ⟨o, by rw [function?, hkind]⟩
    simp only [hself, List.filterMap_some]
  case h_2 hkind =>
    rw [Node.declared, hkind, ← map_node_child? o .body]
    cases hname : o.node.child? .name with
    | none => rfl
    | some name =>
      cases o.child? .body with
      | none => rfl
      | some body =>
        simp only [Option.map_some, ← map_node_children]
        refine map_snd_filterMap_withPlace (fun x d h => ?_) _
        obtain ⟨f, hf, _⟩ := declaredByMember_cases h
        exact ⟨f, hf⟩
  case h_3 hkind | h_4 hkind =>
    rw [Node.declared, hkind, ← map_node_children]
    refine map_snd_filterMap_withPlace (fun x d h => ?_) _
    obtain ⟨f, hf, _⟩ := declaredByVariable_cases h
    exact ⟨f, hf⟩
  case h_5 hkind =>
    rw [Node.declared, hkind, ← map_node_children, List.head?_map]
    cases o.children.head? with
    | none => rfl
    | some x =>
      simp only [Option.bind_some, Option.map_some, ← Option.toList_map]
      congr 1
      refine map_snd_withPlace fun d h => ?_
      obtain ⟨f, hf, _⟩ := declaredByAssignment_cases h
      exact ⟨f, hf⟩
  case h_6 =>
    unfold Node.declared
    split <;> simp_all

theorem mem_withPlace {declared : Option Declared} (h : x.withPlace declared = some (f, d)) :
    declared = some d ∧ x.function? = some f := by
  obtain ⟨d', rfl, h⟩ := Option.bind_eq_some_iff.1 h
  obtain ⟨f', hf, heq⟩ := Option.map_eq_some_iff.1 h
  cases heq
  exact ⟨rfl, hf⟩

/-- How a node declares a function. -/
theorem declares_of_mem (h : (f, d) ∈ o.declared) : Declares o f d := by
  unfold declared at h
  split at h
  case h_1 async generator hkind =>
    obtain ⟨d', hd', hplace⟩ := List.mem_filterMap.1 h
    obtain ⟨heq, hf⟩ := mem_withPlace hplace
    cases heq
    rw [function?, hkind] at hf
    cases hf
    rw [Node.declared, hkind] at hd'
    obtain ⟨name, _, rfl⟩ := Option.map_eq_some_iff.1 (Option.mem_toList.1 hd')
    exact .function hkind rfl (.inl rfl)
  case h_2 hkind =>
    split at h
    case h_1 name inside _ hbody =>
      obtain ⟨m, hm, hplace⟩ := List.mem_filterMap.1 h
      obtain ⟨hd, hf⟩ := mem_withPlace hplace
      obtain ⟨f', hf', hfunction, hfound, hmember⟩ := declaredByMember_cases hd
      obtain rfl := Option.some.inj (hf.symm.trans hf')
      rcases hmember with ⟨async, generator, hmethod, rfl⟩ | ⟨hfield, hvalue, hliteral⟩
      · exact .method hkind hbody hm hmethod hfunction hfound
      · exact .field hkind hbody hm hfield hvalue hliteral hfunction hfound
    case h_2 => exact absurd h List.not_mem_nil
  case h_3 hkind | h_4 hkind =>
    obtain ⟨x, hx, hplace⟩ := List.mem_filterMap.1 h
    obtain ⟨hd, hf⟩ := mem_withPlace hplace
    obtain ⟨f', hf', hfunction, hfound, hvalue, hholds, hliteral⟩ := declaredByVariable_cases hd
    obtain rfl := Option.some.inj (hf.symm.trans hf')
    exact .bound (hkind ▸ nofun) hx hholds hvalue hliteral hfunction hfound
  case h_5 hkind =>
    obtain ⟨x, hx, hplace⟩ := Option.bind_eq_some_iff.1 (Option.mem_toList.1 h)
    obtain ⟨hd, hf⟩ := mem_withPlace hplace
    obtain ⟨f', hf', hfunction, hfound, hvalue, hholds, hliteral⟩ := declaredByAssignment_cases hd
    obtain rfl := Option.some.inj (hf.symm.trans hf')
    exact .bound (hkind ▸ nofun) (List.mem_of_mem_head? hx) hholds hvalue hliteral hfunction hfound
  case h_6 => exact absurd h List.not_mem_nil

/-! ### Places of declared functions -/

theorem place_of_mem_children (h : x ∈ o.children) :
    ∃ i, x.place = o.place ++ [i] ∧ x.above = o.way := by
  obtain ⟨i, c, _, rfl⟩ := mem_children.1 h
  exact ⟨i, rfl, rfl⟩

theorem function?_place {f : Occurrence} (h : x.function? = some f) : x.place <+: f.place := by
  have hchild : ∀ {role}, x.child? role = some f → x.place <+: f.place := by
    intro role hf
    obtain ⟨i, hplace, _⟩ := place_of_mem_children (mem_children_of_child? hf)
    exact ⟨[i], hplace.symm⟩
  unfold function? at h
  split at h
  case h_1 | h_2 =>
    cases h
    exact List.prefix_rfl
  case h_3 | h_4 => exact hchild h

/-- Nothing stands below two children at once. -/
theorem pairwise_children (o : Occurrence) :
    o.children.Pairwise fun x y => ∀ place, x.place <+: place → ¬ y.place <+: place := by
  have hpairwise := List.pairwise_map.1 (nodup_places_children o)
  refine hpairwise.imp_of_mem fun {x y} hx hy hne place hxp hyp => hne ?_
  obtain ⟨i, hi, _⟩ := place_of_mem_children hx
  obtain ⟨j, hj, _⟩ := place_of_mem_children hy
  have hlength : x.place.length = y.place.length := by
    rw [hi, hj, List.length_append, List.length_append]
    rfl
  exact (List.prefix_of_prefix_length_le hxp hyp (Nat.le_of_eq hlength)).eq_of_length hlength

theorem pairwise_filterMap_withPlace (declared : Node → Option Declared) (o : Occurrence) :
    (o.children.filterMap fun x => x.withPlace (declared x.node)).Pairwise
      (·.1.place ≠ ·.1.place) := by
  rw [List.pairwise_filterMap]
  refine (pairwise_children o).imp fun {x y} hapart a ha b hb heq => ?_
  have hx := function?_place (mem_withPlace ha).2
  have hy := function?_place (mem_withPlace hb).2
  exact hapart _ hx (heq ▸ hy)

/-- A node declares no two functions at one place. -/
theorem pairwise_declared (o : Occurrence) : o.declared.Pairwise (·.1.place ≠ ·.1.place) := by
  unfold declared
  split
  case h_1 hkind =>
    rw [Node.declared, hkind]
    exact (Option.pairwise_toList (P := fun _ _ => False)).filterMap _ fun _ _ h => h.elim
  case h_2 hkind =>
    split
    case h_1 name inside _ _ =>
      exact pairwise_filterMap_withPlace (declaredByMember name.text) inside
    case h_2 => exact .nil
  case h_3 hkind | h_4 hkind => exact pairwise_filterMap_withPlace _ o
  case h_5 => exact Option.pairwise_toList
  case h_6 => exact .nil

/-- How far above a function the node stands that declares it. -/
def height (f : Occurrence) : Nat :=
  match f.node.kind with
  | .functionDeclaration .. => 0
  | .methodDefinition .. => 2
  | _ => if f.above.getLast?.any (·.kind == .fieldDefinition) then 3 else 2

theorem kind_ne_of_holds {n : Node} (h : Holds n role) :
    n.kind ≠ .fieldDefinition ∧ n.kind ≠ .classDeclaration := by
  rcases h with ⟨hkind, _⟩ | ⟨hkind, _⟩
  · simp [hkind]
  · simp [hkind]

theorem height_of_literal (h : f.node.kind.isFunctionLiteral = true) :
    f.height = if f.above.getLast?.any (·.kind == .fieldDefinition) then 3 else 2 := by
  unfold height
  split
  case h_1 hkind | h_2 hkind =>
    rw [hkind] at h
    cases h
  case h_3 => rfl

/-- What stands in a well-formed tree is well formed. -/
theorem wellFormed {n : Node} (ho : o ∈ n.occurrences) (hn : n.WellFormed) :
    o.node.WellFormed := by
  induction ho using Node.occurrences_induction with
  | root n => exact hn
  | under hc _ ih => exact ih (hn.lies_of_mem (List.mem_of_getElem? hc)).wellFormed

theorem kind_fits (hf : f.node.WellFormed) : f.node.kind.fits f.node.children = true := by
  obtain ⟨_, _, kind, role, line, text, children⟩ := f
  exact (wellFormed_mk.1 hf).1

/-- A function has a body, and no body declares a function as a statement or a member does. -/
theorem exists_body (hf : f.node.WellFormed) (hkind : f.node.kind.isFunctionBoundary = true) :
    ∃ b, f.child? .body = some b ∧ b.node.kind.isDeclaredFunction = false := by
  have hfits := kind_fits hf
  have hbody : (f.node.child? .body).any (!·.kind.isDeclaredFunction) = true := by
    cases hk : f.node.kind <;> rw [hk] at hkind hfits <;> first | exact hfits | cases hkind
  rw [← map_node_child?, Option.any_map] at hbody
  obtain ⟨b, hb, hdeclares⟩ := Option.any_eq_true .. |>.1 hbody
  exact ⟨b, hb, by simpa using hdeclares⟩

/-- The body of a class declaration is a class body. -/
theorem kind_of_classBody (ho : o.node.WellFormed) (hkind : o.node.kind = .classDeclaration)
    (hbody : o.child? .body = some x) : x.node.kind = .classBody := by
  have hfits := kind_fits ho
  rw [hkind] at hfits
  have hpart := (Bool.and_eq_true_iff.1 hfits).2
  rw [show partOf o.node.children .body = some x.node from node_child?_eq hbody] at hpart
  exact beq_iff_eq.1 hpart

namespace Declares

theorem function_eq (h : Declares o f d) : d.function = f.node := by
  cases h <;> assumption

theorem kind_ne (h : Declares o f d) : d.kind ≠ .classDef := by
  cases h with
  | method _ _ _ _ _ found => rw [found]; nofun
  | field _ _ _ _ _ _ _ found => rw [found]; nofun
  | function _ _ found => rcases found with found | found <;> rw [found] <;> nofun
  | bound _ _ _ _ _ _ found => rcases found with found | found <;> rw [found] <;> nofun

theorem isFunctionBoundary (h : Declares o f d) : f.node.kind.isFunctionBoundary = true := by
  cases h with
  | function kind => rw [kind]; rfl
  | method _ _ _ memberKind => rw [memberKind]; rfl
  | field _ _ _ _ _ literal => rw [Kind.isFunctionBoundary_eq, literal, Bool.true_or]
  | bound _ _ _ _ literal => rw [Kind.isFunctionBoundary_eq, literal, Bool.true_or]

/-- A declared function that is a body stands there as a declaration of its own. -/
theorem isDeclaredFunction_of_role (h : Declares o f d) (hrole : f.node.role = .body) :
    f.node.kind.isDeclaredFunction = true := by
  cases h with
  | function kind => rw [kind]; rfl
  | method _ _ _ memberKind => rw [memberKind]; rfl
  | field _ _ _ _ value => exact nomatch (role_eq_of_child? value).symm.trans hrole
  | @bound _ x _ role _ _ holds value =>
    have hvalue := (role_eq_of_child? value).symm.trans hrole
    rcases holds with ⟨_, rfl⟩ | ⟨_, rfl⟩ <;> cases hvalue

variable {n : Node}

theorem mem_occurrences (h : Declares o f d) (ho : o ∈ n.occurrences) : f ∈ n.occurrences := by
  cases h with
  | function => exact ho
  | method _ body member =>
    exact mem_occurrences_of_mem_children
      (mem_occurrences_of_mem_children ho (mem_children_of_child? body)) member
  | field _ body member _ value =>
    exact mem_occurrences_of_mem_children (mem_occurrences_of_mem_children
      (mem_occurrences_of_mem_children ho (mem_children_of_child? body)) member)
      (mem_children_of_child? value)
  | bound _ child _ value =>
    exact mem_occurrences_of_mem_children (mem_occurrences_of_mem_children ho child)
      (mem_children_of_child? value)

/-- The place of a function tells where it is declared. -/
theorem place_eq (h : Declares o f d) : o.place = f.place.take (f.place.length - f.height) := by
  cases h with
  | function kind => rw [height, kind, Nat.sub_zero, List.take_length]
  | method _ body member memberKind =>
    obtain ⟨i, hbody, _⟩ := place_of_mem_children (mem_children_of_child? body)
    obtain ⟨j, hmember, _⟩ := place_of_mem_children member
    rw [height, memberKind, hmember, hbody]
    simp
  | field _ body member memberKind value literal =>
    obtain ⟨i, hbody, _⟩ := place_of_mem_children (mem_children_of_child? body)
    obtain ⟨j, hmember, _⟩ := place_of_mem_children member
    obtain ⟨k, hvalue, habove⟩ := place_of_mem_children (mem_children_of_child? value)
    rw [height_of_literal literal, habove, hvalue, hmember, hbody]
    simp [way, memberKind]
  | bound _ child holds value literal =>
    obtain ⟨i, hchild, _⟩ := place_of_mem_children child
    obtain ⟨j, hvalue, habove⟩ := place_of_mem_children (mem_children_of_child? value)
    have hfield := (kind_ne_of_holds holds).1
    rw [height_of_literal literal, habove, hvalue, hchild]
    simp [way, hfield]

end Declares

end Occurrence

end CodeSurvey.Ecma
