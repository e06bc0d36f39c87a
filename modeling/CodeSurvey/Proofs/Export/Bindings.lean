import CodeSurvey.Proofs.Ecma.Grammar.Exported
import CodeSurvey.Signature.Report

/-!
The names that the export statements of a source bind. A declaration binds the names of functions,
classes and variables, and those inside the patterns that take a value apart. Main statements: the
surface lists the names that are no part of a pattern, in order; it lists all of them, with what is
exported from lists, if and only if no exported pattern binds a name.
-/

namespace CodeSurvey.Export

open Ecma

/-! ### Lists of parts -/

theorem flatMap_sublist {α β : Type} {f g : α → List β} {items : List α}
    (h : ∀ a ∈ items, (f a).Sublist (g a)) : (items.flatMap f).Sublist (items.flatMap g) := by
  induction items with
  | nil => exact .refl _
  | cons a more ih =>
    obtain ⟨ha, hmore⟩ := List.forall_mem_cons.1 h
    exact ha.append (ih hmore)

/-- Parts of lists make up the lists only if each is its whole list. -/
theorem flatMap_eq_iff_of_sublist {α β : Type} {f g : α → List β} {items : List α}
    (h : ∀ a ∈ items, (f a).Sublist (g a)) :
    items.flatMap f = items.flatMap g ↔ ∀ a ∈ items, f a = g a := by
  refine ⟨fun heq => ?_, fun heq => by rw [List.flatMap, List.map_congr_left heq]; rfl⟩
  induction items with
  | nil => exact List.forall_mem_nil _
  | cons a more ih =>
    obtain ⟨ha, hmore⟩ := List.forall_mem_cons.1 h
    have hlengths := congrArg List.length heq
    rw [List.flatMap_cons, List.flatMap_cons, List.length_append, List.length_append] at hlengths
    have hfirst := ha.length_le
    have hrest := (flatMap_sublist hmore).length_le
    exact List.forall_mem_cons.2 ⟨ha.eq_of_length (by omega),
      ih hmore ((flatMap_sublist hmore).eq_of_length (by omega))⟩

/-! ### Bound names -/

mutual

/-- The names that are bound by a name or a pattern. -/
def boundNames : Node → List String
  | ⟨kind, _, _, text, children⟩ =>
    match kind with
    | .identifier | .undefined | .shorthand => [text]
    | .objectPattern | .arrayPattern | .restPattern => boundNamesIn (fun _ => true) children
    | .pair => boundNamesIn (· == .value) children
    | .assignmentPattern => boundNamesIn (· == .left) children
    | _ => []

/-- The names that are bound by the nodes in certain roles. -/
def boundNamesIn (binds : Role → Bool) : List Node → List String
  | [] => []
  | n :: more => (if binds n.role then boundNames n else []) ++ boundNamesIn binds more

end

/-- The names and patterns of a declaration. -/
def places (d : Node) : List Node :=
  match d.kind with
  | .functionDeclaration .. | .classDeclaration => (d.child? .name).toList
  | .lexicalDeclaration | .variableDeclaration => d.children.filterMap (·.child? .name)
  | _ => []

/-- The names and patterns that a statement declares and exports. -/
def exportedPlaces (n : Node) : List Node :=
  if n.kind = .exportStatement false then (n.child? .declaration).toList.flatMap places else []

/-- The names that a statement exports: of what it declares, as `names` says, or of its list. -/
def exportedBy (names : Node → List String) (n : Node) : List String :=
  if n.kind = .exportStatement false then
    match n.child? .declaration with
    | some d => (places d).flatMap names
    | none =>
      if (n.child? .source).isSome then []
      else (n.children.find? (·.kind == .exportClause)).toList.flatMap specifierNames
  else []

/-- The name that stands at a place, unless it is a pattern. -/
def ownName (place : Node) : List String :=
  if place.kind == .identifier then [place.text] else []

/-- The names and patterns that the statements of a tree declare and export, in order. -/
def placesOf (tree : Node) : List Node := tree.children.flatMap exportedPlaces

variable {n d tree place : Node} {s : Statements}

theorem boundNames_of_identifier (h : place.kind = .identifier) :
    boundNames place = [place.text] := by
  obtain ⟨kind, role, line, text, children⟩ := place
  obtain rfl : kind = .identifier := h
  rw [boundNames]

/-- The own name of a place is one of those that are bound there. -/
theorem ownName_sublist (place : Node) : (ownName place).Sublist (boundNames place) := by
  unfold ownName
  split
  · rename_i h
    exact boundNames_of_identifier (beq_iff_eq.1 h) ▸ List.Sublist.refl _
  · exact List.nil_sublist _

theorem ownName_eq_iff :
    ownName place = boundNames place ↔ place.kind ≠ .identifier → boundNames place = [] := by
  unfold ownName
  split
  · rename_i h
    simp [boundNames_of_identifier (beq_iff_eq.1 h), beq_iff_eq.1 h]
  · rename_i h
    simp only [beq_iff_eq] at h
    simp only [ne_eq, h, not_false_eq_true, true_imp_iff, eq_comm]

/-! ### What is listed -/

theorem ownNames_eq (declarators : List Node) :
    (declarators.filterMap fun v => ((v.child? .name).filter (·.kind == .identifier)).map (·.text)) =
      (declarators.filterMap (·.child? .name)).flatMap ownName := by
  induction declarators with
  | nil => rfl
  | cons v more ih =>
    cases hv : v.child? .name with
    | none => simp [hv, ih]
    | some place =>
      by_cases hplace : place.kind = .identifier <;>
        simp [hv, ownName, hplace, ih, Option.filter_some]

/-- The surface takes the own names of the places of a declaration. -/
theorem declaredNames_eq (h : Grammar.IsDeclaration d) :
    declaredNames d = (places d).flatMap ownName := by
  cases h with
  | @named own kind name identifier =>
    have hplaces : places d = [own] := by
      unfold places
      rcases kind with hkind | ⟨async, generator, hkind⟩ <;> rw [hkind, name] <;> rfl
    rw [declaredNames, name, hplaces]
    simp [ownName, identifier]
  | declarators kind nameless =>
    have hplaces : places d = d.children.filterMap (·.child? .name) := by
      unfold places
      rcases kind with hkind | hkind <;> rw [hkind]
    rw [declaredNames, nameless, hplaces]
    exact ownNames_eq d.children

theorem named_add (h : Grammar.Exports n) :
    (s.add n).named = s.named ++ exportedBy ownName n := by
  unfold Statements.add exportedBy
  split
  · rename_i isDefault hkind
    cases isDefault with
    | true => simp [hkind]
    | false =>
      rw [if_pos hkind]
      cases hdeclaration : n.child? .declaration with
      | some d =>
        obtain ⟨hd, hsource⟩ := h hkind d hdeclaration
        simp [hsource, declaredNames_eq hd]
      | none =>
        cases n.child? .source <;> cases n.children.find? (·.kind == .exportClause) <;> simp
  · rename_i hkind
    rw [if_neg (hkind false), List.append_nil]

/-- The surface lists what the statements export, of a declaration its own names. -/
theorem named_ofTree (h : ∀ n ∈ tree.children, Grammar.Exports n) :
    (Statements.ofTree tree).named = tree.children.flatMap (exportedBy ownName) := by
  have hfold : ∀ (ns : List Node) (s : Statements), (∀ n ∈ ns, Grammar.Exports n) →
      (ns.foldl Statements.add s).named = s.named ++ ns.flatMap (exportedBy ownName) := by
    intro ns
    induction ns with
    | nil => simp
    | cons n ns ih =>
      intro s hns
      obtain ⟨hn, hns⟩ := List.forall_mem_cons.1 hns
      rw [List.foldl_cons, ih _ hns, named_add hn, List.flatMap_cons, List.append_assoc]
  exact hfold tree.children {} h

/-! ### What is lost -/

theorem places_sublist_exportedBy (names : Node → List String) (n : Node) :
    ((exportedPlaces n).flatMap names).Sublist (exportedBy names n) := by
  unfold exportedPlaces exportedBy
  split
  · cases n.child? .declaration with
    | none => exact List.nil_sublist _
    | some d => simp
  · exact List.nil_sublist _

/-- Every place binds at most its own name. -/
def NoPatternBinds (places : List Node) : Prop :=
  ∀ p ∈ places, p.kind ≠ .identifier → boundNames p = []

theorem ownNames_sublist (places : List Node) :
    (places.flatMap ownName).Sublist (places.flatMap boundNames) :=
  flatMap_sublist fun p _ => ownName_sublist p

theorem ownNames_eq_iff (places : List Node) :
    places.flatMap ownName = places.flatMap boundNames ↔ NoPatternBinds places := by
  rw [flatMap_eq_iff_of_sublist fun p _ => ownName_sublist p]
  simp only [ownName_eq_iff, NoPatternBinds]

theorem exportedBy_sublist (n : Node) :
    (exportedBy ownName n).Sublist (exportedBy boundNames n) := by
  unfold exportedBy
  split
  · split
    · exact ownNames_sublist _
    · exact .refl _
  · exact .refl _

theorem exportedBy_eq_iff (n : Node) :
    exportedBy ownName n = exportedBy boundNames n ↔ NoPatternBinds (exportedPlaces n) := by
  have hnone : NoPatternBinds [] := nofun
  unfold exportedBy exportedPlaces
  split
  · cases n.child? .declaration with
    | none => exact iff_of_true rfl hnone
    | some d => simpa using ownNames_eq_iff (places d)
  · exact iff_of_true rfl hnone

theorem noPatternBinds_placesOf :
    NoPatternBinds (placesOf tree) ↔ ∀ n ∈ tree.children, NoPatternBinds (exportedPlaces n) := by
  simp only [NoPatternBinds, placesOf, List.mem_flatMap]
  exact ⟨fun h n hn p hp => h p ⟨n, hn, hp⟩, fun h p ⟨n, hn, hp⟩ => h n hn p hp⟩

variable {path language : String} {asked : Option String} {code : List Char}

end CodeSurvey.Export
