import CodeSurvey.Ecma.Grammar.Function
import CodeSurvey.Proofs.Ecma.Reading

/-!
What the rules for names, keys, blocks, functions and classes read, given that the goals of the
grammar read well: nodes that are laid out where they were read, in which every function has a body
and every class declaration a name and a class body.
-/

namespace CodeSurvey.Ecma

open Std.Do Production

set_option mvcgen.warning false

namespace Grammar

/-! ### Names and keys -/

@[spec]
theorem atName_spec (c₀ : Cursor) : ⦃fun c => ⌜c = c₀⌝⦄ atName ⦃⇓? _ c => ⌜c = c₀⌝⦄ := by
  unfold atName
  mvcgen
  grind -ring -linarith

@[spec]
theorem name_spec (c₀ : Cursor) :
    ⦃fun c => ⌜c = c₀⌝⦄ name ⦃⇓? n c => ⌜ReadsValue c₀ n c⌝⦄ := by
  unfold name
  mvcgen
  all_goals grind -ring -linarith [Kind.fits, Kind.isDeclaredFunction]

/-- A value that is read as `undefined` stays where it is. -/
theorem readsValue_undefined {c c' : Cursor} {n : Node} (h : ReadsValue c n c') :
    ReadsValue c { n with kind := .undefined } c' := by
  obtain ⟨⟨hlies, hrole⟩, -⟩ := h
  obtain ⟨kind, role, line, text, children⟩ := n
  refine ⟨⟨⟨hlies.begins, ?_, ?_⟩, hrole⟩, rfl⟩
  · exact wellFormed_mk.2 ⟨rfl, (wellFormed_mk.1 hlies.wellFormed).2⟩
  · exact hlies.ends

@[spec]
theorem valueName_spec (c₀ : Cursor) :
    ⦃fun c => ⌜c = c₀⌝⦄ valueName ⦃⇓? n c => ⌜ReadsValue c₀ n c⌝⦄ := by
  unfold valueName
  mvcgen
  all_goals grind -ring -linarith [readsValue_undefined]

@[spec]
theorem stringLiteral_spec (c₀ : Cursor) :
    ⦃fun c => ⌜c = c₀⌝⦄ stringLiteral ⦃⇓? n c => ⌜ReadsValue c₀ n c⌝⦄ := by
  unfold stringLiteral
  mvcgen
  all_goals grind -ring -linarith [Kind.fits, Kind.isDeclaredFunction]

/-- What is read for a goal is an item; only a statement may declare a function itself. -/
@[grind]
structure Answers (goal : Goal) (c : Cursor) (n : Node) (c' : Cursor) : Prop where
  readAs : ReadAs .item c n c'
  kind : goal ≠ .statement → n.kind.isDeclaredFunction = false

variable {g : Grammar}
  (hg : ∀ goal c₀, ⦃fun c => ⌜c = c₀⌝⦄ g goal ⦃⇓? n c => ⌜Answers goal c₀ n c⌝⦄)
include hg

theorem propertyKey_spec (c₀ : Cursor) :
    ⦃fun c => ⌜c = c₀⌝⦄ propertyKey g ⦃⇓? n c => ⌜ReadAs .name c₀ n c⌝⦄ := by
  unfold propertyKey
  mvcgen [hg]
  all_goals grind -ring -linarith [Kind.fits]

theorem condition_spec (c₀ : Cursor) :
    ⦃fun c => ⌜c = c₀⌝⦄ condition g ⦃⇓? n c => ⌜ReadAs .item c₀ n c⌝⦄ := by
  unfold condition
  mvcgen [hg]
  all_goals grind -ring -linarith [Kind.fits]

theorem block_spec (c₀ : Cursor) :
    ⦃fun c => ⌜c = c₀⌝⦄ block g ⦃⇓? n c => ⌜ReadAs .item c₀ n c ∧ n.kind = .block⌝⦄ := by
  have hmanyNodes := @manyNodes_spec
  unfold block
  mvcgen [hg, hmanyNodes]
  all_goals grind -ring -linarith [Kind.fits]

/-- The names of a dotted path behind the first one. -/
theorem path_spec (c₀ : Cursor) :
    ⦃fun c => ⌜c = c₀⌝⦄ manyWhile (skipSign ".") (propertyKey g)
    ⦃⇓? ns c => ⌜Laid c₀.line (ns.map (·.as .item)) c.line⌝⦄ := by
  have hkey : ∀ c₁, ⦃fun c => ⌜c = c₁⌝⦄ propertyKey g
      ⦃⇓? n c => ⌜Laid c₁.line [n.as .item] c.line ∧ True⌝⦄ := by
    intro c₁
    have hkey := propertyKey_spec hg
    mvcgen [hkey]
    grind -ring -linarith
  have hmany := manyWhile_spec (fun n : Node => [n.as .item]) (fun _ => True) (skipSign_spec ".")
    hkey c₀
  simpa only [← List.map_eq_flatMap, implies_true, and_true] using hmany

theorem decorator_spec (c₀ : Cursor) :
    ⦃fun c => ⌜c = c₀⌝⦄ decorator g ⦃⇓? n c => ⌜ReadAs .item c₀ n c⌝⦄ := by
  have hpath := path_spec hg
  have hcondition := condition_spec hg
  have hlistNodes := @listNodes_spec
  unfold decorator
  mvcgen [hg, hcondition, hpath, hlistNodes]
  all_goals grind -ring -linarith [Kind.fits]

/-- Decorators are items. -/
theorem decorators_spec (c₀ : Cursor) :
    ⦃fun c => ⌜c = c₀⌝⦄ decorators g
    ⦃⇓? ns c => ⌜Laid c₀.line ns c.line ∧ ∀ n ∈ ns, n.role = .item⌝⦄ := by
  have hmany := @manyWhile_spec Node (fun n => [n]) (·.role = .item)
  simp only [List.flatMap_singleton'] at hmany
  have hdecorator := decorator_spec hg
  unfold decorators
  mvcgen [hg, hmany, hdecorator]
  all_goals grind -ring -linarith

/-! ### Functions -/

theorem withDefault_spec (target : Node) (c₀ : Cursor) :
    ⦃fun c => ⌜c = c₀⌝⦄ withDefault g target
    ⦃⇓? n c => ⌜target.WellFormed → target.lastLine ≤ c₀.line → target.role = .item →
      Begun target.line n c⌝⦄ := by
  unfold withDefault
  mvcgen [hg]
  all_goals grind -ring -linarith [Kind.fits]

theorem parameter_spec (c₀ : Cursor) :
    ⦃fun c => ⌜c = c₀⌝⦄ parameter g ⦃⇓? ns c => ⌜Laid c₀.line ns c.line⌝⦄ := by
  have hdecorators := decorators_spec hg
  have hwithDefault := withDefault_spec hg
  unfold parameter
  mvcgen [hg, hdecorators, hwithDefault]
  all_goals grind -ring -linarith [Kind.fits]

theorem parameters_spec (c₀ : Cursor) :
    ⦃fun c => ⌜c = c₀⌝⦄ parameters g ⦃⇓? n c => ⌜ReadAs .parameters c₀ n c⌝⦄ := by
  have hlist := @listUntil_spec (List Node) id fun _ => True
  simp only [List.flatMap_id] at hlist
  have hparameter := parameter_spec hg
  unfold parameters
  mvcgen [hg, hlist, hparameter]
  all_goals grind -ring -linarith [Kind.fits]

/-- The parts of a function behind its name. -/
@[grind]
structure FunctionParts (c : Cursor) (parts : List Node) (c' : Cursor) : Prop where
  laid : Laid c.line parts c'.line
  body : (partOf parts .body).any (!·.kind.isDeclaredFunction)

theorem functionRest_spec (c₀ : Cursor) :
    ⦃fun c => ⌜c = c₀⌝⦄ functionRest g ⦃⇓? ns c => ⌜FunctionParts c₀ ns c⌝⦄ := by
  have hparameters := parameters_spec hg
  have hblock := block_spec hg
  unfold functionRest
  mvcgen [hg, hparameters, hblock]
  all_goals grind -ring -linarith [Kind.isDeclaredFunction]

theorem function_spec (declares async : Bool) (line : Nat) (c₀ : Cursor) :
    ⦃fun c => ⌜c = c₀⌝⦄ function g declares async line
    ⦃⇓? n c => ⌜line ≤ c₀.line →
      Begun line n c ∧ (declares = false → n.kind.isDeclaredFunction = false)⌝⦄ := by
  have hfunctionRest := functionRest_spec hg
  unfold function
  mvcgen [hg, hfunctionRest]
  all_goals grind -ring -linarith [Kind.fits, Kind.isDeclaredFunction]

omit hg in
@[spec]
theorem atAsyncFunction_spec (c₀ : Cursor) :
    ⦃fun c => ⌜c = c₀⌝⦄ atAsyncFunction ⦃⇓? _ c => ⌜c = c₀⌝⦄ := by
  unfold atAsyncFunction
  mvcgen
  all_goals grind -ring -linarith

theorem anyFunction_spec (declares : Bool) (c₀ : Cursor) :
    ⦃fun c => ⌜c = c₀⌝⦄ anyFunction g declares
    ⦃⇓? n c => ⌜ReadAs .item c₀ n c ∧ (declares = false → n.kind.isDeclaredFunction = false)⌝⦄ := by
  have hfunction := function_spec hg
  unfold anyFunction
  mvcgen [hg, hfunction]
  all_goals grind -ring -linarith

omit hg in
@[spec]
theorem atArrow_spec (c₀ : Cursor) :
    ⦃fun c => ⌜c = c₀⌝⦄ atArrow ⦃⇓? _ c => ⌜c = c₀⌝⦄ := by
  unfold atArrow
  mvcgen

theorem arrow_spec (allowIn async : Bool) (line : Nat) (params : Node) (c₀ : Cursor) :
    ⦃fun c => ⌜c = c₀⌝⦄ arrow g allowIn async line params
    ⦃⇓? n c => ⌜Lies line params c₀.line → params.role ≠ .body →
      Begun line n c ∧ n.kind.isDeclaredFunction = false⌝⦄ := by
  have hblock := block_spec hg
  unfold arrow
  mvcgen [hg, hblock]
  all_goals grind -ring -linarith [Kind.fits, Kind.isDeclaredFunction]

theorem nameArrow_spec (allowIn async : Bool) (line : Nat) (c₀ : Cursor) :
    ⦃fun c => ⌜c = c₀⌝⦄ nameArrow g allowIn async line
    ⦃⇓? n c => ⌜line ≤ c₀.line → Begun line n c ∧ n.kind.isDeclaredFunction = false⌝⦄ := by
  have harrow := arrow_spec hg
  unfold nameArrow
  mvcgen [hg, harrow]
  all_goals grind -ring -linarith

theorem listArrow_spec (allowIn async : Bool) (line : Nat) (list : Node) (c₀ : Cursor) :
    ⦃fun c => ⌜c = c₀⌝⦄ listArrow g allowIn async line list
    ⦃⇓? n c => ⌜Lies line list c₀.line → Begun line n c ∧ n.kind.isDeclaredFunction = false⌝⦄ := by
  have harrow := arrow_spec hg
  unfold listArrow
  mvcgen [hg, harrow]
  all_goals grind -ring -linarith [Kind.fits]

omit hg in
@[spec]
theorem methodMarks_spec (c₀ : Cursor) :
    ⦃fun c => ⌜c = c₀⌝⦄ methodMarks ⦃⇓? _ c => ⌜c₀.line ≤ c.line⌝⦄ := by
  unfold methodMarks
  mvcgen
  all_goals grind -ring -linarith

theorem method_spec (marks : MethodMarks) (line : Nat) (decorated : List Node) (key : Node)
    (c₀ : Cursor) :
    ⦃fun c => ⌜c = c₀⌝⦄ method g marks line decorated key
    ⦃⇓? n c => ⌜Laid line (decorated ++ [key]) c₀.line → (∀ n ∈ decorated, n.role = .item) →
      key.role = .name → Begun line n c⌝⦄ := by
  have hfunctionRest := functionRest_spec hg
  unfold method
  mvcgen [hg, hfunctionRest]
  all_goals grind -ring -linarith [Kind.fits]

/-! ### Classes -/

omit hg in
@[spec]
theorem atLoneWord_spec (c₀ : Cursor) :
    ⦃fun c => ⌜c = c₀⌝⦄ atLoneWord ⦃⇓? _ c => ⌜c = c₀⌝⦄ := by
  unfold atLoneWord
  mvcgen
  grind -ring -linarith

omit hg in
@[spec]
theorem skipStatic_spec (c₀ : Cursor) :
    ⦃fun c => ⌜c = c₀⌝⦄ skipStatic ⦃⇓? _ c => ⌜c₀.line ≤ c.line⌝⦄ := by
  unfold skipStatic
  mvcgen
  all_goals grind -ring -linarith

theorem field_spec (line : Nat) (decorated : List Node) (key : Node) (c₀ : Cursor) :
    ⦃fun c => ⌜c = c₀⌝⦄ field g line decorated key
    ⦃⇓? n c => ⌜Laid line (decorated ++ [key]) c₀.line → Begun line n c⌝⦄ := by
  unfold field
  mvcgen [hg]
  all_goals grind -ring -linarith [Kind.fits]

theorem classMember_spec (c₀ : Cursor) :
    ⦃fun c => ⌜c = c₀⌝⦄ classMember g ⦃⇓? n c => ⌜ReadAs .item c₀ n c⌝⦄ := by
  have hdecorators := decorators_spec hg
  have hblock := block_spec hg
  have hpropertyKey := propertyKey_spec hg
  have hmethod := method_spec hg
  have hfield := field_spec hg
  unfold classMember
  mvcgen [hg, hdecorators, hblock, hpropertyKey, hmethod, hfield]
  all_goals grind -ring -linarith [Kind.fits]

theorem classFrom_spec (declares : Bool) (line : Nat) (decorated : List Node) (c₀ : Cursor) :
    ⦃fun c => ⌜c = c₀⌝⦄ classFrom g declares line decorated
    ⦃⇓? n c => ⌜Laid line decorated c₀.line → (∀ n ∈ decorated, n.role = .item) →
      Begun line n c ∧ n.kind.isDeclaredFunction = false⌝⦄ := by
  have hmany := @manyWhile_spec (Option Node) (fun n => (id n).toList) fun _ => True
  simp only [← List.filterMap_eq_flatMap_toList] at hmany
  have hclassMember := classMember_spec hg
  unfold classFrom
  mvcgen [hg, hmany, hclassMember]
  all_goals grind -ring -linarith [Kind.fits, Kind.isDeclaredFunction]

omit hg in
theorem named_spec {declaration : Production Node} {Q : Cursor → Node → Cursor → Prop}
    (h : ∀ c₀, ⦃fun c => ⌜c = c₀⌝⦄ declaration ⦃⇓? n c => ⌜Q c₀ n c⌝⦄) (c₀ : Cursor) :
    ⦃fun c => ⌜c = c₀⌝⦄ named declaration ⦃⇓? n c => ⌜Q c₀ n c⌝⦄ := by
  unfold named
  mvcgen [h]
  all_goals grind -ring -linarith

theorem anyClass_spec (declares : Bool) (c₀ : Cursor) :
    ⦃fun c => ⌜c = c₀⌝⦄ anyClass g declares ⦃⇓? n c => ⌜ReadsValue c₀ n c⌝⦄ := by
  have hdecorators := decorators_spec hg
  have hclassFrom := classFrom_spec hg
  unfold anyClass
  mvcgen [hg, hdecorators, hclassFrom]
  all_goals grind -ring -linarith

end Grammar

end CodeSurvey.Ecma
