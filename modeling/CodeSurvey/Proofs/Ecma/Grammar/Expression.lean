import CodeSurvey.Ecma.Grammar.Expression
import CodeSurvey.Proofs.Ecma.Grammar.Function

/-!
What the rules for literals, markup and expressions read, given that the goals of the grammar read
well: nodes that are laid out where they were read, none of which declares a function itself.
-/

namespace CodeSurvey.Ecma

open Std.Do Production

set_option mvcgen.warning false

namespace Grammar

variable {g : Grammar}
  (hg : ∀ goal c₀, ⦃fun c => ⌜c = c₀⌝⦄ g goal ⦃⇓? n c => ⌜Answers goal c₀ n c⌝⦄)
include hg

/-! ### Literals -/

theorem spreadable_spec (c₀ : Cursor) :
    ⦃fun c => ⌜c = c₀⌝⦄ spreadable g ⦃⇓? n c => ⌜ReadAs .item c₀ n c⌝⦄ := by
  unfold spreadable
  mvcgen [hg]
  all_goals grind -ring -linarith [Kind.fits]

theorem arguments_spec (c₀ : Cursor) :
    ⦃fun c => ⌜c = c₀⌝⦄ arguments g ⦃⇓? n c => ⌜ReadAs .item c₀ n c⌝⦄ := by
  have hlistNodes := @listNodes_spec
  have hspreadable := spreadable_spec hg
  unfold arguments
  mvcgen [hg, hlistNodes, hspreadable]
  all_goals grind -ring -linarith [Kind.fits]

theorem array_spec (c₀ : Cursor) :
    ⦃fun c => ⌜c = c₀⌝⦄ array g ⦃⇓? n c => ⌜ReadAs .item c₀ n c ∧ n.kind = .array⌝⦄ := by
  have hlist := @listUntil_spec (Option Node) (fun n => (id n).toList) fun _ => True
  simp only [← List.filterMap_eq_flatMap_toList] at hlist
  have hspreadable := spreadable_spec hg
  unfold array
  mvcgen [hg, hlist, hspreadable]
  all_goals grind -ring -linarith [Kind.fits]

theorem objectProperty_spec (c₀ : Cursor) :
    ⦃fun c => ⌜c = c₀⌝⦄ objectProperty g ⦃⇓? n c => ⌜ReadAs .item c₀ n c⌝⦄ := by
  have hspreadable := spreadable_spec hg
  have hpropertyKey := propertyKey_spec hg
  have hmethod := method_spec hg
  unfold objectProperty
  mvcgen [hg, hspreadable, hpropertyKey, hmethod]
  all_goals grind -ring -linarith [Kind.fits]

theorem object_spec (c₀ : Cursor) :
    ⦃fun c => ⌜c = c₀⌝⦄ object g ⦃⇓? n c => ⌜ReadAs .item c₀ n c ∧ n.kind = .object⌝⦄ := by
  have hlistNodes := @listNodes_spec
  have hobjectProperty := objectProperty_spec hg
  unfold object
  mvcgen [hg, hlistNodes, hobjectProperty]
  all_goals grind -ring -linarith [Kind.fits]

theorem template_spec (c₀ : Cursor) :
    ⦃fun c => ⌜c = c₀⌝⦄ template g ⦃⇓? n c => ⌜ReadsValue c₀ n c⌝⦄ := by
  -- The parts end before the line on which the next stretch of text ends.
  have hloop := @iterate_spec (List Node × List Char × Nat) fun state _ =>
    Laid c₀.line state.1.reverse state.2.2
  unfold template
  mvcgen [hg, hloop]
  all_goals grind -ring -linarith [Kind.fits, Kind.isDeclaredFunction]

omit hg in
@[spec]
theorem regularExpression_spec (c₀ : Cursor) :
    ⦃fun c => ⌜c = c₀⌝⦄ regularExpression ⦃⇓? n c => ⌜ReadsValue c₀ n c⌝⦄ := by
  unfold regularExpression
  mvcgen
  all_goals grind -ring -linarith [Kind.fits, Kind.isDeclaredFunction]

theorem parenthesised_spec (c₀ : Cursor) :
    ⦃fun c => ⌜c = c₀⌝⦄ parenthesised g ⦃⇓? n c => ⌜ReadsValue c₀ n c⌝⦄ := by
  have hmany := @manyWhile_spec (Node × Bool) (fun item => [item.1]) fun _ => True
  simp only [← List.map_eq_flatMap] at hmany
  have hspreadable := spreadable_spec hg
  unfold parenthesised
  mvcgen [hg, hmany, hspreadable]
  all_goals grind -ring -linarith [Kind.fits, Kind.isDeclaredFunction]

/-! ### Markup -/

section Markup

omit hg

@[spec]
theorem atChar_spec (ch : Char) (c₀ : Cursor) :
    ⦃fun c => ⌜c = c₀⌝⦄ atChar ch ⦃⇓? _ c => ⌜c = c₀⌝⦄ := by
  unfold atChar
  mvcgen

@[spec]
theorem skipChar_spec (ch : Char) (c₀ : Cursor) :
    ⦃fun c => ⌜c = c₀⌝⦄ skipChar ch ⦃⇓? _ c => ⌜c₀.line ≤ c.line⌝⦄ := by
  unfold skipChar
  mvcgen
  all_goals grind -ring -linarith

@[spec]
theorem spelledBy_spec (p : Pattern) (c₀ : Cursor) :
    ⦃fun c => ⌜c = c₀⌝⦄ spelledBy p ⦃⇓? _ c => ⌜c₀.line ≤ c.line⌝⦄ := by
  unfold spelledBy
  mvcgen
  all_goals grind -ring -linarith

@[spec]
theorem attributeName_spec (c₀ : Cursor) :
    ⦃fun c => ⌜c = c₀⌝⦄ attributeName ⦃⇓? _ c => ⌜c₀.line ≤ c.line⌝⦄ := by
  unfold attributeName
  mvcgen
  all_goals grind -ring -linarith

/-- Reading parts of a text alone moves on. -/
theorem manyTexts_spec {α : Type} {more : Production Bool} {item : Production α}
    (hmore : ∀ c₀, ⦃fun c => ⌜c = c₀⌝⦄ more ⦃⇓? _ c => ⌜c₀.line ≤ c.line⌝⦄)
    (hitem : ∀ c₀, ⦃fun c => ⌜c = c₀⌝⦄ item ⦃⇓? _ c => ⌜c₀.line ≤ c.line⌝⦄) (c₀ : Cursor) :
    ⦃fun c => ⌜c = c₀⌝⦄ manyWhile more item ⦃⇓? _ c => ⌜c₀.line ≤ c.line⌝⦄ := by
  have hloop := @iterate_spec (List α) fun _ c => c₀.line ≤ c.line
  unfold manyWhile
  mvcgen [hloop, hmore, hitem]
  all_goals grind -ring -linarith

@[spec]
theorem elementName_spec (c₀ : Cursor) :
    ⦃fun c => ⌜c = c₀⌝⦄ elementName ⦃⇓? n c => ⌜ReadAs .name c₀ n c⌝⦄ := by
  have hmanyTexts := @manyTexts_spec
  unfold elementName
  mvcgen [hmanyTexts]
  all_goals grind -ring -linarith [Kind.fits]

end Markup

/-- At most one node stands in braces, so the nodes are the same in reverse. -/
theorem embedded_spec (c₀ : Cursor) :
    ⦃fun c => ⌜c = c₀⌝⦄ embedded g ⦃⇓? ns c => ⌜Laid c₀.line ns c.line ∧ ns.reverse = ns⌝⦄ := by
  unfold embedded
  mvcgen [hg]
  all_goals grind -ring -linarith [Kind.fits]

theorem elementAttribute_spec (c₀ : Cursor) :
    ⦃fun c => ⌜c = c₀⌝⦄ elementAttribute g ⦃⇓? n c => ⌜ReadAs .item c₀ n c⌝⦄ := by
  have hembedded := embedded_spec hg
  unfold elementAttribute
  mvcgen [hg, hembedded]
  all_goals grind -ring -linarith [Kind.fits]

theorem attributes_spec (c₀ : Cursor) :
    ⦃fun c => ⌜c = c₀⌝⦄ attributes g ⦃⇓? ns c => ⌜Laid c₀.line ns c.line⌝⦄ := by
  have hmanyNodes := @manyNodes_spec
  have helementAttribute := elementAttribute_spec hg
  unfold attributes
  mvcgen [hg, hmanyNodes, helementAttribute]
  all_goals grind -ring -linarith

theorem elementChildren_spec (source : List Char) (line : Nat) (c₀ : Cursor) :
    ⦃fun c => ⌜c = c₀⌝⦄ elementChildren g source line
    ⦃⇓? ns c => ⌜line ≤ c₀.line → Laid line ns c.line⌝⦄ := by
  -- The nodes end before the cursor, which stays where it is when the source runs out, and before
  -- the line on which the next stretch of text ends, to which the cursor jumps else.
  have hloop := @iterate_spec (List Node × List Char × Nat) fun state c => line ≤ c₀.line →
    Laid line state.1.reverse c.line ∧ Laid line state.1.reverse state.2.2
  have hembedded := embedded_spec hg
  unfold elementChildren
  mvcgen [hg, hloop, hembedded]
  all_goals grind -ring -linarith [Kind.fits]

theorem elementRest_spec (c₀ : Cursor) :
    ⦃fun c => ⌜c = c₀⌝⦄ elementRest g ⦃⇓? ns c => ⌜Laid c₀.line ns c.line⌝⦄ := by
  have helementChildren := elementChildren_spec hg
  unfold elementRest
  mvcgen [hg, helementChildren]
  all_goals grind -ring -linarith

theorem element_spec (c₀ : Cursor) :
    ⦃fun c => ⌜c = c₀⌝⦄ element g ⦃⇓? n c => ⌜ReadsValue c₀ n c⌝⦄ := by
  have hattributes := attributes_spec hg
  have helementRest := elementRest_spec hg
  unfold element
  mvcgen [hg, hattributes, helementRest]
  all_goals grind -ring -linarith [Kind.fits, Kind.isDeclaredFunction]

theorem elementValue_spec (c₀ : Cursor) :
    ⦃fun c => ⌜c = c₀⌝⦄ elementValue g ⦃⇓? n c => ⌜ReadsValue c₀ n c⌝⦄ := by
  unfold elementValue
  mvcgen [hg]
  all_goals grind -ring -linarith

/-! ### Operands -/

omit hg in
@[spec]
theorem importValue_spec (calls : Bool) (c₀ : Cursor) :
    ⦃fun c => ⌜c = c₀⌝⦄ importValue calls ⦃⇓? n c => ⌜ReadsValue c₀ n c⌝⦄ := by
  unfold importValue
  mvcgen
  all_goals grind -ring -linarith [Kind.fits, Kind.isDeclaredFunction]

theorem value_spec (calls : Bool) (c₀ : Cursor) :
    ⦃fun c => ⌜c = c₀⌝⦄ value g calls ⦃⇓? n c => ⌜ReadsValue c₀ n c⌝⦄ := by
  have hparenthesised := parenthesised_spec hg
  have harray := array_spec hg
  have hobject := object_spec hg
  have htemplate := template_spec hg
  have helementValue := elementValue_spec hg
  have hanyClass := anyClass_spec hg
  have hanyFunction := anyFunction_spec hg
  unfold value
  mvcgen [hg, hparenthesised, harray, hobject, htemplate, helementValue, hanyClass, hanyFunction]
  all_goals grind -ring -linarith [Kind.fits, Kind.isDeclaredFunction]

omit hg in
@[spec]
theorem memberName_spec (c₀ : Cursor) :
    ⦃fun c => ⌜c = c₀⌝⦄ memberName ⦃⇓? n c => ⌜ReadAs .property c₀ n c⌝⦄ := by
  unfold memberName
  mvcgen
  all_goals grind -ring -linarith [Kind.fits]

theorem newInstance_spec (c₀ : Cursor) :
    ⦃fun c => ⌜c = c₀⌝⦄ newInstance g ⦃⇓? n c => ⌜ReadsValue c₀ n c⌝⦄ := by
  have harguments := arguments_spec hg
  unfold newInstance
  mvcgen [hg, harguments]
  all_goals grind -ring -linarith [Kind.fits, Kind.isDeclaredFunction]

/-- One more link makes a value of a value. -/
theorem chainStep_spec (calls : Bool) (start : Cursor) (object : Node) :
    ⦃fun c => ⌜ReadsValue start object c⌝⦄ chainStep g calls object
    ⦃⇓? r c => ⌜ReadsValue start (r.getD object) c⌝⦄ := by
  have harguments := arguments_spec hg
  have htemplate := template_spec hg
  unfold chainStep
  mvcgen [hg, harguments, htemplate]
  all_goals grind -ring -linarith [Kind.fits, Kind.isDeclaredFunction]

theorem chain_spec (calls : Bool) (c₀ : Cursor) :
    ⦃fun c => ⌜c = c₀⌝⦄ chain g calls ⦃⇓? n c => ⌜ReadsValue c₀ n c⌝⦄ := by
  have hloop := iterate_spec (fun n c => ReadsValue c₀ n c) (chainStep_spec hg calls c₀)
  have hnewInstance := newInstance_spec hg
  have hvalue := value_spec hg
  unfold chain
  mvcgen [hg, hnewInstance, hvalue, hloop]
  all_goals grind -ring -linarith

theorem updated_spec (c₀ : Cursor) :
    ⦃fun c => ⌜c = c₀⌝⦄ updated g ⦃⇓? n c => ⌜ReadsValue c₀ n c⌝⦄ := by
  have hchain := chain_spec hg
  unfold updated
  mvcgen [hg, hchain]
  all_goals grind -ring -linarith [Kind.fits, Kind.isDeclaredFunction]

/-- The node behind a mark makes a value of any kind that needs no parts. -/
theorem marked_spec (kind : Kind) (c₀ : Cursor) :
    ⦃fun c => ⌜c = c₀⌝⦄ marked g kind
    ⦃⇓? n c => ⌜(∀ ns, kind.fits ns = true) → kind.isDeclaredFunction = false →
      ReadsValue c₀ n c⌝⦄ := by
  unfold marked
  mvcgen [hg]
  all_goals grind -ring -linarith

omit hg in
@[spec]
theorem atAwaitName_spec (c₀ : Cursor) :
    ⦃fun c => ⌜c = c₀⌝⦄ atAwaitName ⦃⇓? _ c => ⌜c = c₀⌝⦄ := by
  unfold atAwaitName
  mvcgen

theorem awaiting_spec (c₀ : Cursor) :
    ⦃fun c => ⌜c = c₀⌝⦄ awaiting g ⦃⇓? n c => ⌜ReadsValue c₀ n c⌝⦄ := by
  have hor := @orElse_spec Node ReadsValue
  have hmarked := marked_spec hg
  have hupdated := updated_spec hg
  unfold awaiting
  mvcgen [hg, hmarked, hupdated, hor]
  all_goals grind -ring -linarith [Kind.fits, Kind.isDeclaredFunction]

theorem operand_spec (c₀ : Cursor) :
    ⦃fun c => ⌜c = c₀⌝⦄ operand g ⦃⇓? n c => ⌜ReadsValue c₀ n c⌝⦄ := by
  have hor := @orElse_spec Node ReadsValue
  have hmarked := marked_spec hg
  have hupdated := updated_spec hg
  have hawaiting := awaiting_spec hg
  unfold operand
  mvcgen [hg, hmarked, hupdated, hawaiting, hor]
  all_goals grind -ring -linarith [Kind.fits, Kind.isDeclaredFunction]

/-! ### Expressions -/

theorem operation_spec (level : Nat) (allowIn : Bool) (c₀ : Cursor) :
    ⦃fun c => ⌜c = c₀⌝⦄ operation g level allowIn ⦃⇓? n c => ⌜ReadsValue c₀ n c⌝⦄ := by
  have hloop := @iterate_spec Node fun n c => ReadsValue c₀ n c
  have hoperand := operand_spec hg
  unfold operation
  mvcgen [hg, hoperand, hloop]
  all_goals grind -ring -linarith [Kind.fits, Kind.isDeclaredFunction]

theorem conditional_spec (allowIn : Bool) (c₀ : Cursor) :
    ⦃fun c => ⌜c = c₀⌝⦄ conditional g allowIn ⦃⇓? n c => ⌜ReadsValue c₀ n c⌝⦄ := by
  have hoperation := operation_spec hg
  unfold conditional
  mvcgen [hg, hoperation]
  all_goals grind -ring -linarith [Kind.fits, Kind.isDeclaredFunction]

omit hg in
@[grind →]
theorem lies_asyncArguments? {n list : Node} (h : asyncArguments? n = some list)
    (hn : n.WellFormed) : Lies n.line list n.lastLine := by
  have hlaid := hn.laid_children
  unfold asyncArguments? at h
  split at h
  · rename_i callee arguments _ hchildren
    split at h
    · cases h
      rw [hchildren] at hlaid
      grind -ring -linarith
    · cases h
  · cases h

theorem assignmentFrom_spec (allowIn : Bool) (c₀ : Cursor) :
    ⦃fun c => ⌜c = c₀⌝⦄ assignmentFrom g allowIn ⦃⇓? n c => ⌜ReadsValue c₀ n c⌝⦄ := by
  have hconditional := conditional_spec hg
  have hlistArrow := listArrow_spec hg
  unfold assignmentFrom
  mvcgen [hg, hconditional, hlistArrow]
  all_goals grind -ring -linarith [Kind.fits, Kind.isDeclaredFunction]

theorem yielding_spec (allowIn : Bool) (c₀ : Cursor) :
    ⦃fun c => ⌜c = c₀⌝⦄ yielding g allowIn ⦃⇓? n c => ⌜ReadsValue c₀ n c⌝⦄ := by
  have hassignmentFrom := assignmentFrom_spec hg
  unfold yielding
  mvcgen [hg, hassignmentFrom]
  case vc2 =>
    -- Whether a value begins here is all the same to the layout.
    refine .of_children rfl rfl ?_ ?_
    · grind -ring -linarith
    · grind -ring -linarith
  all_goals grind -ring -linarith [Kind.fits, Kind.isDeclaredFunction]

theorem assignment_spec (allowIn : Bool) (c₀ : Cursor) :
    ⦃fun c => ⌜c = c₀⌝⦄ assignment g allowIn ⦃⇓? n c => ⌜ReadsValue c₀ n c⌝⦄ := by
  have hyielding := yielding_spec hg
  have hnameArrow := nameArrow_spec hg
  have hassignmentFrom := assignmentFrom_spec hg
  unfold assignment
  mvcgen [hg, hyielding, hnameArrow, hassignmentFrom]
  all_goals grind -ring -linarith

theorem expression_spec (c₀ : Cursor) :
    ⦃fun c => ⌜c = c₀⌝⦄ expression g ⦃⇓? n c => ⌜ReadsValue c₀ n c⌝⦄ := by
  have hmanyNodes := @manyNodes_spec
  unfold expression
  mvcgen [hg, hmanyNodes]
  all_goals grind -ring -linarith [Kind.fits, Kind.isDeclaredFunction]

theorem target_spec (c₀ : Cursor) :
    ⦃fun c => ⌜c = c₀⌝⦄ target g ⦃⇓? n c => ⌜ReadsValue c₀ n c⌝⦄ := by
  have harray := array_spec hg
  have hobject := object_spec hg
  unfold target
  mvcgen [hg, harray, hobject]
  all_goals grind -ring -linarith

end Grammar
end CodeSurvey.Ecma
