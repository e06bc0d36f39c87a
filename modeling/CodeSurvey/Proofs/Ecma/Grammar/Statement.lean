import CodeSurvey.Ecma.Grammar.Statement
import CodeSurvey.Proofs.Ecma.Grammar.Expression

/-!
What the rules for variables, loops, branches, jumps and other plain statements read, given that the
goals of the grammar read well: items that are laid out where they were read.
-/

namespace CodeSurvey.Ecma

open Std.Do Production

set_option mvcgen.warning false

namespace Grammar

variable {g : Grammar}
  (hg : ∀ goal c₀, ⦃fun c => ⌜c = c₀⌝⦄ g goal ⦃⇓? n c => ⌜Answers goal c₀ n c⌝⦄)
include hg

/-! ### Variables -/

theorem declaratorRest_spec (allowIn : Bool) (place : Node) (c₀ : Cursor) :
    ⦃fun c => ⌜c = c₀⌝⦄ declaratorRest g allowIn place
    ⦃⇓? n c => ⌜place.WellFormed → place.lastLine ≤ c₀.line → Begun place.line n c⌝⦄ := by
  unfold declaratorRest
  mvcgen [hg]
  all_goals grind -ring -linarith [Kind.fits]

theorem moreDeclarators_spec (allowIn : Bool) (c₀ : Cursor) :
    ⦃fun c => ⌜c = c₀⌝⦄ moreDeclarators g allowIn ⦃⇓? ns c => ⌜Laid c₀.line ns c.line⌝⦄ := by
  have hmanyNodes := @manyNodes_spec
  have hdeclaratorRest := declaratorRest_spec hg
  unfold moreDeclarators
  mvcgen [hg, hmanyNodes, hdeclaratorRest]
  all_goals grind -ring -linarith

omit hg in
@[spec]
theorem atVariables_spec (c₀ : Cursor) :
    ⦃fun c => ⌜c = c₀⌝⦄ atVariables ⦃⇓? _ c => ⌜c = c₀⌝⦄ := by
  unfold atVariables
  mvcgen
  all_goals grind -ring -linarith

omit hg in
@[spec]
theorem atLoneLet_spec (c₀ : Cursor) :
    ⦃fun c => ⌜c = c₀⌝⦄ atLoneLet ⦃⇓? _ c => ⌜c = c₀⌝⦄ := by
  unfold atLoneLet
  mvcgen
  all_goals grind -ring -linarith

omit hg in
@[spec]
theorem variablesKind_spec (c₀ : Cursor) :
    ⦃fun c => ⌜c = c₀⌝⦄ variablesKind
    ⦃⇓? kind c => ⌜c₀.line ≤ c.line ∧
      (kind = .variableDeclaration ∨ kind = .lexicalDeclaration)⌝⦄ := by
  unfold variablesKind
  mvcgen
  all_goals grind -ring -linarith

theorem variableStatement_spec (c₀ : Cursor) :
    ⦃fun c => ⌜c = c₀⌝⦄ variableStatement g ⦃⇓? n c => ⌜ReadAs .item c₀ n c⌝⦄ := by
  have hdeclaratorRest := declaratorRest_spec hg
  have hmoreDeclarators := moreDeclarators_spec hg
  unfold variableStatement
  mvcgen [hg, hdeclaratorRest, hmoreDeclarators]
  all_goals grind -ring -linarith [Kind.fits]

/-! ### Loops -/

theorem stepParts_spec (c₀ : Cursor) :
    ⦃fun c => ⌜c = c₀⌝⦄ stepParts g
    ⦃⇓? ns c => ⌜Laid c₀.line ns c.line ∧ ∀ n ∈ ns, n.role = .item⌝⦄ := by
  unfold stepParts
  mvcgen [hg]
  all_goals grind -ring -linarith [Kind.fits]

omit hg in
@[spec]
theorem atEach_spec (c₀ : Cursor) :
    ⦃fun c => ⌜c = c₀⌝⦄ atEach ⦃⇓? _ c => ⌜c = c₀⌝⦄ := by
  unfold atEach
  mvcgen
  all_goals grind -ring -linarith

omit hg in
@[spec]
theorem atEachWord_spec (c₀ : Cursor) :
    ⦃fun c => ⌜c = c₀⌝⦄ atEachWord ⦃⇓? _ c => ⌜c = c₀⌝⦄ := by
  unfold atEachWord
  mvcgen

theorem eachPart_spec (c₀ : Cursor) :
    ⦃fun c => ⌜c = c₀⌝⦄ eachPart g ⦃⇓? n c => ⌜ReadAs .right c₀ n c⌝⦄ := by
  unfold eachPart
  mvcgen [hg]
  all_goals grind -ring -linarith [Kind.fits]

theorem loopHead_spec (c₀ : Cursor) :
    ⦃fun c => ⌜c = c₀⌝⦄ loopHead g
    ⦃⇓? head c => ⌜Laid c₀.line head.2 c.line ∧
      (head.1 = .forStatement ∨ head.1 = .forInStatement)⌝⦄ := by
  have hstepParts := stepParts_spec hg
  have heachPart := eachPart_spec hg
  have hdeclaratorRest := declaratorRest_spec hg
  have hmoreDeclarators := moreDeclarators_spec hg
  have hmanyNodes := @manyNodes_spec
  unfold loopHead
  mvcgen [hg, hstepParts, heachPart, hdeclaratorRest, hmoreDeclarators, hmanyNodes]
  all_goals grind -ring -linarith [Kind.fits]

theorem forLoop_spec (c₀ : Cursor) :
    ⦃fun c => ⌜c = c₀⌝⦄ forLoop g ⦃⇓? n c => ⌜ReadAs .item c₀ n c⌝⦄ := by
  have hloopHead := loopHead_spec hg
  unfold forLoop
  mvcgen [hg, hloopHead]
  all_goals grind -ring -linarith [Kind.fits]

theorem guarded_spec (kind : Kind) (c₀ : Cursor) :
    ⦃fun c => ⌜c = c₀⌝⦄ guarded g kind
    ⦃⇓? n c => ⌜(∀ ns, kind.fits ns = true) → ReadAs .item c₀ n c⌝⦄ := by
  have hcondition := condition_spec hg
  unfold guarded
  mvcgen [hg, hcondition]
  all_goals grind -ring -linarith [Kind.fits]

theorem doLoop_spec (c₀ : Cursor) :
    ⦃fun c => ⌜c = c₀⌝⦄ doLoop g ⦃⇓? n c => ⌜ReadAs .item c₀ n c⌝⦄ := by
  have hcondition := condition_spec hg
  unfold doLoop
  mvcgen [hg, hcondition]
  all_goals grind -ring -linarith [Kind.fits]

/-! ### Branches and jumps -/

theorem branch_spec (c₀ : Cursor) :
    ⦃fun c => ⌜c = c₀⌝⦄ branch g ⦃⇓? n c => ⌜ReadAs .item c₀ n c⌝⦄ := by
  have hcondition := condition_spec hg
  unfold branch
  mvcgen [hg, hcondition]
  all_goals refine .of_children rfl ?_ ?_
  all_goals grind -ring -linarith [Kind.fits]

omit hg in
@[spec]
theorem atCaseEnd_spec (c₀ : Cursor) :
    ⦃fun c => ⌜c = c₀⌝⦄ atCaseEnd ⦃⇓? _ c => ⌜c = c₀⌝⦄ := by
  unfold atCaseEnd
  mvcgen
  all_goals grind -ring -linarith

theorem switchCase_spec (c₀ : Cursor) :
    ⦃fun c => ⌜c = c₀⌝⦄ switchCase g ⦃⇓? n c => ⌜ReadAs .item c₀ n c⌝⦄ := by
  have hmanyNodes := @manyNodes_spec
  unfold switchCase
  mvcgen [hg, hmanyNodes]
  all_goals grind -ring -linarith [Kind.fits]

theorem switch_spec (c₀ : Cursor) :
    ⦃fun c => ⌜c = c₀⌝⦄ switch g ⦃⇓? n c => ⌜ReadAs .item c₀ n c⌝⦄ := by
  have hcondition := condition_spec hg
  have hmanyNodes := @manyNodes_spec
  have hswitchCase := switchCase_spec hg
  unfold switch
  mvcgen [hg, hcondition, hmanyNodes, hswitchCase]
  all_goals grind -ring -linarith [Kind.fits]

theorem attempt_spec (c₀ : Cursor) :
    ⦃fun c => ⌜c = c₀⌝⦄ attempt g ⦃⇓? n c => ⌜ReadAs .item c₀ n c⌝⦄ := by
  have hblock := block_spec hg
  unfold attempt
  mvcgen [hg, hblock]
  all_goals refine .of_children rfl ?_ ?_
  all_goals grind -ring -linarith [Kind.fits]

omit hg in
@[spec]
theorem atStatementEnd_spec (c₀ : Cursor) :
    ⦃fun c => ⌜c = c₀⌝⦄ atStatementEnd ⦃⇓? _ c => ⌜c = c₀⌝⦄ := by
  unfold atStatementEnd
  mvcgen

omit hg in
theorem jumpStatement_spec {kind : Kind} {argument : Production Node}
    (hkind : ∀ ns, kind.fits ns = true)
    (hargument : ∀ c₀, ⦃fun c => ⌜c = c₀⌝⦄ argument ⦃⇓? n c => ⌜ReadAs .item c₀ n c⌝⦄)
    (c₀ : Cursor) :
    ⦃fun c => ⌜c = c₀⌝⦄ jumpStatement kind argument ⦃⇓? n c => ⌜ReadAs .item c₀ n c⌝⦄ := by
  unfold jumpStatement
  mvcgen [hargument]
  all_goals grind -ring -linarith [Kind.fits]

theorem throwStatement_spec (c₀ : Cursor) :
    ⦃fun c => ⌜c = c₀⌝⦄ throwStatement g ⦃⇓? n c => ⌜ReadAs .item c₀ n c⌝⦄ := by
  unfold throwStatement
  mvcgen [hg]
  all_goals grind -ring -linarith [Kind.fits]

theorem expressionStatement_spec (c₀ : Cursor) :
    ⦃fun c => ⌜c = c₀⌝⦄ expressionStatement g ⦃⇓? n c => ⌜ReadAs .item c₀ n c⌝⦄ := by
  unfold expressionStatement
  mvcgen [hg]
  all_goals grind -ring -linarith [Kind.fits]

theorem labeled_spec (c₀ : Cursor) :
    ⦃fun c => ⌜c = c₀⌝⦄ labeled g ⦃⇓? n c => ⌜ReadAs .item c₀ n c⌝⦄ := by
  unfold labeled
  mvcgen [hg]
  all_goals grind -ring -linarith [Kind.fits]

theorem plainStatement_spec (c₀ : Cursor) :
    ⦃fun c => ⌜c = c₀⌝⦄ plainStatement g ⦃⇓? n c => ⌜ReadAs .item c₀ n c⌝⦄ := by
  have hfunction := named_spec (anyFunction_spec hg true)
  have hclass := named_spec (anyClass_spec hg true)
  have hblock := block_spec hg
  have hbranch := branch_spec hg
  have hforLoop := forLoop_spec hg
  have hguarded := guarded_spec hg
  have hdoLoop := doLoop_spec hg
  have hswitch := switch_spec hg
  have hattempt := attempt_spec hg
  have hjumpStatement := @jumpStatement_spec
  have hthrowStatement := throwStatement_spec hg
  have hvariableStatement := variableStatement_spec hg
  have hlabeled := labeled_spec hg
  have hexpressionStatement := expressionStatement_spec hg
  unfold plainStatement
  mvcgen [hg, hblock, hfunction, hclass, hbranch, hforLoop, hguarded, hdoLoop, hswitch, hattempt,
    hjumpStatement, hthrowStatement, hvariableStatement, hlabeled, hexpressionStatement]
  all_goals grind -ring -linarith [Kind.fits]

end Grammar

end CodeSurvey.Ecma
