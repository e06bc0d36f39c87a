import CodeSurvey.Ecma.Parse
import CodeSurvey.Proofs.Ecma.Grammar.Statement

/-!
What the rules for imports, exports and the whole source read, given that the goals of the grammar
read well, and so, by induction on the depth to which the goals nest, what the grammar itself reads.
Main statement: the tree of every source is well formed.
-/

namespace CodeSurvey.Ecma

open Std.Do Production

set_option mvcgen.warning false

namespace Grammar

/-! ### Lists of names -/

@[spec]
theorem listedName_spec (c₀ : Cursor) :
    ⦃fun c => ⌜c = c₀⌝⦄ listedName ⦃⇓? n c => ⌜ReadsValue c₀ n c⌝⦄ := by
  unfold listedName
  mvcgen
  all_goals grind -ring -linarith [Kind.fits, Kind.isDeclaredFunction]

@[spec]
theorem exportSpecifier_spec (c₀ : Cursor) :
    ⦃fun c => ⌜c = c₀⌝⦄ exportSpecifier ⦃⇓? n c => ⌜ReadAs .item c₀ n c⌝⦄ := by
  unfold exportSpecifier
  mvcgen
  all_goals grind -ring -linarith [Kind.fits]

@[spec]
theorem importSpecifier_spec (c₀ : Cursor) :
    ⦃fun c => ⌜c = c₀⌝⦄ importSpecifier ⦃⇓? _ c => ⌜c₀.line ≤ c.line⌝⦄ := by
  unfold importSpecifier
  mvcgen
  all_goals grind -ring -linarith

@[spec]
theorem exportClause_spec (c₀ : Cursor) :
    ⦃fun c => ⌜c = c₀⌝⦄ exportClause ⦃⇓? n c => ⌜ReadAs .item c₀ n c⌝⦄ := by
  have hlistNodes := @listNodes_spec
  unfold exportClause
  mvcgen [hlistNodes]
  all_goals grind -ring -linarith [Kind.fits]

theorem listTexts_spec {α : Type} {item : Production α} (close : String)
    (hitem : ∀ c₀, ⦃fun c => ⌜c = c₀⌝⦄ item ⦃⇓? _ c => ⌜c₀.line ≤ c.line⌝⦄) (c₀ : Cursor) :
    ⦃fun c => ⌜c = c₀⌝⦄ listUntil close item ⦃⇓? _ c => ⌜c₀.line ≤ c.line⌝⦄ := by
  have hmanyTexts := @manyTexts_spec
  unfold listUntil
  mvcgen [hmanyTexts, hitem]
  all_goals grind -ring -linarith

@[spec]
theorem importClause_spec (c₀ : Cursor) :
    ⦃fun c => ⌜c = c₀⌝⦄ importClause ⦃⇓? _ c => ⌜c₀.line ≤ c.line⌝⦄ := by
  have hlistTexts := @listTexts_spec
  unfold importClause
  mvcgen [hlistTexts]
  all_goals grind -ring -linarith

@[spec]
theorem wholeModule_spec (c₀ : Cursor) :
    ⦃fun c => ⌜c = c₀⌝⦄ wholeModule ⦃⇓? _ c => ⌜c₀.line ≤ c.line⌝⦄ := by
  unfold wholeModule
  mvcgen
  all_goals grind -ring -linarith

@[spec]
theorem atImport_spec (c₀ : Cursor) :
    ⦃fun c => ⌜c = c₀⌝⦄ atImport ⦃⇓? _ c => ⌜c = c₀⌝⦄ := by
  unfold atImport
  mvcgen
  all_goals grind -ring -linarith

variable {g : Grammar}
  (hg : ∀ goal c₀, ⦃fun c => ⌜c = c₀⌝⦄ g goal ⦃⇓? n c => ⌜Answers goal c₀ n c⌝⦄)
include hg

/-! ### Imports and exports -/

theorem moduleSource_spec (c₀ : Cursor) :
    ⦃fun c => ⌜c = c₀⌝⦄ moduleSource g ⦃⇓? ns c => ⌜Laid c₀.line ns c.line⌝⦄ := by
  have hobject := object_spec hg
  unfold moduleSource
  mvcgen [hg, hobject]
  all_goals grind -ring -linarith [Kind.fits]

theorem fromSource_spec (c₀ : Cursor) :
    ⦃fun c => ⌜c = c₀⌝⦄ fromSource g ⦃⇓? ns c => ⌜Laid c₀.line ns c.line⌝⦄ := by
  have hobject := object_spec hg
  -- The triple of what comes last would be taken to start at `c₀` too, so that one is opened.
  unfold fromSource moduleSource
  mvcgen [hg, hobject]
  all_goals grind -ring -linarith [Kind.fits]

theorem importStatement_spec (c₀ : Cursor) :
    ⦃fun c => ⌜c = c₀⌝⦄ importStatement g ⦃⇓? n c => ⌜ReadAs .item c₀ n c⌝⦄ := by
  have hmoduleSource := moduleSource_spec hg
  have hfromSource := fromSource_spec hg
  unfold importStatement
  mvcgen [hg, hmoduleSource, hfromSource]
  all_goals grind -ring -linarith [Kind.fits]

theorem declaration?_spec (c₀ : Cursor) :
    ⦃fun c => ⌜c = c₀⌝⦄ declaration? g ⦃⇓? r c => ⌜Laid c₀.line r.toList c.line⌝⦄ := by
  have hanyFunction := anyFunction_spec hg
  have hanyClass := anyClass_spec hg
  have hvariableStatement := variableStatement_spec hg
  unfold declaration?
  mvcgen [hg, hanyFunction, hanyClass, hvariableStatement]
  all_goals grind -ring -linarith

theorem defaultExport_spec (c₀ : Cursor) :
    ⦃fun c => ⌜c = c₀⌝⦄ defaultExport g ⦃⇓? n c => ⌜Lies c₀.line n c.line⌝⦄ := by
  have hdeclaration := declaration?_spec hg
  unfold defaultExport
  mvcgen [hg, hdeclaration]
  all_goals grind -ring -linarith

theorem exportFrom_spec (line : Nat) (decorated : List Node) (c₀ : Cursor) :
    ⦃fun c => ⌜c = c₀⌝⦄ exportFrom g line decorated
    ⦃⇓? n c => ⌜Laid line decorated c₀.line → Begun line n c⌝⦄ := by
  have hdefaultExport := defaultExport_spec hg
  have hfromSource := fromSource_spec hg
  have hdeclaration := declaration?_spec hg
  unfold exportFrom
  mvcgen [hg, hdefaultExport, hfromSource, hdeclaration]
  all_goals grind -ring -linarith [Kind.fits]

theorem decorated_spec (c₀ : Cursor) :
    ⦃fun c => ⌜c = c₀⌝⦄ decorated g ⦃⇓? n c => ⌜ReadAs .item c₀ n c⌝⦄ := by
  have hdecorators := decorators_spec hg
  have hexportFrom := exportFrom_spec hg
  have hclassFrom := classFrom_spec hg
  have hexpressionStatement := expressionStatement_spec hg
  unfold decorated
  mvcgen [hg, hdecorators, hexportFrom, hclassFrom, hexpressionStatement]
  all_goals grind -ring -linarith

theorem statement_spec (c₀ : Cursor) :
    ⦃fun c => ⌜c = c₀⌝⦄ statement g ⦃⇓? n c => ⌜ReadAs .item c₀ n c⌝⦄ := by
  have himportStatement := importStatement_spec hg
  have hexportFrom := exportFrom_spec hg
  have hdecorated := decorated_spec hg
  have hplainStatement := plainStatement_spec hg
  unfold statement
  mvcgen [hg, himportStatement, hexportFrom, hdecorated, hplainStatement]
  all_goals grind -ring -linarith

/-- A rule reads well if the goals do. -/
theorem rule_spec (goal : Goal) (c₀ : Cursor) :
    ⦃fun c => ⌜c = c₀⌝⦄ rule g goal ⦃⇓? n c => ⌜Answers goal c₀ n c⌝⦄ := by
  have hstatement := statement_spec hg
  have hexpression := expression_spec hg
  have hassignment := assignment_spec hg
  have hoperation := operation_spec hg
  have hoperand := operand_spec hg
  have hchain := chain_spec hg
  have htarget := target_spec hg
  have helement := element_spec hg
  cases goal
  all_goals
    unfold rule
    mvcgen [hg, hstatement, hexpression, hassignment, hoperation, hoperand, hchain, htarget,
      helement]
    grind -ring -linarith

theorem program_spec (c₀ : Cursor) :
    ⦃fun c => ⌜c = c₀⌝⦄ program g ⦃⇓? n _ => ⌜1 ≤ c₀.line → n.WellFormed⌝⦄ := by
  have hmanyNodes := @manyNodes_spec
  unfold program
  mvcgen [hg, hmanyNodes]
  all_goals grind -ring -linarith [Kind.fits]

omit hg in
/-- To whatever depth the goals nest, they read well. -/
theorem bounded_spec (depth : Nat) : ∀ goal c₀,
    ⦃fun c => ⌜c = c₀⌝⦄ bounded depth goal ⦃⇓? n c => ⌜Answers goal c₀ n c⌝⦄ := by
  induction depth with
  | zero =>
    intro goal c₀
    unfold bounded
    mvcgen
    exact False.elim
  | succ depth ih =>
    intro goal c₀
    exact rule_spec ih goal c₀

end Grammar

/-- The tree of a source is well formed. -/
theorem wellFormed_of_parse? {source : List Char} {tree : Node} (h : parse? source = some tree) :
    tree.WellFormed := by
  unfold parse? at h
  split at h
  · cases h
  · dsimp only at h
    split at h
    · rename_i tree' c hprogram
      split at h
      · cases h
      · cases h
        have hspec := Grammar.program_spec (Grammar.bounded_spec (8 * source.length + 8))
          (Cursor.seek (dropInterpreterLine source) 1 true)
        exact triple_iff.1 hspec _ _ _ rfl hprogram (Cursor.line_le_seek _ 1 true)
    · cases h

end CodeSurvey.Ecma
