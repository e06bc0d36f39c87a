import CodeSurvey.Ecma.TypeErasure
import CodeSurvey.Proofs.Pattern.Replace
import CodeSurvey.Proofs.Text.Lines
import Mathlib.Algebra.Ring.Nat

/-!
Which lines type erasure leaves in place, and which sources it leaves as they are. Each step on its
own leaves characters out and no line feed, apart from the one that takes specifiers out of import
braces: it leaves out what lies between a specifier and the next. Whatever a step takes out of a
match holds more than the line feeds that it puts back, so a step that finds a match changes the
source, and no later step can undo that. Main statements: the erased source stands line by line
where the source stood if and only if no such stretch holds a line feed; and erasing types leaves a
source without an opening angle bracket unchanged if and only if none of its patterns matches
anywhere in it.
-/

namespace CodeSurvey.Ecma

open Pattern TypeErasure Text

variable {p : Pattern} {kept : Option Nat} {code : List Char} {m : Match} {r : Reading}

/-- A match begins with the group to be kept, which reads no line feed and is the last that is
    remembered. -/
def keepsFront : Pattern → Option Nat → Bool
  | _, none => true
  | cat (group n front) more, some k => n == k && front.avoids '\n' && more.groupless
  | _, some _ => false

/-- A pattern that reads something, with a group at its front if one is kept. -/
def isErasing (step : Pattern × Option Nat) : Bool :=
  decide (1 ≤ step.1.width) && keepsFront step.1 step.2

/-- The kept group is the front of the match and holds no line feed. -/
theorem kept_of_keepsFront (h : keepsFront p kept = true) (hm : matchAt? p r = some m) :
    ∃ behind, m.text = kept.elim [] m.group ++ behind ∧ '\n' ∉ kept.elim [] m.group := by
  unfold keepsFront at h
  split at h
  · exact ⟨m.text, rfl, List.not_mem_nil⟩
  · rename_i n front more k
    simp only [Bool.and_eq_true, beq_iff_eq] at h
    obtain ⟨⟨rfl, hfront⟩, hmore⟩ := h
    obtain ⟨_, _, _, behind, hreads, _, htext⟩ := reads_group_of_matchAt hmore hm
    exact ⟨behind, htext, hreads.notMem hfront⟩
  · simp at h

/-- A match leaves the kept group and its own line feeds, in this order. -/
theorem sublist_of_keepsFront (h : keepsFront p kept = true) (hm : matchAt? p r = some m) :
    (kept.elim [] m.group ++ List.replicate (lineFeeds m.text) '\n').Sublist m.text := by
  obtain ⟨more, htext, hkept⟩ := kept_of_keepsFront h hm
  have hcount : lineFeeds m.text = more.count '\n' := by
    rw [htext, lineFeeds, List.count_append, List.count_eq_zero_of_not_mem hkept, Nat.zero_add]
  rw [hcount, htext]
  exact (List.Sublist.refl _).append (List.replicate_sublist_iff.2 (Nat.le_refl _))

theorem lineFeeds_of_keepsFront (h : keepsFront p kept = true) (hm : matchAt? p r = some m) :
    lineFeeds (kept.elim [] m.group ++ List.replicate (lineFeeds m.text) '\n') =
      lineFeeds m.text := by
  obtain ⟨_, _, hkept⟩ := kept_of_keepsFront h hm
  rw [lineFeeds_append, lineFeeds, List.count_eq_zero_of_not_mem hkept, Nat.zero_add, lineFeeds,
    List.count_replicate_self]

/-- A step that reads something and keeps at most a front leaves every line where it is. -/
theorem lineByLine_eraseKeepingLines (h : isErasing (p, kept) = true) (code : List Char) :
    LineByLine code (eraseKeepingLines p kept code) := by
  obtain ⟨hwidth, hkept⟩ := Bool.and_eq_true_iff.1 h
  have hrewrites := rewrites_replace (of_decide_eq_true hwidth)
    (fun m => kept.elim [] m.group ++ List.replicate (lineFeeds m.text) '\n') code
  refine lineByLine_of_sublist (hrewrites.sublist fun hm => sublist_of_keepsFront hkept hm) ?_
  exact hrewrites.lineFeeds_eq fun hm => lineFeeds_of_keepsFront hkept hm

theorem lineByLine_takeSteps {steps : List (Pattern × Option Nat)}
    (h : ∀ step ∈ steps, isErasing step = true) (code : List Char) :
    LineByLine code (takeSteps steps code) := by
  induction steps generalizing code with
  | nil => exact .refl code
  | cons step more ih =>
    exact (lineByLine_eraseKeepingLines (h step (List.mem_cons_self ..)) code).trans
      (ih (fun s hs => h s (List.mem_cons_of_mem _ hs)) _)

/-- The line feeds in the specifiers that one import clause loses. -/
def clauseLoss (clause : Match) : Nat :=
  ((typeSpecifier.findAll clause.text).map fun specifier => lineFeeds specifier.text).sum

/-- Taking the specifiers out of a text loses their line feeds and no others. -/
theorem typeSpecifier_thins (text : List Char) :
    (typeSpecifier.replace (fun _ => []) text).Sublist text ∧
      lineFeeds (typeSpecifier.replace (fun _ => []) text) +
        ((typeSpecifier.findAll text).map fun specifier => lineFeeds specifier.text).sum =
          lineFeeds text := by
  have hrewrites := rewrites_replace (p := typeSpecifier) (by decide) (fun _ => []) text
  refine ⟨hrewrites.sublist fun _ => List.nil_sublist _, hrewrites.lineFeeds_add fun _ => ?_⟩
  exact Nat.zero_add _

/-- Only the import clauses lose specifiers. -/
theorem eraseTypeSpecifiers_thins (code : List Char) :
    (eraseTypeSpecifiers code).Sublist code ∧
      lineFeeds (eraseTypeSpecifiers code) + ((importClause.findAll code).map clauseLoss).sum =
        lineFeeds code := by
  have hrewrites := rewrites_replace (p := importClause) (by decide)
    (fun m => typeSpecifier.replace (fun _ => []) m.text) code
  exact ⟨hrewrites.sublist fun _ => (typeSpecifier_thins _).1,
    hrewrites.lineFeeds_add fun _ => (typeSpecifier_thins _).2⟩

/-- The steps after those on imports leave every line where it is. -/
theorem lineByLine_later (markup : Bool) (code : List Char) :
    LineByLine (eraseTypeSpecifiers (eraseKeepingLines typeImport none code))
      (eraseTypes markup code) := by
  have htypes : ∀ code, LineByLine code (takeSteps typeSteps code) :=
    lineByLine_takeSteps (by decide)
  have hcast : ∀ code, LineByLine code (eraseKeepingLines angleCast none code) :=
    lineByLine_eraseKeepingLines (by decide)
  have hmodifiers : ∀ code, LineByLine code (takeSteps modifierSteps code) :=
    lineByLine_takeSteps (by decide)
  cases markup with
  | true => exact (htypes _).trans (hmodifiers _)
  | false => exact ((htypes _).trans (hcast _)).trans (hmodifiers _)

/-- Erasing types leaves characters out, and loses the line feeds in the specifiers of import
    clauses. -/
theorem eraseTypes_thins (markup : Bool) (code : List Char) :
    (eraseTypes markup code).Sublist code ∧
      lineFeeds (eraseTypes markup code) +
        ((importClause.findAll (eraseKeepingLines typeImport none code)).map clauseLoss).sum =
          lineFeeds code := by
  have himport : LineByLine code (eraseKeepingLines typeImport none code) :=
    lineByLine_eraseKeepingLines (by decide) code
  have hspecifiers := eraseTypeSpecifiers_thins (eraseKeepingLines typeImport none code)
  have hlater := lineByLine_later markup code
  refine ⟨(hlater.sublist.trans hspecifiers.1).trans himport.sublist, ?_⟩
  rw [hlater.lineFeeds_eq, hspecifiers.2, himport.lineFeeds_eq]

/-- The erased source stands line by line where the source stood if and only if no specifier that
    is taken out of an import clause holds a line feed, nor do the comma and the blanks that go with
    it. -/
theorem lineByLine_eraseTypes_iff (markup : Bool) (code : List Char) :
    LineByLine code (eraseTypes markup code) ↔
      ∀ clause ∈ importClause.findAll (eraseKeepingLines typeImport none code),
        ∀ specifier ∈ typeSpecifier.findAll clause.text, '\n' ∉ specifier.text := by
  obtain ⟨hsublist, hcount⟩ := eraseTypes_thins markup code
  have hloss : ((importClause.findAll (eraseKeepingLines typeImport none code)).map
      clauseLoss).sum = 0 ↔
      ∀ clause ∈ importClause.findAll (eraseKeepingLines typeImport none code),
        ∀ specifier ∈ typeSpecifier.findAll clause.text, '\n' ∉ specifier.text := by
    simp only [List.sum_eq_zero_iff_forall_eq_nat, List.forall_mem_map, clauseLoss, lineFeeds,
      List.count_eq_zero]
  rw [lineByLine_iff, ← hloss]
  constructor
  · rintro ⟨_, heq⟩
    omega
  · intro hzero
    exact ⟨hsublist, by omega⟩

/-- A specifier before a line end takes the line feed along. -/
theorem not_lineByLine_specifier :
    ¬ LineByLine "import \x7btype A,\nB\x7d".toList
      (eraseTypes false "import \x7btype A,\nB\x7d".toList) := by
  intro h
  have : lineFeeds (eraseTypes false "import \x7btype A,\nB\x7d".toList) = 0 := by decide +kernel
  rw [h.lineFeeds_eq] at this
  exact absurd this (by decide)

/-! ### Sources without types -/

variable {steps : List (Pattern × Option Nat)}

/-- What is not kept of a match holds more than line feeds. -/
def losesSome : Pattern → Option Nat → Bool
  | p, none => p.demands (· != '\n')
  | cat (group n _) more, some k => n == k && more.groupless && more.demands (· != '\n')
  | _, some _ => false

/-- A pattern that reads something, with a group at its front if one is kept and more than line
    feeds behind it. -/
def isLosing (step : Pattern × Option Nat) : Bool := isErasing step && losesSome step.1 step.2

theorem exists_lost (h : losesSome p kept = true) (hm : matchAt? p r = some m) :
    ∃ behind, m.text = kept.elim [] m.group ++ behind ∧ ∃ c ∈ behind, (c != '\n') = true := by
  unfold losesSome at h
  split at h
  · obtain ⟨_, hreads, _⟩ := reads_of_matchAt hm
    exact ⟨m.text, rfl, hreads.exists_of_demands h⟩
  · rename_i n front more k
    simp only [Bool.and_eq_true, beq_iff_eq] at h
    obtain ⟨⟨rfl, hmore⟩, hdemands⟩ := h
    obtain ⟨_, _, _, behind, _, hreads, htext⟩ := reads_group_of_matchAt hmore hm
    exact ⟨behind, htext, hreads.exists_of_demands hdemands⟩
  · simp at h

/-- A match does not stay as it is. -/
theorem change_ne_text (h : losesSome p kept = true) (hm : matchAt? p r = some m) :
    kept.elim [] m.group ++ List.replicate (lineFeeds m.text) '\n' ≠ m.text := by
  obtain ⟨behind, htext, c, hc, hne⟩ := exists_lost h hm
  intro heq
  have hbehind : List.replicate (lineFeeds m.text) '\n' = behind :=
    List.append_cancel_left (heq.trans htext)
  rw [← hbehind] at hc
  rw [List.eq_of_mem_replicate hc] at hne
  exact absurd hne (by decide)

/-- A step leaves a source as it is if and only if it finds no match. -/
theorem eraseKeepingLines_eq_self_iff (h : isLosing (p, kept) = true) (code : List Char) :
    eraseKeepingLines p kept code = code ↔ p.findAll code = [] := by
  obtain ⟨herasing, hloses⟩ := Bool.and_eq_true_iff.1 h
  obtain ⟨hwidth, hkept⟩ := Bool.and_eq_true_iff.1 herasing
  exact replace_eq_self_iff (of_decide_eq_true hwidth) (fun hm => sublist_of_keepsFront hkept hm)
    fun hm => change_ne_text hloses hm

/-- What is thinned out twice and ends as it began was never changed. -/
theorem eq_of_sublist_of_eq {a b c : List Char} (hba : b.Sublist a) (hcb : c.Sublist b)
    (h : c = a) : b = a := hba.eq_of_length_le (h ▸ hcb.length_le)

/-- Steps leave a source as it is if and only if none of them finds a match. -/
theorem takeSteps_eq_self_iff (h : ∀ step ∈ steps, isLosing step = true) (code : List Char) :
    takeSteps steps code = code ↔ ∀ step ∈ steps, step.1.findAll code = [] := by
  induction steps with
  | nil => exact ⟨fun _ _ hstep => absurd hstep List.not_mem_nil, fun _ => rfl⟩
  | cons step more ih =>
    obtain ⟨hstep, hmore⟩ := List.forall_mem_cons.1 h
    have herasing : ∀ s ∈ step :: more, isErasing s = true :=
      fun s hs => (Bool.and_eq_true_iff.1 (h s hs)).1
    have hself := eraseKeepingLines_eq_self_iff hstep code
    rw [List.forall_mem_cons, ← hself, ← ih hmore]
    show takeSteps more (eraseKeepingLines step.1 step.2 code) = code ↔ _
    constructor
    · intro heq
      have hfirst : eraseKeepingLines step.1 step.2 code = code :=
        eq_of_sublist_of_eq
          (lineByLine_eraseKeepingLines (List.forall_mem_cons.1 herasing).1 code).sublist
          (lineByLine_takeSteps (List.forall_mem_cons.1 herasing).2 _).sublist heq
      rw [hfirst] at heq
      exact ⟨hfirst, heq⟩
    · rintro ⟨hfirst, hothers⟩
      rw [hfirst, hothers]

/-- No import clause holds a specifier marked as a type if and only if none is taken out. -/
theorem eraseTypeSpecifiers_eq_self_iff (code : List Char) :
    eraseTypeSpecifiers code = code ↔
      ∀ clause ∈ importClause.findAll code, typeSpecifier.findAll clause.text = [] := by
  have hclauses := rewrites_replace (p := importClause) (by decide)
    (fun m => typeSpecifier.replace (fun _ => []) m.text) code
  refine (hclauses.out_eq_iff fun _ => (typeSpecifier_thins _).1).trans (forall₂_congr ?_)
  intro clause _
  refine replace_eq_self_iff (by decide) (fun _ => List.nil_sublist _) fun {r m} hm hempty => ?_
  obtain ⟨_, hreads, _⟩ := reads_of_matchAt hm
  have hwidth : 1 ≤ m.text.length := Nat.le_trans (by decide) hreads.width_le
  rw [← hempty] at hwidth
  exact absurd hwidth (by decide)

/-! ### All steps -/

/-- The steps after those on imports. -/
def laterSteps (markup : Bool) : List (Pattern × Option Nat) :=
  typeSteps ++ (if markup then [] else [(angleCast, none)]) ++ modifierSteps

theorem eraseTypes_eq_takeSteps (markup : Bool) (code : List Char) :
    eraseTypes markup code =
      takeSteps (laterSteps markup) (eraseTypeSpecifiers (eraseKeepingLines typeImport none code)) := by
  rw [laterSteps, takeSteps, List.foldl_append, List.foldl_append, eraseTypes]
  cases markup with
  | true => rfl
  | false => rfl

/-- The source has no type syntax that the steps look for, those apart that need an angle
    bracket. -/
structure Untyped (code : List Char) : Prop where
  specifiers : ∀ clause ∈ importClause.findAll code, typeSpecifier.findAll clause.text = []
  others : ∀ p ∈ [typeImport, interfaceDeclaration, typeAlias, enumDeclaration, ambientDeclaration,
    returnType, optionalMark, parameterType, asCast, nonNull, readonlyWord, accessModifier,
    abstractWord, implementsClause], p.findAll code = []

/-- Without an opening angle bracket, a source is untyped if and only if no step finds a match. -/
theorem untyped_iff (hangle : '<' ∉ code) (markup : Bool) :
    Untyped code ↔ typeImport.findAll code = [] ∧
      (∀ clause ∈ importClause.findAll code, typeSpecifier.findAll clause.text = []) ∧
      ∀ step ∈ laterSteps markup, step.1.findAll code = [] := by
  have hnone : ∀ c ∈ code, (c == '<') = false := by
    intro c hc
    refine beq_eq_false_iff_ne.2 ?_
    rintro rfl
    exact hangle hc
  have hgeneric : genericParameters.findAll code = [] :=
    findAll_eq_nil_of_demands (by decide) (by decide) hnone
  have hcast : angleCast.findAll code = [] :=
    findAll_eq_nil_of_demands (by decide) (by decide) hnone
  constructor
  · rintro ⟨hspecifiers, hothers⟩
    refine ⟨hothers _ (by simp), hspecifiers, ?_⟩
    cases markup <;> simp_all [laterSteps, typeSteps, modifierSteps]
  · rintro ⟨himport, hspecifiers, hlater⟩
    refine ⟨hspecifiers, ?_⟩
    cases markup <;> simp_all [laterSteps, typeSteps, modifierSteps]

/-- Erasing types leaves a source without an opening angle bracket as it is if and only if the
    source is untyped. -/
theorem eraseTypes_eq_self_iff (hangle : '<' ∉ code) (markup : Bool) :
    eraseTypes markup code = code ↔ Untyped code := by
  have hlosing : ∀ step ∈ laterSteps markup, isLosing step = true := by
    cases markup <;> decide
  have herasing : ∀ step ∈ laterSteps markup, isErasing step = true :=
    fun step hstep => (Bool.and_eq_true_iff.1 (hlosing step hstep)).1
  have hlater : ∀ code, (takeSteps (laterSteps markup) code).Sublist code :=
    fun code => (lineByLine_takeSteps herasing code).sublist
  have himport : eraseKeepingLines typeImport none code = code ↔ typeImport.findAll code = [] :=
    eraseKeepingLines_eq_self_iff (by decide) code
  rw [untyped_iff hangle markup, ← himport, ← eraseTypeSpecifiers_eq_self_iff,
    ← takeSteps_eq_self_iff hlosing, eraseTypes_eq_takeSteps]
  constructor
  · intro heq
    have hspecifiers : eraseTypeSpecifiers (eraseKeepingLines typeImport none code) = code :=
      eq_of_sublist_of_eq ((eraseTypeSpecifiers_thins _).1.trans
        (lineByLine_eraseKeepingLines (by decide) code).sublist) (hlater _) heq
    have hfirst : eraseKeepingLines typeImport none code = code :=
      eq_of_sublist_of_eq (lineByLine_eraseKeepingLines (by decide) code).sublist
        (eraseTypeSpecifiers_thins _).1 hspecifiers
    rw [hspecifiers] at heq
    rw [hfirst] at hspecifiers
    exact ⟨hfirst, hspecifiers, heq⟩
  · rintro ⟨hfirst, hspecifiers, hothers⟩
    rw [hfirst, hspecifiers, hothers]

end CodeSurvey.Ecma
