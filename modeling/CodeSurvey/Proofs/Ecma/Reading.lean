import CodeSurvey.Ecma.Cursor
import CodeSurvey.Proofs.Ecma.Layout
import Mathlib

/-!
What the productions of the grammar keep to, as triples: whenever a production that starts at one
place answers at another, its answer is laid out between the lines of the two. Where it fails,
nothing is claimed. The triples of the steps of which productions are made stand here; a repetition
keeps what each of its steps keeps.
-/

namespace CodeSurvey.Ecma

open Std.Do

set_option mvcgen.warning false

-- Lines are natural numbers, so `grind` is spared the search for rings and ordered fields among the
-- other types, which would take most of its time.

namespace Cursor

theorem line_le_seek (source : List Char) (line : Nat) (atLineStart : Bool) :
    line ≤ (seek source line atLineStart).line :=
  Nat.le_add_right _ _

theorem line_le_next (c : Cursor) : c.line ≤ c.next.line := by
  refine Nat.le_trans ?_ (line_le_seek c.after c.lineAfter false)
  unfold lineAfter
  split
  · exact Nat.le_add_right _ _
  · exact Nat.le_refl _

end Cursor

namespace Production

variable {α σ : Type}

/-- A triple in plain words. -/
theorem triple_iff {p : Production α} {P : Cursor → Prop} {Q : α → Cursor → Prop} :
    ⦃fun c => ⌜P c⌝⦄ p ⦃⇓? a c => ⌜Q a c⌝⦄ ↔
      ∀ c a c', P c → p c = some (a, c') → Q a c' := by
  constructor
  · intro h c a c' hP hrun
    have hpost := h c hP
    simp only [WP.wp, PredTrans.apply, PredTrans.pushArg, StateT.run, hrun] at hpost
    exact hpost
  · intro h c hP
    simp only [WP.wp, PredTrans.apply, PredTrans.pushArg, StateT.run]
    cases hrun : p c with
    | none => trivial
    | some r => exact h c r.1 r.2 hP hrun

@[spec]
theorem fail_spec : ⦃⌜True⌝⦄ (fail : Production α) ⦃⇓? _ => ⌜False⌝⦄ := by
  intro c _
  trivial

theorem orElse_spec (Q : Cursor → α → Cursor → Prop) {p q : Production α}
    (hp : ∀ c₀, ⦃fun c => ⌜c = c₀⌝⦄ p ⦃⇓? a c => ⌜Q c₀ a c⌝⦄)
    (hq : ∀ c₀, ⦃fun c => ⌜c = c₀⌝⦄ q ⦃⇓? a c => ⌜Q c₀ a c⌝⦄) (c₀ : Cursor) :
    ⦃fun c => ⌜c = c₀⌝⦄ (p <|> q) ⦃⇓? a c => ⌜Q c₀ a c⌝⦄ := by
  simp only [triple_iff] at *
  intro c a c' hc hrun
  replace hrun : (p c <|> q c) = some (a, c') := hrun
  cases hfirst : p c with
  | none =>
    rw [hfirst] at hrun
    exact hq c₀ c a c' hc hrun
  | some r =>
    rw [hfirst] at hrun
    cases hrun
    exact hp c₀ c a c' hc hfirst

/-! ### Tokens -/

@[spec]
theorem token_spec (c₀ : Cursor) : ⦃fun c => ⌜c = c₀⌝⦄ token ⦃⇓? _ c => ⌜c = c₀⌝⦄ := by
  unfold token
  mvcgen

@[spec]
theorem peek_spec (c₀ : Cursor) : ⦃fun c => ⌜c = c₀⌝⦄ peek ⦃⇓? _ c => ⌜c = c₀⌝⦄ := by
  unfold peek
  mvcgen

@[spec]
theorem advance_spec (c₀ : Cursor) :
    ⦃fun c => ⌜c = c₀⌝⦄ advance ⦃⇓? _ c => ⌜c₀.line ≤ c.line⌝⦄ := by
  unfold advance
  mvcgen
  subst_vars
  exact Cursor.line_le_next _

@[spec]
theorem jump_spec (source : List Char) (line : Nat) :
    ⦃⌜True⌝⦄ jump source line ⦃⇓? _ c => ⌜line ≤ c.line⌝⦄ := by
  unfold jump
  mvcgen
  exact Cursor.line_le_seek source line false

@[spec]
theorem require_spec (condition : Bool) (c₀ : Cursor) :
    ⦃fun c => ⌜c = c₀⌝⦄ require condition ⦃⇓? _ c => ⌜c = c₀ ∧ condition = true⌝⦄ := by
  unfold require
  mvcgen
  exact False.elim

@[spec]
theorem atSign_spec (s : String) (c₀ : Cursor) :
    ⦃fun c => ⌜c = c₀⌝⦄ atSign s ⦃⇓? _ c => ⌜c = c₀⌝⦄ := by
  unfold atSign
  mvcgen
  grind -ring -linarith

@[spec]
theorem atWord_spec (s : String) (c₀ : Cursor) :
    ⦃fun c => ⌜c = c₀⌝⦄ atWord s ⦃⇓? _ c => ⌜c = c₀⌝⦄ := by
  unfold atWord
  mvcgen
  grind -ring -linarith

@[spec]
theorem skipSign_spec (s : String) (c₀ : Cursor) :
    ⦃fun c => ⌜c = c₀⌝⦄ skipSign s ⦃⇓? _ c => ⌜c₀.line ≤ c.line⌝⦄ := by
  unfold skipSign
  mvcgen
  all_goals grind -ring -linarith

@[spec]
theorem skipWord_spec (s : String) (c₀ : Cursor) :
    ⦃fun c => ⌜c = c₀⌝⦄ skipWord s ⦃⇓? _ c => ⌜c₀.line ≤ c.line⌝⦄ := by
  unfold skipWord
  mvcgen
  all_goals grind -ring -linarith

@[spec]
theorem sign_spec (s : String) (c₀ : Cursor) :
    ⦃fun c => ⌜c = c₀⌝⦄ sign s ⦃⇓? _ c => ⌜c₀.line ≤ c.line⌝⦄ := by
  unfold sign
  mvcgen
  all_goals grind -ring -linarith

@[spec]
theorem word_spec (s : String) (c₀ : Cursor) :
    ⦃fun c => ⌜c = c₀⌝⦄ word s ⦃⇓? _ c => ⌜c₀.line ≤ c.line⌝⦄ := by
  unfold word
  mvcgen
  all_goals grind -ring -linarith

@[spec]
theorem statementEnd_spec (c₀ : Cursor) :
    ⦃fun c => ⌜c = c₀⌝⦄ statementEnd ⦃⇓? _ c => ⌜c₀.line ≤ c.line⌝⦄ := by
  unfold statementEnd
  mvcgen
  all_goals grind -ring -linarith

/-- A node in a role lies between two places. -/
@[grind]
structure ReadAs (role : Role) (c : Cursor) (n : Node) (c' : Cursor) : Prop where
  lies : Lies c.line n c'.line
  role : n.role = role

/-- A value lies between two places: an item that declares no function as a statement does. -/
@[grind]
structure ReadsValue (c : Cursor) (n : Node) (c' : Cursor) : Prop where
  readAs : ReadAs .item c n c'
  kind : n.kind.isDeclaredFunction = false

/-- An item that begins on a line lies before a place. -/
@[grind]
structure Begun (line : Nat) (n : Node) (c' : Cursor) : Prop where
  line : n.line = line
  wellFormed : n.WellFormed
  ends : n.lastLine ≤ c'.line
  role : n.role = .item

section Around

variable {c c' : Cursor} {kind : Kind} {line : Nat} {text : String} {children : List Node}

/-- A node around what lies between two places lies there too, if it has its parts. -/
theorem ReadAs.of_children (hkind : kind.fits children = true) (hline : c.line ≤ line)
    (hlaid : Laid line children c'.line) :
    ReadAs .item c ⟨kind, .item, line, text, children⟩ c' := by
  grind -ring -linarith

theorem ReadsValue.of_children (hkind : kind.fits children = true)
    (hvalue : kind.isDeclaredFunction = false) (hline : c.line ≤ line)
    (hlaid : Laid line children c'.line) :
    ReadsValue c ⟨kind, .item, line, text, children⟩ c' :=
  ⟨.of_children hkind hline hlaid, hvalue⟩

end Around

/-! ### Repetitions -/

/-- What every step of a repetition keeps holds at its end. -/
theorem repeatFrom_spec (I : σ → Cursor → Prop) {step : σ → Production (Option σ)}
    (hstep : ∀ s, ⦃fun c => ⌜I s c⌝⦄ step s ⦃⇓? r c => ⌜I (r.getD s) c⌝⦄) (fuel : List Char)
    (s : σ) : ⦃fun c => ⌜I s c⌝⦄ repeatFrom step fuel s ⦃⇓? s c => ⌜I s c⌝⦄ := by
  induction fuel generalizing s with
  | nil =>
    unfold repeatFrom
    mvcgen
  | cons _ fuel ih =>
    unfold repeatFrom
    mvcgen [hstep, ih]

theorem iterate_spec (I : σ → Cursor → Prop) {step : σ → Production (Option σ)}
    (hstep : ∀ s, ⦃fun c => ⌜I s c⌝⦄ step s ⦃⇓? r c => ⌜I (r.getD s) c⌝⦄) (s : σ) :
    ⦃fun c => ⌜I s c⌝⦄ iterate step s ⦃⇓? s c => ⌜I s c⌝⦄ := by
  have hrepeat := repeatFrom_spec I hstep
  unfold iterate
  mvcgen [hrepeat]

/-- Items that are each laid out between two lines and have a property are laid out one after the
    other. -/
theorem manyWhile_spec (read : α → List Node) (P : α → Prop) {more : Production Bool}
    {item : Production α}
    (hmore : ∀ c₀, ⦃fun c => ⌜c = c₀⌝⦄ more ⦃⇓? _ c => ⌜c₀.line ≤ c.line⌝⦄)
    (hitem : ∀ c₀, ⦃fun c => ⌜c = c₀⌝⦄ item ⦃⇓? a c => ⌜Laid c₀.line (read a) c.line ∧ P a⌝⦄)
    (c₀ : Cursor) :
    ⦃fun c => ⌜c = c₀⌝⦄ manyWhile more item
    ⦃⇓? items c => ⌜Laid c₀.line (items.flatMap read) c.line ∧ ∀ a ∈ items, P a⌝⦄ := by
  -- The items are gathered in reverse.
  have hloop := @iterate_spec (List α) fun items c =>
    Laid c₀.line (items.reverse.flatMap read) c.line ∧ ∀ a ∈ items, P a
  unfold manyWhile
  mvcgen [hloop, hmore, hitem]
  case vc1 =>
    rw [Option.getD_some, List.reverse_cons, List.flatMap_append, List.flatMap_singleton]
    grind -ring -linarith
  all_goals grind -ring -linarith

/-- Items up to a closing sign are laid out as other items are. -/
theorem listUntil_spec (read : α → List Node) (P : α → Prop) {item : Production α} (close : String)
    (hitem : ∀ c₀, ⦃fun c => ⌜c = c₀⌝⦄ item ⦃⇓? a c => ⌜Laid c₀.line (read a) c.line ∧ P a⌝⦄)
    (c₀ : Cursor) :
    ⦃fun c => ⌜c = c₀⌝⦄ listUntil close item
    ⦃⇓? items c => ⌜Laid c₀.line (items.flatMap read) c.line ∧ ∀ a ∈ items, P a⌝⦄ := by
  have hmany := @manyWhile_spec α read P
  unfold listUntil
  mvcgen [hmany, hitem]
  all_goals grind -ring -linarith

theorem manyNodes_spec {more : Production Bool} {item : Production Node}
    (hmore : ∀ c₀, ⦃fun c => ⌜c = c₀⌝⦄ more ⦃⇓? _ c => ⌜c₀.line ≤ c.line⌝⦄)
    (hitem : ∀ c₀, ⦃fun c => ⌜c = c₀⌝⦄ item ⦃⇓? n c => ⌜Laid c₀.line [n] c.line⌝⦄) (c₀ : Cursor) :
    ⦃fun c => ⌜c = c₀⌝⦄ manyWhile more item ⦃⇓? ns c => ⌜Laid c₀.line ns c.line⌝⦄ := by
  have hmany := manyWhile_spec (fun n => [n]) (fun _ => True) hmore
    (fun c₁ => by simpa only [and_true] using hitem c₁) c₀
  simpa only [List.flatMap_singleton', implies_true, and_true] using hmany

theorem listNodes_spec {item : Production Node} (close : String)
    (hitem : ∀ c₀, ⦃fun c => ⌜c = c₀⌝⦄ item ⦃⇓? n c => ⌜Laid c₀.line [n] c.line⌝⦄) (c₀ : Cursor) :
    ⦃fun c => ⌜c = c₀⌝⦄ listUntil close item ⦃⇓? ns c => ⌜Laid c₀.line ns c.line⌝⦄ := by
  have hlist := listUntil_spec (fun n => [n]) (fun _ => True) close
    (fun c₁ => by simpa only [and_true] using hitem c₁) c₀
  simpa only [List.flatMap_singleton', implies_true, and_true] using hlist

end Production

end CodeSurvey.Ecma
