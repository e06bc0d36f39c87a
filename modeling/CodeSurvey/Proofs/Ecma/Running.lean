import CodeSurvey.Ecma.Grammar.Module
import CodeSurvey.Proofs.Ecma.Spelling

/-!
Running productions on tokens that are known. What a production does is worked out step by step
from the tokens ahead; a repetition goes on for as long as each of its steps is known.
-/

namespace CodeSurvey.Ecma

open Grammar

/-! ### Tokens on a line -/

/-- The place at which a text goes on, on a line; `fresh` if a line ends before it. -/
def Cursor.at (source : List Char) (line : Nat) (fresh : Bool) : Cursor :=
  ⟨source, line, fresh, (Token.first source).1, (Token.first source).2⟩

/-- The place behind a token that is no string, and behind the spaces after it. -/
theorem Cursor.next_at {w sp rest : List Char} {t : Token} (line : Nat) (fresh : Bool)
    (hfirst : Token.first (w ++ (sp ++ rest)) = (t, sp ++ rest)) (ht : ∀ s, t ≠ .string s)
    (hsp : ∀ c ∈ sp, isSpace c = true) (hrest : StartsToken rest) :
    (Cursor.at (w ++ (sp ++ rest)) line fresh).next =
      .at rest (line + Text.lineFeeds sp) (sp.any isLineEnd) := by
  have hline : (Cursor.at (w ++ (sp ++ rest)) line fresh).lineAfter = line := by
    unfold Cursor.lineAfter
    rw [Cursor.at, hfirst]
    split
    · rename_i s heq
      exact absurd heq (ht s)
    · rfl
  rw [Cursor.next, hline, Cursor.at, hfirst]
  exact seek_spaces line false hsp hrest

/-- These tokens stand one after another on a line, from one place up to another one. -/
inductive Ahead (line : Nat) : Cursor → List Token → Cursor → Prop where
  | nil {c : Cursor} : Ahead line c [] c
  | cons {c c' : Cursor} {ts : List Token} (on : c.line = line)
      (shorter : c.next.source.length < c.source.length)
      (goesOn : ts ≠ [] → c.next.fresh = false) (more : Ahead line c.next ts c') :
      Ahead line c (c.token :: ts) c'

variable {line : Nat} {c c' d : Cursor} {t u : Token} {ts us : List Token}

namespace Ahead

theorem cons_inv (h : Ahead line c (t :: ts) c') :
    c.token = t ∧ c.line = line ∧ (ts ≠ [] → c.next.fresh = false) ∧ Ahead line c.next ts c' := by
  cases h with
  | cons on _ goesOn more => exact ⟨rfl, on, goesOn, more⟩

theorem nil_inv (h : Ahead line c [] c') : c = c' := by
  cases h with
  | nil => rfl

theorem source_ne_nil (h : Ahead line c (t :: ts) c') : c.source ≠ [] := by
  cases h with
  | cons _ shorter _ _ => exact List.ne_nil_of_length_pos (Nat.zero_lt_of_lt shorter)

theorem length_le (h : Ahead line c ts c') : c'.source.length + ts.length ≤ c.source.length := by
  induction h with
  | nil => exact Nat.le_refl _
  | cons _ shorter _ _ ih =>
    rw [List.length_cons]
    omega

variable {w rest : List Char} (sp : List Char)

theorem rest_length_lt (hw : w ≠ []) : rest.length < (w ++ (sp ++ rest)).length := by
  have hpos := List.length_pos_iff.2 hw
  rw [List.length_append, List.length_append]
  omega

/-- The tokens of a text in front of which a token is written. -/
theorem before (fresh : Bool) (hfirst : Token.first (w ++ (sp ++ rest)) = (t, sp ++ rest))
    (ht : ∀ s, t ≠ .string s) (hw : w ≠ [])
    (hsp : ∀ c ∈ sp, isSpace c = true ∧ isLineEnd c = false) (hrest : StartsToken rest)
    (more : Ahead line (.at rest line false) ts c') :
    Ahead line (.at (w ++ (sp ++ rest)) line fresh) (t :: ts) c' := by
  have hfeeds : Text.lineFeeds sp = 0 :=
    List.count_eq_zero.2 fun hmem => absurd (hsp _ hmem).2 (by decide)
  have hends : sp.any isLineEnd = false :=
    List.any_eq_false.2 fun c hc => by rw [(hsp c hc).2]; exact Bool.false_ne_true
  have hnext := Cursor.next_at line fresh hfirst ht
    (fun c hc => (hsp c hc).1) hrest
  rw [hfeeds, hends, Nat.add_zero] at hnext
  have htoken : (Cursor.at (w ++ (sp ++ rest)) line fresh).token = t := by rw [Cursor.at, hfirst]
  rw [← htoken]
  refine .cons rfl ?_ (fun _ => by rw [hnext, Cursor.at]) (hnext ▸ more)
  rw [hnext]
  exact rest_length_lt sp hw

/-- A token at the end of its line. -/
theorem last (fresh : Bool) (hfirst : Token.first (w ++ (sp ++ rest)) = (t, sp ++ rest))
    (ht : ∀ s, t ≠ .string s) (hw : w ≠ []) (hsp : ∀ c ∈ sp, isSpace c = true)
    (hrest : StartsToken rest) :
    Ahead line (.at (w ++ (sp ++ rest)) line fresh) [t]
      (.at rest (line + Text.lineFeeds sp) (sp.any isLineEnd)) := by
  have hnext := Cursor.next_at line fresh hfirst ht hsp hrest
  have htoken : (Cursor.at (w ++ (sp ++ rest)) line fresh).token = t := by rw [Cursor.at, hfirst]
  rw [← htoken]
  refine .cons rfl ?_ (fun h => absurd rfl h) (hnext ▸ .nil)
  rw [hnext]
  exact rest_length_lt sp hw

end Ahead

namespace Production

variable {α β σ : Type} {a : α} {as : List α} {s : String}

/-! ### Single steps -/

@[simp]
theorem bind_apply (x : Production α) (f : α → Production β) (c : Cursor) :
    (x >>= f) c = (x c).bind fun r => f r.1 r.2 := rfl

@[simp]
theorem pure_apply (a : α) (c : Cursor) : (pure a : Production α) c = some (a, c) := rfl

@[simp]
theorem map_apply (f : α → β) (x : Production α) (c : Cursor) :
    (f <$> x) c = (x c).bind fun r => some (f r.1, r.2) := rfl

@[simp]
theorem if_apply (b : Prop) [Decidable b] (x y : Production α) (c : Cursor) :
    (if b then x else y) c = if b then x c else y c := by
  split <;> rfl

@[simp]
theorem get_apply (c : Cursor) : (get : Production Cursor) c = some (c, c) := rfl

@[simp]
theorem set_apply (c d : Cursor) : (set d : Production PUnit) c = some ((), d) := rfl

@[simp]
theorem token_apply (c : Cursor) : token c = some (c.token, c) := rfl

@[simp]
theorem peek_apply (c : Cursor) : peek c = some ((c.next.token, !c.next.fresh), c) := rfl

@[simp]
theorem advance_apply (c : Cursor) : advance c = some ((), c.next) := rfl

@[simp]
theorem atSign_apply (s : String) (c : Cursor) : atSign s c = some (c.token == .sign s, c) := rfl

@[simp]
theorem atWord_apply (s : String) (c : Cursor) : atWord s c = some (c.token == .word s, c) := rfl

@[simp]
theorem skipSign_apply (s : String) (c : Cursor) :
    skipSign s c = if c.token == .sign s then some (true, c.next) else some (false, c) := by
  rw [skipSign, bind_apply, atSign_apply, Option.bind_some]
  split <;> rfl

@[simp]
theorem skipWord_apply (s : String) (c : Cursor) :
    skipWord s c = if c.token == .word s then some (true, c.next) else some (false, c) := by
  rw [skipWord, bind_apply, atWord_apply, Option.bind_some]
  split <;> rfl

@[simp]
theorem require_apply (condition : Bool) (c : Cursor) :
    require condition c = if condition then some ((), c) else none := by
  cases condition <;> rfl

@[simp]
theorem sign_apply (s : String) (c : Cursor) :
    sign s c = if c.token == .sign s then some ((), c.next) else none := by
  rw [sign, bind_apply, skipSign_apply]
  split <;> rfl

@[simp]
theorem word_apply (s : String) (c : Cursor) :
    word s c = if c.token == .word s then some ((), c.next) else none := by
  rw [word, bind_apply, skipWord_apply]
  split <;> rfl

/-! ### Repetitions -/

/-- Items one after another, as long as one more is asked for. -/
inductive Many (more : Production Bool) (item : Production α) :
    Cursor → List α → Cursor → Prop where
  | stop {c : Cursor} (no : more c = some (false, c)) : Many more item c [] c
  | item {c d e c' : Cursor} {a : α} {as : List α} (yes : more c = some (true, d))
      (here : item d = some (a, e)) (rest : Many more item e as c') : Many more item c (a :: as) c'

theorem manyWhile_apply {more : Production Bool} {item : Production α}
    (h : Many more item c as c') (enough : as.length ≤ c.source.length) :
    manyWhile more item c = some (as, c') := by
  have hrepeat : ∀ {fuel : List Char} {before : List α}, as.length ≤ fuel.length →
      repeatFrom (fun items => do if ← more then return some ((← item) :: items) else return none)
        fuel before c = some (as.reverse ++ before, c') := by
    clear enough
    induction h with
    | stop no =>
      intro fuel before _
      cases fuel with
      | nil => rfl
      | cons _ fuel => simp [repeatFrom, no]
    | @item c d e c' a as yes here _ ih =>
      intro fuel before henough
      cases fuel with
      | nil => exact absurd henough (Nat.not_succ_le_zero _)
      | cons _ fuel =>
        have hmore := @ih fuel (a :: before) (Nat.le_of_succ_le_succ henough)
        simpa [repeatFrom, yes, here] using hmore
  rw [manyWhile, bind_apply, iterate, bind_apply, get_apply, Option.bind_some, hrepeat enough]
  simp

theorem manyWhile_none {more : Production Bool} (item : Production α)
    (no : more c = some (false, c)) : manyWhile more item c = some ([], c) :=
  manyWhile_apply (.stop no) (Nat.zero_le _)

/-- A repetition that does nothing. -/
theorem iterate_none {step : σ → Production (Option σ)} {a : σ} (h : step a c = some (none, c)) :
    iterate step a c = some (a, c) := by
  rw [iterate, bind_apply, get_apply, Option.bind_some]
  cases c.source with
  | nil => rfl
  | cons _ _ => simp [repeatFrom, h]

/-- A repetition that does something once. -/
theorem iterate_one {step : σ → Production (Option σ)} {a b : σ} (hc : c.source ≠ [])
    (h : step a c = some (some b, d)) (hb : step b d = some (none, d)) :
    iterate step a c = some (b, d) := by
  rw [iterate, bind_apply, get_apply, Option.bind_some]
  obtain ⟨_, fuel, hfuel⟩ := List.exists_cons_of_ne_nil hc
  cases fuel with
  | nil => simp [hfuel, repeatFrom, h]
  | cons _ _ => simp [hfuel, repeatFrom, h, hb]

end Production

end CodeSurvey.Ecma
