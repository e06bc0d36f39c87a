import CodeSurvey.Ecma.Grammar.Basic
import CodeSurvey.Proofs.Ecma.Place
import CodeSurvey.Proofs.Ecma.Running

/-!
Two judgements on productions. What a production answers from one place on has a property together
with the place it leads to (`From`); from places of one kind it leads to places of another one, with
an answer that has a property (`Keeps`). There is one rule for each way in which productions are put
together. Main statements: what each step keeps of the places of a source.
-/

namespace CodeSurvey.Ecma

namespace Production

variable {α β σ : Type} {c d : Cursor} {p q : Production α} {s : String}

/-! ### From one place on -/

section From

variable {Q : α → Cursor → Prop} {R : β → Cursor → Prop}

/-- Whatever the production answers from this place on has the property. -/
def From (c : Cursor) (p : Production α) (Q : α → Cursor → Prop) : Prop :=
  ∀ a d, p c = some (a, d) → Q a d

namespace From

theorem pure {a : α} (h : Q a c) : From c (Pure.pure a) Q := by
  intro b d hrun
  cases hrun
  exact h

theorem fail : From c (Production.fail : Production α) Q := nofun

theorem bind {f : α → Production β} (first : From c p Q)
    (second : ∀ a d, Q a d → From d (f a) R) : From c (p >>= f) R := by
  intro b d hrun
  obtain ⟨⟨a, c₁⟩, hfirst, hsecond⟩ := Option.bind_eq_some_iff.1 hrun
  exact second a c₁ (first a c₁ hfirst) b d hsecond

/-- A step whatever the step before it has answered, and wherever that has led. -/
theorem after {f : α → Production β} (h : ∀ a d, From d (f a) R) : From c (p >>= f) R :=
  .bind (Q := fun _ _ => True) (fun _ _ _ => trivial) fun a d _ => h a d

/-- A step that looks ahead only. -/
theorem look {f : α → Production β} (stays : From c p fun _ d => d = c)
    (h : ∀ a, From c (f a) R) : From c (p >>= f) R :=
  stays.bind fun a _ hd => hd ▸ h a

theorem get {f : Cursor → Production β} (h : From c (f c) R) :
    From c (MonadState.get >>= f) R := h

theorem set {f : PUnit → Production β} (h : From d (f ()) R) :
    From c (MonadStateOf.set d >>= f) R := h

theorem token {f : Token → Production β} (h : From c (f c.token) R) :
    From c (Production.token >>= f) R := h

theorem peek {f : Token × Bool → Production β} (h : From c (f (c.next.token, !c.next.fresh)) R) :
    From c (Production.peek >>= f) R := h

theorem advance {f : Unit → Production β} (h : From c.next (f ()) R) :
    From c (Production.advance >>= f) R := h

theorem skipSign {f : Bool → Production β} {w : String}
    (yes : c.token = .sign w → From c.next (f true) R) (no : From c (f false) R) :
    From c (Production.skipSign w >>= f) R := by
  intro b e hrun
  rw [bind_apply, skipSign_apply] at hrun
  split at hrun
  · rename_i hsign
    exact yes (eq_of_beq hsign) b e hrun
  · exact no b e hrun

theorem ite {b : Prop} [Decidable b] (hp : b → From c p Q) (hq : ¬ b → From c q Q) :
    From c (if b then p else q) Q := by
  split
  · exact hp ‹_›
  · exact hq ‹_›

theorem orElse (hp : From c p Q) (hq : From c q Q) : From c (p <|> q) Q := by
  intro a d hrun
  replace hrun : (p c <|> q c) = some (a, d) := hrun
  cases hfirst : p c with
  | none =>
    rw [hfirst] at hrun
    exact hq a d hrun
  | some r =>
    rw [hfirst] at hrun
    cases hrun
    exact hp a d hfirst

/-- What every step of a repetition keeps holds at its end. -/
theorem iterate {σ : Type} {step : σ → Production (Option σ)} {Q : σ → Cursor → Prop} {a : σ}
    (start : Q a c) (hstep : ∀ a d, Q a d → From d (step a) fun r e => Q (r.getD a) e) :
    From c (Production.iterate step a) Q := by
  refine .get ?_
  generalize c.source = fuel
  induction fuel generalizing c a with
  | nil => exact .pure start
  | cons _ fuel ih =>
    refine (hstep a c start).bind fun r d hr => ?_
    cases r with
    | none => exact .pure hr
    | some b => exact ih hr

end From

end From

/-! ### From places of one kind on -/

variable {I J K : Cursor → Prop} {P Q : α → Prop} {R : β → Prop}

/-- Where the production answers, it leads from places of one kind to places of another one, with
    an answer that has a property. -/
def Keeps (I : Cursor → Prop) (p : Production α) (J : Cursor → Prop) (Q : α → Prop) : Prop :=
  ∀ c, I c → From c p fun a d => J d ∧ Q a

namespace Keeps

theorem pure {a : α} (h : Q a) : Keeps I (Pure.pure a) I Q := fun _ hc => .pure ⟨hc, h⟩

theorem fail : Keeps I (Production.fail : Production α) J Q := fun _ _ => .fail

theorem bind {f : α → Production β} (first : Keeps I p J P)
    (second : ∀ a, P a → Keeps J (f a) K R) : Keeps I (p >>= f) K R :=
  fun c hc => (first c hc).bind fun a d h => second a h.2 d h.1

/-- A step that has its answer at once. -/
theorem known {a : α} {f : α → Production β} (h : Keeps I (f a) J R) :
    Keeps I (Pure.pure a >>= f) J R := h

/-- A step whose answer does not matter. -/
theorem after {f : α → Production β} (first : Keeps I p J P) (second : ∀ a, Keeps J (f a) K R) :
    Keeps I (p >>= f) K R :=
  first.bind fun a _ => second a

theorem ite {b : Prop} [Decidable b] (hp : b → Keeps I p J Q) (hq : ¬ b → Keeps I q J Q) :
    Keeps I (if b then p else q) J Q :=
  fun c hc => .ite (fun hb => hp hb c hc) fun hb => hq hb c hc

theorem imp (h : Keeps I p J P) (himp : ∀ a, P a → Q a) : Keeps I p J Q :=
  fun c hc a d hrun => (h c hc a d hrun).imp_right (himp a)

theorem before (h : Keeps J p K Q) (himp : ∀ c, I c → J c) : Keeps I p K Q :=
  fun c hc => h c (himp c hc)

theorem behind (h : Keeps I p J Q) (himp : ∀ c, J c → K c) : Keeps I p K Q :=
  fun c hc a d hrun => (h c hc a d hrun).imp_left (himp d)

theorem orElse (hp : Keeps I p J Q) (hq : Keeps I q J Q) : Keeps I (p <|> q) J Q :=
  fun c hc => .orElse (hp c hc) (hq c hc)

/-! ### Steps -/

theorem get {f : Cursor → Production β} (h : ∀ d, I d → Keeps I (f d) J R) :
    Keeps I (MonadState.get >>= f) J R :=
  fun c hc => .get (h c hc c hc)

theorem set (hd : J d) : Keeps I (MonadStateOf.set d : Production PUnit) J fun _ => True := by
  intro c _ a c' hrun
  cases hrun
  exact ⟨hd, trivial⟩

theorem token : Keeps I token I fun _ => True := by
  intro c hc a c' hrun
  cases hrun
  exact ⟨hc, trivial⟩

theorem peek : Keeps I peek I fun _ => True := by
  intro c hc a c' hrun
  cases hrun
  exact ⟨hc, trivial⟩

theorem atSign (s : String) : Keeps I (atSign s) I fun _ => True :=
  token.after fun _ => pure trivial

theorem atWord (s : String) : Keeps I (atWord s) I fun _ => True :=
  token.after fun _ => pure trivial

theorem require (condition : Bool) : Keeps I (require condition) I fun _ => condition = true :=
  ite (fun h => pure h) fun _ => fail

/-! ### Repetitions -/

theorem iterate {step : σ → Production (Option σ)} {start : σ} {P : σ → Prop} (hstart : P start)
    (hstep : ∀ s, P s → Keeps I (step s) I fun r => ∀ s' ∈ r, P s') :
    Keeps I (iterate step start) I P := by
  intro c hc
  refine .iterate ⟨hc, hstart⟩ fun s d ⟨hd, hs⟩ r e hrun => ?_
  obtain ⟨he, hr⟩ := hstep s hs d hd r e hrun
  refine ⟨he, ?_⟩
  cases r with
  | none => exact hs
  | some s' => exact hr s' rfl

theorem manyWhile {more : Production Bool} (hmore : Keeps I more I fun _ => True)
    (hitem : Keeps I p I P) : Keeps I (manyWhile more p) I fun items => ∀ a ∈ items, P a := by
  refine (iterate (P := fun items => ∀ a ∈ items, P a) (List.forall_mem_nil _) ?_).bind
    fun items hitems => pure fun a ha => hitems a (List.mem_reverse.1 ha)
  intro items hitems
  refine hmore.after fun _ => ite (fun _ => hitem.bind fun a ha => pure fun s hs => ?_)
    fun _ => pure nofun
  obtain rfl := Option.some.inj hs
  exact List.forall_mem_cons.2 ⟨ha, hitems⟩

end Keeps

/-! ### Places of a source -/

section Places

open Cursor

variable {code source : List Char} {f : Bool → Production β} {close : String}

/-- A clear place that a production leads to is a place. -/
theorem Keeps.toWithin (h : Keeps I p (Clear code) P) : Keeps I p (Within code) P :=
  h.behind fun _ hc => hc.toWithin

/-- From places on, and so from clear places on. -/
theorem Keeps.ofWithin (h : Keeps (Within code) p K P) : Keeps (Clear code) p K P :=
  h.before fun _ hc => hc.toWithin

theorem keeps_advance : Keeps (Within code) advance (Within code) fun _ => True := by
  intro c hc a c' hrun
  cases hrun
  exact ⟨hc.next, trivial⟩

theorem keeps_jump {line : Nat} (hsource : Stands code source line) :
    Keeps I (jump source line) (Within code) fun _ => True :=
  .set (within_seek false hsource)

/-- A sign that is skipped, which no word could go on, leads to a clear place. -/
theorem keeps_skipSign_bind (hs : closes s = true) (yes : Keeps (Clear code) (f true) K R)
    (no : Keeps I (f false) K R) (hI : ∀ c, I c → Within code c) :
    Keeps I (skipSign s >>= f) K R := by
  intro c hc b c' hrun
  rw [bind_apply, skipSign_apply] at hrun
  split at hrun
  · rename_i hsign
    exact yes _ ((hI c hc).clear_next_of_sign (eq_of_beq hsign) hs) b c' hrun
  · exact no c hc b c' hrun

/-- A word that is skipped leads to a clear place. -/
theorem keeps_skipWord_bind (yes : Keeps (Clear code) (f true) K R) (no : Keeps I (f false) K R)
    (hI : ∀ c, I c → Within code c) : Keeps I (skipWord s >>= f) K R := by
  intro c hc b c' hrun
  rw [bind_apply, skipWord_apply] at hrun
  split at hrun
  · rename_i hword
    exact yes _ ((hI c hc).clear_next_of_word (eq_of_beq hword)) b c' hrun
  · exact no c hc b c' hrun

theorem keeps_skipSign (s : String) :
    Keeps (Within code) (skipSign s) (Within code) fun _ => True :=
  (Keeps.atSign s).after fun _ => .ite (fun _ => keeps_advance.after fun _ => .pure trivial)
    fun _ => .pure trivial

theorem keeps_skipWord (s : String) :
    Keeps (Within code) (skipWord s) (Within code) fun _ => True :=
  (Keeps.atWord s).after fun _ => .ite (fun _ => keeps_advance.after fun _ => .pure trivial)
    fun _ => .pure trivial

theorem keeps_sign (s : String) : Keeps (Within code) (sign s) (Within code) fun _ => True :=
  (keeps_skipSign s).after fun b => (Keeps.require b).imp fun _ _ => trivial

theorem keeps_word (s : String) : Keeps (Within code) (word s) (Within code) fun _ => True :=
  (keeps_skipWord s).after fun b => (Keeps.require b).imp fun _ _ => trivial

theorem clears_sign (hs : closes s = true) :
    Keeps (Within code) (sign s) (Clear code) fun _ => True :=
  keeps_skipSign_bind hs ((Keeps.require true).imp fun _ _ => trivial) .fail fun _ => id

theorem clears_word (s : String) : Keeps (Within code) (word s) (Clear code) fun _ => True :=
  keeps_skipWord_bind ((Keeps.require true).imp fun _ _ => trivial) .fail fun _ => id

theorem keeps_listUntil (hclose : closes close = true)
    (hitem : Keeps (Within code) p (Within code) P) :
    Keeps (Within code) (listUntil close p) (Clear code) fun items => ∀ a ∈ items, P a := by
  refine (Keeps.manyWhile ((Keeps.atSign close).after fun _ => .pure trivial) ?_).bind
    fun items h => (clears_sign hclose).after fun _ => .pure h
  refine hitem.bind fun a ha => (keeps_skipSign ",").after fun _ => .ite
    (fun _ => (Keeps.atSign close).after fun _ => (Keeps.require _).after fun _ => .pure ha)
    fun _ => .pure ha

/-- Behind the end of a statement the next one may begin. -/
theorem keeps_statementEnd : Keeps (Within code) statementEnd (Clear code) fun _ => True := by
  refine keeps_skipSign_bind (by decide) (.pure trivial) ?_ fun _ => id
  intro c hc a c' hrun
  replace hrun : require (c.fresh || c.token == .sign "\x7d" || c.token == .stop) c =
      some (a, c') := hrun
  rw [require_apply] at hrun
  split at hrun
  · rename_i hend
    cases hrun
    refine ⟨?_, trivial⟩
    rcases Bool.or_eq_true_iff.1 hend with hend | hstop
    · rcases Bool.or_eq_true_iff.1 hend with hfresh | hbrace
      · exact hc.clear_of_fresh hfresh
      · exact hc.clear_of_brace (eq_of_beq hbrace)
    · exact hc.clear_of_stop (eq_of_beq hstop)
  · cases hrun

end Places

end Production

end CodeSurvey.Ecma
