import CodeSurvey.Proofs.Ecma.Running

/-!
The grammar on names and on lists of names: as expressions, as arguments and as parameters.
-/

namespace CodeSurvey.Ecma.Grammar

open Production

variable {g : Grammar} {c d : Cursor} {t : Token} {p : String} {n : Node}

/-! ### Names -/

/-- A name as a value or a parameter. -/
def valueNode (line : Nat) (p : String) : Node :=
  { kind := if p == "undefined" then .undefined else .identifier, line, text := p }

theorem token_of_nameOf? (h : nameOf? t = some p) :
    (t = .word p ∧ reservedWords.contains p = false) ∨ t = .escapedWord p := by
  unfold nameOf? at h
  split at h
  · split at h
    · cases h
    · rename_i hreserved
      exact .inl ⟨by rw [Option.some.inj h], by simpa [Option.some.inj h] using hreserved⟩
  · exact .inr (by rw [Option.some.inj h])
  · cases h

theorem ne_word_of_nameOf? {s : String} (h : nameOf? t = some p)
    (hs : reservedWords.contains s = true) : t ≠ .word s := by
  rintro rfl
  rw [nameOf?, if_pos hs] at h
  cases h

theorem ne_sign_of_nameOf? {s : String} (h : nameOf? t = some p) : t ≠ .sign s := by
  rintro rfl
  cases h

theorem name_apply (h : nameOf? c.token = some p) :
    name c = some ({ kind := .identifier, line := c.line, text := p }, c.next) := by
  simp [name, h]

theorem valueName_apply (h : nameOf? c.token = some p) :
    valueName c = some (valueNode c.line p, c.next) := by
  rw [valueName, bind_apply, name_apply h]
  simp [valueNode]
  split <;> rfl

/-! ### Tests of what stands here -/

@[simp]
theorem atName_apply (c : Cursor) : atName c = some ((nameOf? c.token).isSome, c) := rfl

@[simp]
theorem atArrow_apply (c : Cursor) :
    atArrow c = some (c.token == .sign "=>" && !c.fresh, c) := rfl

@[simp]
theorem atAsyncFunction_apply (c : Cursor) : atAsyncFunction c =
    some (c.token == .word "async" &&
      (c.next.token, !c.next.fresh) == (.word "function", true), c) := by
  rw [atAsyncFunction, bind_apply, atWord_apply, Option.bind_some]
  dsimp only
  split <;> simp_all

/-! ### Values -/

/-- A word that begins no function, class or import by itself is a value. -/
theorem value_word {calls : Bool} (h : c.token = .word p) (hfunction : p ≠ "function")
    (hclass : p ≠ "class") (himport : p ≠ "import") :
    value g calls c = (do
      if valueWords.contains p then
        advance
        return ({ kind := .valueWord, line := c.line, text := p } : Node)
      else if ← atAsyncFunction then anyFunction g false
      else valueName : Production Node) c := by
  rw [value, bind_apply, get_apply, Option.bind_some]
  refine congrFun ?_ c
  rw [h]
  dsimp only
  split
  case h_11 heq => exact absurd (Token.word.inj heq) hfunction
  case h_12 heq => exact absurd (Token.word.inj heq) hclass
  case h_13 heq => exact absurd (Token.word.inj heq) himport
  case h_14 heq => rw [Token.word.inj heq]
  case h_15 hword => exact absurd rfl (hword p)
  all_goals contradiction

theorem value_name {calls : Bool} (h : nameOf? c.token = some p)
    (hnext : c.next.token ≠ .word "function") :
    value g calls c = some (valueNode c.line p, c.next) := by
  rcases token_of_nameOf? h with ⟨htoken, hreserved⟩ | htoken
  · have hne : ∀ {s : String}, reservedWords.contains s = true → p ≠ s := by
      rintro s hs rfl
      exact absurd (hs.symm.trans hreserved) nofun
    have hsub : ∀ s ∈ valueWords, reservedWords.contains s = true := by decide
    have hvalue : p ∉ valueWords := fun hmem => hne (hsub p hmem) rfl
    rw [value_word htoken (hne (by decide)) (hne (by decide)) (hne (by decide))]
    simp [hvalue, hnext, valueName_apply h]
  · simp [value, htoken, valueName_apply h]

/-- A sign stands here that goes on with no value. -/
def EndsValue (c : Cursor) : Prop :=
  c.token = .sign "," ∨ c.token = .sign ")" ∨ c.token = .sign ";" ∨ c.token = .sign "=>"

theorem chainStep_none {calls : Bool} (h : EndsValue c) :
    chainStep g calls n c = some (none, c) := by
  rcases h with h | h | h | h <;> simp [chainStep, h]

/-- A chain is an operand if no mark stands in front of it. -/
theorem operand_of_chain (hmark : operandMarks.contains c.token = false)
    (hplus : c.token ≠ .sign "++") (hminus : c.token ≠ .sign "--")
    (hprivate : ∀ s, c.token ≠ .privateWord s)
    (hawait : c.token = .word "await" → EndsValue c.next)
    (hchain : chain g true c = some (n, d)) (hend : EndsValue d) :
    operand g c = some (n, d) := by
  have hupdated : updated g c = some (n, d) := by
    rcases hend with h | h | h | h <;> simp [updated, hchain, h]
  by_cases hword : c.token = .word "await"
  · have hname : atAwaitName c = some (true, c) := by
      rcases hawait hword with h | h | h | h <;>
        simp [atAwaitName, h, startsOperand, operandSigns]
    simp [operand, hword, operandMarks, hname, hupdated]
  · rw [operand, bind_apply, get_apply, Option.bind_some]
    dsimp only
    rw [if_neg (by rw [hmark]; exact Bool.false_ne_true)]
    refine (congrFun ?_ c).trans hupdated
    split
    case h_1 heq => exact absurd heq hplus
    case h_2 heq => exact absurd heq hminus
    case h_3 heq => exact absurd heq hword
    case h_4 heq => exact absurd heq (hprivate _)
    case h_5 => rfl

theorem operation_of_operand {level : Nat} {allowIn : Bool} (h : operand g c = some (n, d))
    (hend : EndsValue d) : operation g level allowIn c = some (n, d) := by
  have hnone : operatorLevels.lookup d.token = none := by
    rcases hend with h | h | h | h <;> rw [h] <;> rfl
  rw [operation, bind_apply, h, Option.bind_some]
  exact iterate_none (by simp [hnone])

theorem conditional_of_operand {allowIn : Bool} (h : operand g c = some (n, d))
    (hend : EndsValue d) : conditional g allowIn c = some (n, d) := by
  have hskip : d.token ≠ .sign "?" := by
    rcases hend with h | h | h | h <;> rw [h] <;> decide
  simp [conditional, operation_of_operand h hend, hskip]

/-- A value that no arrow follows is an expression of its own. -/
theorem assignmentFrom_of_operand {allowIn : Bool} (h : operand g c = some (n, d))
    (hend : EndsValue d) (harrow : d.token ≠ .sign "=>") :
    assignmentFrom g allowIn c = some (n, d) := by
  rw [assignmentFrom, bind_apply, get_apply, Option.bind_some, bind_apply,
    conditional_of_operand h hend, Option.bind_some]
  simp only [bind_apply, atArrow_apply, Option.bind_some]
  rcases hend with h | h | h | h
  · simp [h, updateOperators]
  · simp [h, updateOperators]
  · simp [h, updateOperators]
  · exact absurd h harrow

/-- A name is an expression. -/
theorem assignment_name {allowIn : Bool} (h : nameOf? c.token = some p)
    (hyield : c.token ≠ .word "yield") (hend : EndsValue c.next)
    (harrow : c.next.token ≠ .sign "=>") :
    assignment g allowIn c = some (valueNode c.line p, c.next) := by
  have hnext : c.next.token ≠ .word "function" ∧ nameOf? c.next.token = none := by
    rcases hend with h | h | h | h <;> rw [h] <;> exact ⟨nofun, rfl⟩
  have hchain : chain g true c = some (valueNode c.line p, c.next) := by
    have hnew := ne_word_of_nameOf? h (s := "new") (by decide)
    simp only [chain, bind_apply, atWord_apply, Option.bind_some, if_apply,
      beq_eq_false_iff_ne.2 hnew, Bool.false_eq_true, if_false, value_name h hnext.1]
    exact iterate_none (chainStep_none hend)
  have hmark : operandMarks.contains c.token = false := by
    have hnone : ∀ m ∈ operandMarks, nameOf? m = none := by decide
    refine Bool.eq_false_iff.2 fun hmem => ?_
    rw [hnone _ (List.contains_iff_mem.1 hmem)] at h
    cases h
  have hoperand := operand_of_chain hmark (ne_sign_of_nameOf? h) (ne_sign_of_nameOf? h)
    (by rintro s heq; rw [heq] at h; cases h) (fun _ => hend) hchain hend
  rw [assignment]
  simp [hyield, h, hnext.2, harrow, assignmentFrom_of_operand hoperand hend harrow]

/-! ### Lists of names -/

/-- The text is a name that may stand for a parameter. -/
structure IsParameter (s : List Char) : Prop where
  name : nameOf? (nameToken s) = some (String.ofList s)
  free : nameToken s ≠ .word "yield"

/-- The tokens of names with commas between them and of the parenthesis that closes the list. -/
def listTokens : List (List Char) → List Token
  | [] => [.sign ")"]
  | [p] => [nameToken p, .sign ")"]
  | p :: ps => nameToken p :: .sign "," :: listTokens ps

/-- What a production makes of the names of a list: it sees whether a comma follows. -/
def listItems {α : Type} (make : String → Bool → α) : List (List Char) → List α
  | [] => []
  | [p] => [make (String.ofList p) false]
  | p :: ps => make (String.ofList p) true :: listItems make ps

variable {α : Type} {line : Nat} {ps : List (List Char)} {ts more : List Token} {c' : Cursor}

theorem length_listItems_le (make : String → Bool → α) (ps : List (List Char)) :
    (listItems make ps).length ≤ (listTokens ps).length := by
  fun_induction listTokens ps with
  | case1 => exact Nat.zero_le _
  | case2 p => exact Nat.le_succ _
  | case3 p ps hps ih =>
    cases ps with
    | nil => exact absurd rfl hps
    | cons q ps =>
      simp only [listItems, List.length_cons] at ih ⊢
      omega

theorem listItems_const (make : String → α) (ps : List (List Char)) :
    listItems (fun p _ => make p) ps = ps.map fun p => make (String.ofList p) := by
  fun_induction listItems (fun p _ => make p) ps with
  | case1 => rfl
  | case2 p => rfl
  | case3 p ps _ ih => rw [ih, List.map_cons]

/-- A production reads one name of a list and the comma behind it. -/
structure ReadsListed (line : Nat) (item : Production α) (make : String → Bool → α) : Prop where
  comma {c : Cursor} {p : List Char} (on : c.line = line) (name : c.token = nameToken p)
    (parameter : IsParameter p) (next : c.next.token = .sign ",") :
    item c = some (make (String.ofList p) true, c.next.next)
  last {c : Cursor} {p : List Char} (on : c.line = line) (name : c.token = nameToken p)
    (parameter : IsParameter p) (next : c.next.token = .sign ")") :
    item c = some (make (String.ofList p) false, c.next)

/-- A production reads these tokens and makes something of them, whatever follows. -/
def Takes (line : Nat) (x : Production α) (ts : List Token) (a : α) : Prop :=
  ∀ {c c' : Cursor} {more : List Token}, Ahead line c (ts ++ more) c' →
    ∃ d, x c = some (a, d) ∧ Ahead line d more c' ∧ (more ≠ [] → d.fresh = false)

theorem Many.listed {item : Production α} {make : String → Bool → α}
    (hitem : ReadsListed line item make) (hps : ∀ p ∈ ps, IsParameter p)
    (h : Ahead line c (listTokens ps ++ more) c') :
    ∃ d, Many (do return !(← atSign ")")) item c (listItems make ps) d ∧
      Ahead line d (.sign ")" :: more) c' := by
  have hstop : ∀ {d : Cursor}, d.token = .sign ")" →
      Many (do return !(← atSign ")")) item d [] d := fun hd => .stop (by simp [hd])
  have hgo : ∀ {p : List Char} {d : Cursor}, IsParameter p → d.token = nameToken p →
      (do return !(← atSign ")") : Production Bool) d = some (true, d) := fun hp hd => by
    have hopen := hd ▸ ne_sign_of_nameOf? hp.name (s := ")")
    simp [hopen]
  induction ps generalizing c with
  | nil => exact ⟨c, hstop h.cons_inv.1, h⟩
  | cons p ps ih =>
    have hp := hps p List.mem_cons_self
    cases ps with
    | nil =>
      obtain ⟨hname, hline, -, hrest⟩ := h.cons_inv
      have hclose := hrest.cons_inv.1
      exact ⟨c.next, .item (hgo hp hname) (hitem.last hline hname hp hclose) (hstop hclose), hrest⟩
    | cons q ps =>
      obtain ⟨hname, hline, -, hrest⟩ := h.cons_inv
      obtain ⟨hcomma, -, -, hrest⟩ := hrest.cons_inv
      obtain ⟨d, hmany, hd⟩ := ih (fun p hmem => hps p (List.mem_cons_of_mem _ hmem)) hrest
      exact ⟨d, .item (hgo hp hname) (hitem.comma hline hname hp hcomma) hmany, hd⟩

theorem manyWhile_listed {item : Production α} {make : String → Bool → α}
    (hitem : ReadsListed line item make) (hps : ∀ p ∈ ps, IsParameter p)
    (h : Ahead line c (listTokens ps ++ more) c') :
    ∃ d, manyWhile (do return !(← atSign ")")) item c = some (listItems make ps, d) ∧
      Ahead line d (.sign ")" :: more) c' := by
  obtain ⟨d, hmany, hd⟩ := Many.listed hitem hps h
  refine ⟨d, manyWhile_apply hmany ?_, hd⟩
  have hitems := length_listItems_le make ps
  have htokens := h.length_le
  rw [List.length_append] at htokens
  omega

/-- A list of names, each of which a production reads by itself. -/
theorem takes_listUntil (item : Production α) (make : String → α) (hps : ∀ p ∈ ps, IsParameter p)
    (hitem : ∀ {c : Cursor} {p : List Char}, c.line = line → c.token = nameToken p →
      IsParameter p → c.next.token = .sign "," ∨ c.next.token = .sign ")" →
      item c = some (make (String.ofList p), c.next)) :
    Takes line (listUntil ")" item) (listTokens ps) (ps.map fun p => make (String.ofList p)) := by
  intro c c' more h
  have hlisted : ReadsListed line (do
      let a ← item
      if !(← skipSign ",") then require (← atSign ")")
      return a) fun p _ => make p :=
    ⟨fun on name parameter next => by simp [hitem on name parameter (.inl next), next],
      fun on name parameter next => by simp [hitem on name parameter (.inr next), next]⟩
  obtain ⟨d, hrun, hd⟩ := manyWhile_listed hlisted hps h
  obtain ⟨hclose, -, hfresh, hrest⟩ := hd.cons_inv
  refine ⟨d.next, ?_, hrest, hfresh⟩
  rw [listUntil, bind_apply, hrun, Option.bind_some, listItems_const]
  simp [hclose]

end CodeSurvey.Ecma.Grammar
