import CodeSurvey.Proofs.Ecma.Names
import CodeSurvey.Ecma.Parse

/-!
The grammar on functions, classes and arrow functions that do nothing: which nodes it makes of them.
-/

namespace CodeSurvey.Ecma.Grammar

open Production

variable {g : Grammar} {c c' d : Cursor} {t : Token} {p : String} {line : Nat}
  {ps : List (List Char)} {more : List Token} {s : List Char}

/-! ### Functions -/

theorem parameter_name (h : c.token = nameToken s) (hs : IsParameter s)
    (hnext : c.next.token = .sign "," ∨ c.next.token = .sign ")") :
    parameter g c = some ([valueNode c.line (String.ofList s)], c.next) := by
  have hname : nameOf? c.token = some (String.ofList s) := h ▸ hs.name
  have hat : c.token ≠ .sign "@" := ne_sign_of_nameOf? hname
  have hdots : c.token ≠ .sign "..." := ne_sign_of_nameOf? hname
  have hyield : c.token ≠ .word "yield" := h ▸ hs.free
  have hdecorators : decorators g c = some ([], c) := manyWhile_none _ (by simp [hat])
  have hdefault : c.next.token ≠ .sign "=" := by
    rcases hnext with h | h <;> rw [h] <;> decide
  simp [parameter, hdecorators, hdots, hyield, hname, valueName_apply hname, withDefault, hdefault]

/-- The node of a list of names as parameters. -/
def parametersNode (line : Nat) (ps : List (List Char)) : Node :=
  { kind := .parameterList, role := .parameters, line,
    children := ps.map fun p => valueNode line (String.ofList p) }

theorem takes_parameters (hps : ∀ p ∈ ps, IsParameter p) :
    Takes line (parameters g) (.sign "(" :: listTokens ps) (parametersNode line ps) := by
  intro c c' more h
  obtain ⟨hopen, hline, -, hrest⟩ := h.cons_inv
  obtain ⟨d, hlist, hd⟩ := takes_listUntil (parameter g) (fun p => [valueNode line p]) hps
    (fun on name hp next => by rw [parameter_name name hp next, on]) hrest
  have hflat : (ps.map fun p => [valueNode line (String.ofList p)]).flatten =
      ps.map fun p => valueNode line (String.ofList p) := by
    rw [← List.flatMap_def, ← List.map_eq_flatMap]
  refine ⟨d, ?_, hd⟩
  simp [parameters, hopen, hlist, hline, parametersNode, hflat]

theorem takes_block :
    Takes line (block g) [.sign "\x7b", .sign "\x7d"] { kind := .block, line } := by
  intro c c' more h
  obtain ⟨hopen, hline, -, hrest⟩ := h.cons_inv
  obtain ⟨hclose, -, hfresh, hrest⟩ := hrest.cons_inv
  have hnone : manyWhile (not <$> atSign "\x7d") (g .statement) c.next = some ([], c.next) :=
    manyWhile_none _ (by simp [hclose])
  exact ⟨c.next.next, by simp [block, hopen, hnone, hclose, hline], hrest, hfresh⟩

/-- The parameters and the body of a function that does nothing. -/
def restNodes (line : Nat) (ps : List (List Char)) : List Node :=
  [parametersNode line ps, { kind := .block, role := .body, line }]

theorem takes_functionRest (hps : ∀ p ∈ ps, IsParameter p) :
    Takes line (functionRest g) (.sign "(" :: listTokens ps ++ [.sign "\x7b", .sign "\x7d"])
      (restNodes line ps) := by
  intro c c' more h
  rw [List.append_assoc] at h
  obtain ⟨d, hparams, hd, -⟩ := takes_parameters (g := g) hps h
  obtain ⟨e, hblock, he⟩ := takes_block (g := g) hd
  exact ⟨e, by simp [functionRest, hparams, hblock, restNodes, Node.as], he⟩

/-- The keyword of a function and the star of a generator. -/
def functionTokens (generator : Bool) : List Token :=
  .word "function" :: if generator then [.sign "*"] else []

theorem skipStar_apply {generator : Bool} (ht : t ≠ .sign "*")
    (h : Ahead line c (functionTokens generator ++ t :: more) c') :
    c.token = .word "function" ∧
      ∃ d, skipSign "*" c.next = some (generator, d) ∧ Ahead line d (t :: more) c' := by
  obtain ⟨hword, -, -, hrest⟩ := h.cons_inv
  refine ⟨hword, ?_⟩
  cases generator with
  | true =>
    obtain ⟨hstar, -, -, hrest⟩ := hrest.cons_inv
    exact ⟨c.next.next, by simp [hstar], hrest⟩
  | false =>
    have hnext : c.next.token = t := hrest.cons_inv.1
    exact ⟨c.next, by simp [hnext, ht], hrest⟩

/-- The declaration of a function that does nothing. -/
def functionNode (line : Nat) (async generator : Bool) (s : List Char) (ps : List (List Char)) :
    Node :=
  { kind := .functionDeclaration async generator, line,
    children := { kind := .identifier, role := .name, line, text := String.ofList s } ::
      restNodes line ps }

theorem takes_function (async generator : Bool)
    (hs : nameOf? (nameToken s) = some (String.ofList s)) (hps : ∀ p ∈ ps, IsParameter p) :
    Takes line (function g true async line)
      (functionTokens generator ++ nameToken s :: .sign "(" :: listTokens ps ++
        [.sign "\x7b", .sign "\x7d"])
      (functionNode line async generator s ps) := by
  intro c c' more h
  simp only [List.append_assoc, List.cons_append] at h
  obtain ⟨hword, d, hstar, hd⟩ := skipStar_apply (ne_sign_of_nameOf? hs) h
  obtain ⟨hat, hline, -, hrest⟩ := hd.cons_inv
  have hname : nameOf? d.token = some (String.ofList s) := hat ▸ hs
  obtain ⟨e, hrun, he⟩ : ∃ e, functionRest g d.next = some (restNodes line ps, e) ∧
      Ahead line e more c' ∧ (more ≠ [] → e.fresh = false) :=
    takes_functionRest hps (by simpa using hrest)
  refine ⟨e, ?_, he⟩
  rw [function, bind_apply, word_apply, hword, if_pos (beq_self_eq_true _), Option.bind_some,
    bind_apply, hstar, Option.bind_some]
  simp [hname, name_apply hname, hrun, functionNode, Node.as, hline]

/-- The tokens of a function that does nothing. -/
def anyFunctionTokens (async generator : Bool) (s : List Char) (ps : List (List Char)) :
    List Token :=
  (if async then [.word "async"] else []) ++ (functionTokens generator ++ nameToken s ::
    .sign "(" :: listTokens ps ++ [.sign "\x7b", .sign "\x7d"])

theorem takes_anyFunction (async generator : Bool)
    (hs : nameOf? (nameToken s) = some (String.ofList s)) (hps : ∀ p ∈ ps, IsParameter p) :
    Takes line (anyFunction g true) (anyFunctionTokens async generator s ps)
      (functionNode line async generator s ps) := by
  intro c c' more h
  rw [anyFunctionTokens] at h
  cases async with
  | true =>
    obtain ⟨hword, hline, -, hrest⟩ := h.cons_inv
    obtain ⟨d, hrun, hd⟩ := takes_function (g := g) true generator hs hps hrest
    exact ⟨d, by simp [anyFunction, hword, hline, hrun], hd⟩
  | false =>
    have hword : c.token = .word "function" ∧ c.line = line := ⟨h.cons_inv.1, h.cons_inv.2.1⟩
    obtain ⟨d, hrun, hd⟩ := takes_function (g := g) false generator hs hps h
    exact ⟨d, by simp [anyFunction, hword.1, hword.2, hrun], hd⟩

/-! ### Classes -/

/-- The declaration of a class without members. -/
def classNode (line : Nat) (s : List Char) : Node :=
  { kind := .classDeclaration, line, children := [
      { kind := .identifier, role := .name, line, text := String.ofList s },
      { kind := .classBody, role := .body, line }] }

/-- The tokens of a class without members. -/
def classTokens (s : List Char) : List Token :=
  [.word "class", nameToken s, .sign "\x7b", .sign "\x7d"]

theorem takes_anyClass (hs : nameOf? (nameToken s) = some (String.ofList s)) :
    Takes line (anyClass g true) (classTokens s) (classNode line s) := by
  intro c c' more h
  obtain ⟨hword, hline, -, hrest⟩ := h.cons_inv
  obtain ⟨hat, hline', -, hrest⟩ := hrest.cons_inv
  obtain ⟨hopen, hline'', -, hrest⟩ := hrest.cons_inv
  obtain ⟨hclose, -, hfresh, hrest⟩ := hrest.cons_inv
  have hname : nameOf? c.next.token = some (String.ofList s) := hat ▸ hs
  have hdecorators : decorators g c = some ([], c) := manyWhile_none _ (by simp [hword])
  have hnone : ∀ item : Production (Option Node),
      manyWhile (not <$> atSign "\x7d") item c.next.next.next = some ([], c.next.next.next) :=
    fun item => manyWhile_none _ (by simp [hclose])
  refine ⟨_, ?_, hrest, hfresh⟩
  simp [anyClass, hdecorators, classFrom, hword, hname, name_apply hname, hopen, hnone, hclose,
    classNode, Node.as, hline, hline', hline'']

/-! ### Arrow functions -/

/-- A list of names in parentheses, as an expression. -/
theorem spreadable_name {depth : Nat} (h : c.token = nameToken s) (hs : IsParameter s)
    (hnext : c.next.token = .sign "," ∨ c.next.token = .sign ")") :
    spreadable (bounded (depth + 1)) c = some (valueNode c.line (String.ofList s), c.next) := by
  have hname : nameOf? c.token = some (String.ofList s) := h ▸ hs.name
  have hdots : c.token ≠ .sign "..." := ne_sign_of_nameOf? hname
  have hend : EndsValue c.next := hnext.imp_right .inl
  have harrow : c.next.token ≠ .sign "=>" := by
    rcases hnext with h | h <;> rw [h] <;> decide
  have hrun : assignment (bounded depth) true c = _ :=
    assignment_name hname (h ▸ hs.free) hend harrow
  simp [spreadable, hdots, bounded, rule, hrun]

/-- The names of a list as nodes. -/
def valueNodes (line : Nat) (ps : List (List Char)) : List Node :=
  ps.map fun p => valueNode line (String.ofList p)

theorem asPatterns?_valueNodes (ps : List (List Char)) :
    asPatterns? (valueNodes line ps) = some (valueNodes line ps) := by
  induction ps with
  | nil => rfl
  | cons p ps ih =>
    have hp : (valueNode line (String.ofList p)).asPattern? =
        some (valueNode line (String.ofList p)) := by
      by_cases h : String.ofList p = "undefined" <;> simp [valueNode, h, Node.asPattern?]
    show asPatterns? (_ :: valueNodes line ps) = _
    rw [asPatterns?, hp, ih]
    rfl

theorem map_fst_listItems (ps : List (List Char)) :
    (listItems (fun p comma => (valueNode line p, comma)) ps).map Prod.fst =
      valueNodes line ps := by
  fun_induction listItems (fun p comma => (valueNode line p, comma)) ps with
  | case1 => rfl
  | case2 p => rfl
  | case3 p ps _ ih => rw [List.map_cons, ih]; rfl

theorem getLast?_listItems {α : Type} (make : String → Bool → α) (ps : List (List Char)) :
    (listItems make ps).getLast? = ps.getLast?.map fun p => make (String.ofList p) false := by
  fun_induction listItems make ps with
  | case1 => rfl
  | case2 p => rfl
  | case3 p ps hps ih =>
    cases ps with
    | nil => exact absurd rfl hps
    | cons q ps =>
      rw [List.getLast?_cons, ih, List.getLast?_cons, List.getLast?_cons_cons, List.getLast?_cons]
      rfl

/-- A node stands for a list of names in front of an arrow. -/
structure IsNameList (line : Nat) (ps : List (List Char)) (n : Node) : Prop where
  on : n.line = line
  parameters : n.asParameters? = some (valueNodes line ps)
  noCall : asyncArguments? n = none

theorem parenthesised_apply (depth : Nat) (hps : ∀ p ∈ ps, IsParameter p)
    (h : Ahead line c (.sign "(" :: listTokens ps ++ .sign "=>" :: more) c') :
    ∃ n d, parenthesised (bounded (depth + 1)) c = some (n, d) ∧ IsNameList line ps n ∧
      Ahead line d (.sign "=>" :: more) c' ∧ d.fresh = false := by
  obtain ⟨hopen, hline, -, hrest⟩ := h.cons_inv
  have hlisted : ReadsListed line (do
      let item ← spreadable (bounded (depth + 1))
      let comma ← skipSign ","
      require (comma || (← atSign ")"))
      return (item, comma)) fun p comma => (valueNode line p, comma) :=
    ⟨fun on name parameter next => by
        simp [spreadable_name name parameter (.inl next), next, on],
      fun on name parameter next => by
        simp [spreadable_name name parameter (.inr next), next, on]⟩
  obtain ⟨d, hrun, hd⟩ := manyWhile_listed hlisted hps hrest
  obtain ⟨hclose, -, hfresh, hbehind⟩ := hd.cons_inv
  have harrow := hbehind.cons_inv.1
  replace hfresh := hfresh (List.cons_ne_nil _ _)
  rw [parenthesised, bind_apply, get_apply, Option.bind_some, bind_apply, sign_apply, hopen,
    if_pos (beq_self_eq_true _), Option.bind_some, bind_apply, hrun, Option.bind_some]
  simp only [bind_apply, sign_apply, hclose, beq_self_eq_true, if_true, Option.bind_some,
    map_fst_listItems, getLast?_listItems]
  have hplain : ∀ p ps, (!(valueNodes line (p :: ps)).isEmpty &&
      (valueNodes line (p :: ps)).all (·.kind != .spread) &&
      ((p :: ps).getLast?.map fun p => (valueNode line (String.ofList p), false)).all (!·.2)) =
        true := by
    intro p ps
    have hkind : ∀ s, (valueNode line s).kind ≠ .spread := fun s => by
      by_cases h : s = "undefined" <;> simp [valueNode, h]
    simp [valueNodes, hkind, List.getLast?_cons]
  rcases ps with - | ⟨p, - | ⟨q, ps⟩⟩
  · exact ⟨{ kind := .arrowParameters, line := c.line }, d.next,
      by simp [valueNodes, harrow, hfresh], ⟨hline, rfl, rfl⟩, hbehind, hfresh⟩
  · have hsequence : ((valueNode line (String.ofList p)).kind == .sequence) = false := by
      by_cases h : String.ofList p = "undefined" <;> simp [valueNode, h]
    refine ⟨{ kind := .parenthesized, line := c.line, children := valueNodes line [p] }, d.next,
      by rw [if_pos (hplain p [])]; rfl, ⟨hline, ?_, rfl⟩, hbehind, hfresh⟩
    show (if _ then _ else _) = _
    rw [hsequence, if_neg Bool.false_ne_true]
    exact asPatterns?_valueNodes [p]
  · let list : Node :=
      { kind := .sequence, line := c.line, children := valueNodes line (p :: q :: ps) }
    exact ⟨{ kind := .parenthesized, line := c.line, children := [list] }, d.next,
      by rw [if_pos (hplain p (q :: ps))]; rfl, ⟨hline, asPatterns?_valueNodes _, rfl⟩, hbehind,
      hfresh⟩

theorem conditional_list (depth : Nat) (allowIn : Bool) (hps : ∀ p ∈ ps, IsParameter p)
    (h : Ahead line c (.sign "(" :: listTokens ps ++ .sign "=>" :: more) c') :
    ∃ n d, conditional (bounded (depth + 1)) allowIn c = some (n, d) ∧ IsNameList line ps n ∧
      Ahead line d (.sign "=>" :: more) c' ∧ d.fresh = false := by
  obtain ⟨n, d, hrun, hlist, hd, hfresh⟩ := parenthesised_apply depth hps h
  have hopen : c.token = .sign "(" := h.cons_inv.1
  have hend : EndsValue d := .inr (.inr (.inr hd.cons_inv.1))
  have hchain : chain (bounded (depth + 1)) true c = some (n, d) := by
    simp [chain, hopen, value, hrun, iterate_none (chainStep_none hend)]
  have hoperand := operand_of_chain (by rw [hopen]; decide) (by rw [hopen]; decide)
    (by rw [hopen]; decide) (by rw [hopen]; simp) (by rw [hopen]; simp) hchain hend
  exact ⟨n, d, conditional_of_operand hoperand hend, hlist, hd, hfresh⟩

theorem takes_arguments (depth : Nat) (hps : ∀ p ∈ ps, IsParameter p) :
    Takes line (arguments (bounded (depth + 1))) (.sign "(" :: listTokens ps)
      { kind := .argumentList, line, children := valueNodes line ps } := by
  intro c c' more h
  obtain ⟨hopen, hline, -, hrest⟩ := h.cons_inv
  obtain ⟨d, hlist, hd⟩ := takes_listUntil (spreadable (bounded (depth + 1))) (valueNode line) hps
    (fun on name hp next => by rw [spreadable_name name hp next, on]) hrest
  exact ⟨d, by simp [arguments, hopen, hlist, hline, valueNodes], hd⟩

theorem conditional_asyncList (depth : Nat) (allowIn : Bool) (hps : ∀ p ∈ ps, IsParameter p)
    (h : Ahead line c (.word "async" :: .sign "(" :: listTokens ps ++ .sign "=>" :: more) c') :
    ∃ n list d, conditional (bounded (depth + 1)) allowIn c = some (n, d) ∧
      asyncArguments? n = some list ∧ list.line = line ∧
      list.asParameters? = some (valueNodes line ps) ∧
      Ahead line d (.sign "=>" :: more) c' ∧ d.fresh = false := by
  obtain ⟨hword, hline, -, hrest⟩ := h.cons_inv
  have hopen : c.next.token = .sign "(" := hrest.cons_inv.1
  obtain ⟨d, hrun, hd, hfresh⟩ := takes_arguments depth hps hrest
  have hend : EndsValue d := .inr (.inr (.inr hd.cons_inv.1))
  have hvalue : value (bounded (depth + 1)) true c = some (valueNode c.line "async", c.next) :=
    value_name (by rw [hword]; rfl) (by rw [hopen]; simp)
  let list : Node := { kind := .argumentList, line, children := valueNodes line ps }
  let call : Node := { kind := .call, line := c.line, children := [valueNode c.line "async", list] }
  have hchain : chain (bounded (depth + 1)) true c = some (call, d) := by
    have hlink : chainStep (bounded (depth + 1)) true (valueNode c.line "async") c.next =
        some (some call, d) := by
      simp [chainStep, hopen, hrun, call, list, valueNode]
    simp [chain, hword, hvalue, iterate_one hrest.source_ne_nil hlink (chainStep_none hend)]
  have hoperand := operand_of_chain (by rw [hword]; decide) (by rw [hword]; decide)
    (by rw [hword]; decide) (by rw [hword]; simp) (by rw [hword]; simp) hchain hend
  exact ⟨call, list, d, conditional_of_operand hoperand hend, rfl, rfl, asPatterns?_valueNodes ps,
    hd, hfresh (List.cons_ne_nil _ _)⟩

/-- A number is an expression. -/
theorem assignment_number {allowIn : Bool} {digits : String} (h : c.token = .number digits)
    (hend : c.next.token = .sign ";") :
    assignment g allowIn c =
      some ({ kind := .number, line := c.line, text := digits }, c.next) := by
  have hends : EndsValue c.next := .inr (.inr (.inl hend))
  have hchain : chain g true c =
      some ({ kind := .number, line := c.line, text := digits }, c.next) := by
    simp [chain, h, value, iterate_none (chainStep_none hends)]
  have hoperand := operand_of_chain (by rw [h]; simp [operandMarks]) (by rw [h]; simp)
    (by rw [h]; simp) (by rw [h]; simp) (by rw [h]; simp) hchain hends
  rw [assignment]
  simp [h, nameOf?, assignmentFrom_of_operand hoperand hends (by rw [hend]; decide)]

/-- The node of an arrow function that answers nothing but zero. -/
def arrowNode (line : Nat) (async : Bool) (ps : List (List Char)) : Node :=
  { kind := .arrowFunction async, line,
    children := [parametersNode line ps, { kind := .number, role := .body, line, text := "0" }] }

/-- The tokens of an arrow function that answers nothing but zero. -/
def arrowTokens (async : Bool) (ps : List (List Char)) : List Token :=
  (if async then [.word "async"] else []) ++ .sign "(" :: listTokens ps ++ [.sign "=>", .number "0"]

theorem listArrow_apply (depth : Nat) (allowIn async : Bool) {list : Node}
    (hlist : list.line = line) (hparams : list.asParameters? = some (valueNodes line ps))
    (hfresh : c.fresh = false)
    (h : Ahead line c (.sign "=>" :: .number "0" :: .sign ";" :: more) c') :
    ∃ d, listArrow (bounded (depth + 1)) allowIn async line list c =
        some (arrowNode line async ps, d) ∧ Ahead line d (.sign ";" :: more) c' := by
  obtain ⟨harrow, -, -, hrest⟩ := h.cons_inv
  obtain ⟨hzero, hline, -, hrest⟩ := hrest.cons_inv
  have hnumber : assignment (bounded depth) allowIn c.next = _ :=
    assignment_number hzero hrest.cons_inv.1
  refine ⟨c.next.next, ?_, hrest⟩
  simp [listArrow, hparams, arrow, harrow, hfresh, hzero, bounded, rule, hnumber, arrowNode,
    Node.as, hlist, hline, parametersNode, valueNodes]

theorem assignment_arrow (depth : Nat) {async : Bool} (hps : ∀ p ∈ ps, IsParameter p)
    (h : Ahead line c (arrowTokens async ps ++ .sign ";" :: more) c') :
    ∃ d, assignment (bounded (depth + 1)) true c = some (arrowNode line async ps, d) ∧
      Ahead line d (.sign ";" :: more) c' := by
  simp only [arrowTokens, List.append_assoc] at h
  cases async with
  | true =>
    obtain ⟨hword, hline, -, hrest⟩ := h.cons_inv
    obtain ⟨n, list, d, hrun, hcall, hlist, hparams, hd, hfresh⟩ :=
      conditional_asyncList depth true hps h
    obtain ⟨e, harrow, he⟩ := listArrow_apply depth true true hlist hparams hfresh hd
    refine ⟨e, ?_, he⟩
    simp [assignment, hword, hrest.cons_inv.1, nameOf?, reservedWords, assignmentFrom, hrun,
      hd.cons_inv.1, hfresh, hcall, hline, harrow]
  | false =>
    obtain ⟨hopen, hline, -, hrest⟩ := h.cons_inv
    obtain ⟨n, d, hrun, hlist, hd, hfresh⟩ := conditional_list depth true hps h
    obtain ⟨e, harrow, he⟩ :=
      listArrow_apply depth true false hlist.on hlist.parameters hfresh hd
    refine ⟨e, ?_, he⟩
    simp [assignment, hopen, nameOf?, assignmentFrom, hrun, hd.cons_inv.1, hfresh, hlist.noCall,
      hline, harrow]

/-! ### Variables -/

/-- The word that declares a variable. -/
inductive Binder where
  | const
  | let
  | var
  deriving DecidableEq, Repr

/-- The spelling of the word. -/
def Binder.text : Binder → String
  | const => "const"
  | .let => "let"
  | var => "var"

/-- The kind of a declaration with the word. -/
def Binder.kind : Binder → Kind
  | const | .let => .lexicalDeclaration
  | var => .variableDeclaration

/-- A variable that is bound to an arrow function. -/
def variableNode (line : Nat) (b : Binder) (s : List Char) (async : Bool) (ps : List (List Char)) :
    Node :=
  { kind := b.kind, line, children := [
      { kind := .variableDeclarator, line, children := [
          { kind := .identifier, role := .name, line, text := String.ofList s },
          (arrowNode line async ps).as .value] }] }

/-- The tokens of a variable that is bound to an arrow function. -/
def variableTokens (b : Binder) (s : List Char) (async : Bool) (ps : List (List Char)) :
    List Token :=
  .word b.text :: nameToken s :: .sign "=" :: arrowTokens async ps ++ [.sign ";"]

theorem target_name (h : nameOf? c.token = some p) :
    target g c = some ({ kind := .identifier, line := c.line, text := p }, c.next) := by
  rcases token_of_nameOf? h with ⟨htoken, -⟩ | htoken <;>
    simp [target, htoken, name_apply h, Node.asPattern?]

theorem variablesKind_apply (b : Binder) (h : c.token = .word b.text) :
    variablesKind c = some (b.kind, c.next) := by
  cases b <;> simp [variablesKind, h, Binder.text, Binder.kind]

theorem takes_variableStatement (depth : Nat) (b : Binder) (async : Bool)
    (hs : nameOf? (nameToken s) = some (String.ofList s)) (hps : ∀ p ∈ ps, IsParameter p) :
    Takes line (variableStatement (bounded (depth + 2))) (variableTokens b s async ps)
      (variableNode line b s async ps) := by
  intro c c' more h
  simp only [variableTokens, List.append_assoc, List.cons_append] at h
  obtain ⟨hword, hline, -, hrest⟩ := h.cons_inv
  obtain ⟨hat, hline', -, hrest⟩ := hrest.cons_inv
  obtain ⟨hequals, -, -, hrest⟩ := hrest.cons_inv
  obtain ⟨d, harrow, hd⟩ := assignment_arrow depth hps hrest
  obtain ⟨hend, -, hfresh, hrest⟩ := hd.cons_inv
  have htarget : bounded (depth + 2) .target c.next = _ := target_name (hat ▸ hs)
  have hvalue : bounded (depth + 2) (.assignment true) c.next.next.next = _ := harrow
  have hmore : moreDeclarators (bounded (depth + 2)) true d = some ([], d) :=
    manyWhile_none _ (by simp [hend])
  refine ⟨d.next, ?_, hrest, hfresh⟩
  simp [variableStatement, variablesKind_apply b hword, htarget, declaratorRest, hequals, hvalue,
    hmore, statementEnd, hend, hline, hline', variableNode, Node.as]

end CodeSurvey.Ecma.Grammar
