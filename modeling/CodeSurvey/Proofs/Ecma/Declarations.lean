import CodeSurvey.Proofs.Ecma.Functions
import CodeSurvey.Signature.Walk

/-!
The grammar on declarations that stand by themselves, perhaps exported, and the signature that each
of them gives rise to.
-/

namespace CodeSurvey.Ecma.Grammar

open Production

variable {g : Grammar} {c c' d : Cursor} {t : Token} {p : String} {line : Nat}
  {ps : List (List Char)} {more : List Token} {s : List Char}

/-- A function, a class without members, or a variable bound to an arrow function. Of a generator,
    the spaces around the star are known. -/
inductive Declaration where
  | function (async : Bool) (star : Option (List Char × List Char)) (name : List Char)
      (params : List (List Char))
  | classDef (name : List Char)
  | arrow (binder : Binder) (name : List Char) (async : Bool) (params : List (List Char))

namespace Declaration

/-- The name that is declared. -/
def name : Declaration → List Char
  | function _ _ name _ | classDef name | arrow _ name _ _ => name

/-- The names of the parameters. -/
def params : Declaration → List (List Char)
  | function _ _ _ params | arrow _ _ _ params => params
  | classDef _ => []

/-- The spaces before and behind the star of a generator. -/
def star : Declaration → Option (List Char × List Char)
  | function _ star _ _ => star
  | _ => none

/-- The names are none of the words of the language. -/
structure Named (b : Declaration) : Prop where
  name : nameOf? (nameToken b.name) = some (String.ofList b.name)
  params : ∀ p ∈ b.params, IsParameter p

/-- The tokens of a declaration. -/
def tokens : Declaration → List Token
  | function async star name params => anyFunctionTokens async star.isSome name params
  | classDef name => classTokens name
  | arrow binder name async params => variableTokens binder name async params

/-- The node of a declaration. -/
def node (line : Nat) : Declaration → Node
  | function async star name params => functionNode line async star.isSome name params
  | classDef name => classNode line name
  | arrow binder name async params => variableNode line binder name async params

end Declaration

theorem takes_function_declaration (depth : Nat) {async : Bool}
    {star : Option (List Char × List Char)} (hs : nameOf? (nameToken s) = some (String.ofList s))
    (hps : ∀ p ∈ ps, IsParameter p) :
    Takes line (declaration? (bounded (depth + 2)))
      (anyFunctionTokens async star.isSome s ps)
      (some (functionNode line async star.isSome s ps)) := by
  intro c c' more h
  obtain ⟨d, hrun, hd⟩ := takes_anyFunction (g := bounded (depth + 2)) async star.isSome hs hps h
  refine ⟨d, ?_, hd⟩
  cases async with
  | false => simp [declaration?, h.cons_inv.1, hrun]
  | true =>
    obtain ⟨hword, -, hfresh, hrest⟩ := h.cons_inv
    have hfunction : c.next.token = .word "function" := hrest.cons_inv.1
    replace hfresh : c.next.fresh = false := hfresh (List.cons_ne_nil _ _)
    simp [declaration?, hword, hfunction, hfresh, hrun]

theorem atVariables_apply {b : Binder} (h : c.token = .word b.text)
    (hs : nameOf? c.next.token = some p) : atVariables c = some (true, c) := by
  cases b <;> simp [atVariables, h, Binder.text, hs]

theorem takes_declaration (depth : Nat) {b : Declaration} (hb : b.Named) :
    Takes line (declaration? (bounded (depth + 2))) b.tokens (some (b.node line)) := by
  obtain ⟨hname, hparams⟩ := hb
  cases b with
  | function async star name params => exact takes_function_declaration depth hname hparams
  | classDef name =>
    intro c c' more h
    obtain ⟨d, hrun, hd⟩ := takes_anyClass (g := bounded (depth + 2)) hname h
    have hword := h.cons_inv.1
    refine ⟨d, ?_, hd⟩
    simp [declaration?, hword, hrun, Declaration.node, Declaration.name]
  | arrow binder name async params =>
    intro c c' more h
    obtain ⟨d, hrun, hd⟩ := takes_variableStatement depth binder async hname hparams h
    refine ⟨d, ?_, hd⟩
    obtain ⟨hword, -, -, hrest⟩ := h.cons_inv
    have hvariables := atVariables_apply hword (hrest.cons_inv.1 ▸ hname)
    have hother : c.token ≠ .word "function" ∧ c.token ≠ .word "class" ∧
        c.token ≠ .word "async" ∧ c.token ≠ .sign "@" := by
      rw [hword]
      cases binder <;> decide
    simp [declaration?, hother, hvariables, hrun, Declaration.node, Declaration.name,
      Declaration.params]

theorem named_apply {x : Production Node} {n : Node} (h : x c = some (n, d))
    (hn : (n.child? .name).isSome = true) : named x c = some (n, d) := by
  rw [named, bind_apply, h, Option.bind_some, bind_apply, require_apply, if_pos hn]
  rfl

theorem atLoneLet_apply (h : c.next.fresh = false) : atLoneLet c = some (false, c) := by
  simp [atLoneLet, h]

theorem takes_plainStatement (depth : Nat) {b : Declaration} (hb : b.Named) :
    Takes line (plainStatement (bounded (depth + 2))) b.tokens (b.node line) := by
  obtain ⟨hname, hparams⟩ := hb
  intro c c' more h
  cases b with
  | function async star name params =>
    obtain ⟨d, hrun, hd⟩ :=
      takes_anyFunction (g := bounded (depth + 2)) async star.isSome hname hparams h
    refine ⟨d, ?_, hd⟩
    replace hrun : named _ c = some ((Declaration.function async star name params).node line, d) :=
      named_apply hrun rfl
    cases async with
    | false =>
      have hword : c.token = .word "function" := h.cons_inv.1
      simpa [plainStatement, hword] using hrun
    | true =>
      obtain ⟨hword, -, hfresh, hrest⟩ := h.cons_inv
      have hfunction : c.next.token = .word "function" := hrest.cons_inv.1
      replace hfresh : c.next.fresh = false := hfresh (List.cons_ne_nil _ _)
      simpa [plainStatement, hword, atVariables, atLoneLet_apply hfresh, hfunction, hfresh]
        using hrun
  | classDef name =>
    obtain ⟨d, hrun, hd⟩ := takes_anyClass (g := bounded (depth + 2)) hname h
    refine ⟨d, ?_, hd⟩
    replace hrun : named _ c = some ((Declaration.classDef name).node line, d) :=
      named_apply hrun rfl
    have hword : c.token = .word "class" := h.cons_inv.1
    simpa [plainStatement, hword] using hrun
  | arrow binder name async params =>
    obtain ⟨d, hrun, hd⟩ := takes_variableStatement depth binder async hname hparams h
    refine ⟨d, ?_, hd⟩
    obtain ⟨hword, -, hfresh, hrest⟩ := h.cons_inv
    have hvariables := atVariables_apply hword (hrest.cons_inv.1 ▸ hname)
    have hlet := atLoneLet_apply (hfresh (List.cons_ne_nil _ _))
    replace hrun : _ = some ((Declaration.arrow binder name async params).node line, d) := hrun
    cases binder <;> simpa [plainStatement, hword, Binder.text, hvariables, hlet] using hrun

/-- A declaration that is perhaps exported. -/
structure DeclarationLine where
  exported : Bool
  declaration : Declaration

namespace DeclarationLine

/-- The tokens of the line. -/
def tokens (l : DeclarationLine) : List Token :=
  (if l.exported then [.word "export"] else []) ++ l.declaration.tokens

/-- The node of the line. -/
def node (line : Nat) (l : DeclarationLine) : Node :=
  if l.exported then
    { kind := .exportStatement false, line,
      children := [(l.declaration.node line).as .declaration] }
  else l.declaration.node line

end DeclarationLine

/-- The words that a declaration may begin with. -/
def declaringWords : List String := ["async", "function", "class", "const", "let", "var"]

theorem Declaration.exists_tokens (b : Declaration) :
    ∃ w ∈ declaringWords, ∃ ts, b.tokens = .word w :: ts := by
  rcases b with ⟨_ | _, _, _, _⟩ | _ | ⟨_ | _ | _, _, _, _⟩ <;>
    exact ⟨_, by decide, _, rfl⟩

theorem Declaration.node_kind (b : Declaration) (line : Nat) :
    ((b.node line).kind != .classExpression && !(b.node line).kind.isFunctionLiteral) = true := by
  rcases b with ⟨_, _, _, _⟩ | _ | ⟨_ | _ | _, _, _, _⟩ <;> rfl

theorem Declaration.node_as_item (b : Declaration) (line : Nat) :
    (b.node line).as .item = b.node line := by
  rcases b with _ | _ | ⟨_ | _ | _, _, _, _⟩ <;> rfl

theorem takes_export (depth : Nat) {b : Declaration} (hb : b.Named) :
    Takes line (exportFrom (bounded (depth + 2)) line []) (.word "export" :: b.tokens)
      (DeclarationLine.node line ⟨true, b⟩) := by
  intro c c' more h
  obtain ⟨hword, -, -, hrest⟩ := h.cons_inv
  obtain ⟨d, hrun, hd⟩ := takes_declaration depth hb hrest
  obtain ⟨w, hw, ts, hts⟩ := b.exists_tokens
  rw [hts] at hrest
  have hfirst : c.next.token = .word w := hrest.cons_inv.1
  have hdefault : w ≠ "default" := by
    rintro rfl
    exact absurd hw (by decide)
  have hkind := b.node_kind line
  refine ⟨d, ?_, hd⟩
  simp only [exportFrom, bind_apply, word_apply, hword, beq_self_eq_true, if_true, Option.bind_some,
    skipWord_apply, hfirst, beq_iff_eq, Token.word.injEq, hdefault, if_false, if_apply,
    skipSign_apply, atSign_apply, hrun, require_apply, hkind, reduceCtorEq]
  rfl

theorem takes_statement (depth : Nat) {l : DeclarationLine} (hl : l.declaration.Named) :
    Takes line (statement (bounded (depth + 2))) l.tokens (l.node line) := by
  obtain ⟨exported, b⟩ := l
  intro c c' more h
  cases exported with
  | true =>
    obtain ⟨d, hrun, hd⟩ := takes_export depth hl h
    obtain ⟨hword, hline, -, -⟩ := h.cons_inv
    exact ⟨d, by simp [statement, atImport, hword, hline, hrun], hd⟩
  | false =>
    obtain ⟨d, hrun, hd⟩ := takes_plainStatement depth hl h
    obtain ⟨w, hw, ts, hts⟩ := b.exists_tokens
    replace h : Ahead line c (b.tokens ++ more) c' := h
    rw [hts] at h
    have hfirst : c.token = .word w := h.cons_inv.1
    have hother : w ≠ "import" ∧ w ≠ "export" := by
      constructor <;> rintro rfl <;> exact absurd hw (by decide)
    exact ⟨d, by simp [statement, atImport, hfirst, hother, hrun, DeclarationLine.node], hd⟩

/-! ### Signatures -/

/-- The signature of a declaration on a line, with a label for each parameter. -/
def Declaration.signature (label : List Char → String) (line : Nat) : Declaration → Signature
  | function async star name params => {
      name := String.ofList name, kind := .function, params := params.map label, line, async,
      generator := star.isSome }
  | classDef name => { name := String.ofList name, kind := .classDef, line }
  | arrow _ name async params => {
      name := String.ofList name, kind := .arrow, params := params.map label, line, async }

/-- How a walk of the tree shows a parameter. -/
def treeLabel (p : List Char) : String :=
  if String.ofList p = "undefined" then "?" else String.ofList p

theorem ofForest_valueNodes (ps : List (List Char)) :
    Signature.ofForest (valueNodes line ps) = [] := by
  induction ps with
  | nil => rfl
  | cons p ps ih =>
    have hp : Signature.ofTree (valueNode line (String.ofList p)) = [] := by
      by_cases h : String.ofList p = "undefined" <;>
        simp [valueNode, h, Signature.ofTree, Signature.ofNode, Signature.ofClass?, Node.declared,
          Signature.ofForest]
    show Signature.ofForest (_ :: valueNodes line ps) = _
    rw [Signature.ofForest, hp, ih]
    rfl

theorem paramLabel_valueNode (p : List Char) :
    Signature.paramLabel (valueNode line (String.ofList p)) = treeLabel p := by
  by_cases h : String.ofList p = "undefined" <;>
    simp [valueNode, h, treeLabel, Signature.paramLabel, Signature.placeLabel]

theorem ofTree_parametersNode (ps : List (List Char)) :
    Signature.ofTree (parametersNode line ps) = [] :=
  ofForest_valueNodes ps

theorem map_paramLabel (ps : List (List Char)) :
    (parametersNode line ps).children.map Signature.paramLabel = ps.map treeLabel := by
  rw [parametersNode, List.map_map]
  exact List.map_congr_left fun p _ => paramLabel_valueNode p

theorem ofTree_of_children {n : Node} {found : List Signature}
    (own : Signature.ofNode n = found) (inner : Signature.ofForest n.children = []) :
    Signature.ofTree n = found := by
  cases n
  rw [Signature.ofTree, own, inner, List.append_nil]

theorem Declaration.ofTree_node (b : Declaration) (line : Nat) (role : Role) :
    Signature.ofTree ((b.node line).as role) = [b.signature treeLabel line] := by
  cases b with
  | function async star name params =>
    refine ofTree_of_children ?_ ?_
    · rw [signature, ← map_paramLabel params]
      rfl
    · show Signature.ofForest (_ :: restNodes line params) = []
      rw [Signature.ofForest, restNodes, Signature.ofForest, ofTree_parametersNode]
      rfl
  | classDef name => rfl
  | arrow binder name async params =>
    refine ofTree_of_children ?_ ?_
    · rw [signature, ← map_paramLabel params]
      cases binder <;> rfl
    · have harrow : Signature.ofTree ((arrowNode line async params).as .value) = [] := by
        refine ofTree_of_children rfl ?_
        show Signature.ofForest (parametersNode line params :: _) = []
        rw [Signature.ofForest, ofTree_parametersNode]
        rfl
      have hbound : Signature.ofForest [⟨.identifier, .name, line, String.ofList name, []⟩,
          (arrowNode line async params).as .value] = [] := by
        rw [Signature.ofForest, Signature.ofForest, harrow]
        rfl
      show Signature.ofForest [⟨.variableDeclarator, .item, line, "", _⟩] = []
      rw [Signature.ofForest, Signature.ofTree, hbound]
      rfl

theorem DeclarationLine.ofTree_node (l : DeclarationLine) (line : Nat) :
    Signature.ofTree (l.node line) = [l.declaration.signature treeLabel line] := by
  obtain ⟨exported, b⟩ := l
  cases exported with
  | true =>
    show Signature.ofForest [(b.node line).as .declaration] = _
    rw [Signature.ofForest, b.ofTree_node]
    rfl
  | false =>
    show Signature.ofTree (b.node line) = _
    rw [← b.node_as_item, b.ofTree_node]

end CodeSurvey.Ecma.Grammar
