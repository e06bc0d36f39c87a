import CodeSurvey.Proofs.Ecma.Grammar.Assigned

/-!
Expression statements traced back to the source. A statement that assigns a function to a member of
`exports` begins at a clear place of the source, with the tokens of the member and a sign of
assignment. Main statements: functions, classes and literals keep this of the statements inside
them, given that the goals of the grammar do.
-/

namespace CodeSurvey.Ecma

open Cursor Production

/-- The source assigns to a member of `exports` from a clear place of a line on. -/
def AssignedIn (code : List Char) (line : Nat) (name : String) : Prop :=
  ∃ c, Clear code c ∧ c.line = line ∧ c.exportAssigned? = some name

/-- Every expression statement of the tree that declares a function is found in the source. -/
inductive Traced (code : List Char) : Node → Prop where
  | node {n : Node}
      (here : n.kind = .expressionStatement → ∀ d ∈ n.declared, AssignedIn code d.line d.name)
      (children : ∀ m ∈ n.children, Traced code m) : Traced code n

variable {code : List Char} {n p : Node} {ns ps : List Node} {kind : Kind} {role : Role}
  {line : Nat} {text : String}

/-! ### Nodes -/

theorem Traced.here (h : Traced code n) (hkind : n.kind = .expressionStatement) :
    ∀ d ∈ n.declared, AssignedIn code d.line d.name := by
  cases h with
  | node here => exact here hkind

theorem Traced.children (h : Traced code n) : ∀ m ∈ n.children, Traced code m := by
  cases h with
  | node _ children => exact children

theorem traced_of_kind (hkind : kind ≠ .expressionStatement) (h : ∀ m ∈ ns, Traced code m) :
    Traced code ⟨kind, role, line, text, ns⟩ :=
  .node (fun heq => absurd heq hkind) h

theorem traced_leaf (hkind : kind ≠ .expressionStatement) :
    Traced code ⟨kind, role, line, text, []⟩ := traced_of_kind hkind nofun

theorem traced_one (hkind : kind ≠ .expressionStatement) (h : Traced code n) :
    Traced code ⟨kind, role, line, text, [n]⟩ :=
  traced_of_kind hkind (List.forall_mem_singleton.2 h)

theorem traced_two (hkind : kind ≠ .expressionStatement) (hn : Traced code n)
    (hp : Traced code p) : Traced code ⟨kind, role, line, text, [n, p]⟩ :=
  traced_of_kind hkind (List.forall_mem_cons.2 ⟨hn, List.forall_mem_singleton.2 hp⟩)

theorem declared_of_statement (h : n.kind = .expressionStatement) :
    n.declared = (n.children.head?.bind (declaredByAssignment n.line)).toList := by
  simp only [Node.declared, h]

theorem Traced.as (h : Traced code n) (role : Role) : Traced code (n.as role) := by
  refine .node (fun hkind => ?_) h.children
  have hhere := h.here hkind
  rw [declared_of_statement (n := n) hkind] at hhere
  have hsame := declared_of_statement (n := n.as role) hkind
  rw [hsame]
  exact hhere

theorem forall_traced_cons : (∀ m ∈ n :: ns, Traced code m) ↔
    Traced code n ∧ ∀ m ∈ ns, Traced code m := List.forall_mem_cons

mutual

theorem traced_asPattern? : ∀ {n p : Node}, n.asPattern? = some p → Traced code n → Traced code p
  | ⟨kind, role, line, text, children⟩, p, h, hn => by
    rw [Node.asPattern?.eq_def] at h
    simp only at h
    split at h
    case h_10 | h_11 | h_14 =>
      obtain ⟨cs, hcs, rfl⟩ := Option.map_eq_some_iff.1 h
      exact traced_of_kind nofun (traced_asPatterns? hcs hn.children)
    case h_12 | h_13 =>
      cases h
      exact traced_of_kind nofun hn.children
    case h_15 =>
      obtain ⟨cs, hcs, rfl⟩ := Option.map_eq_some_iff.1 h
      exact traced_of_kind nofun (traced_asValuePatterns? hcs hn.children)
    case h_16 => cases h
    all_goals
      cases h
      exact hn

theorem traced_asPatterns? : ∀ {ns ps : List Node}, asPatterns? ns = some ps →
    (∀ m ∈ ns, Traced code m) → ∀ m ∈ ps, Traced code m
  | [], ps, h, _ => by
    rw [asPatterns?] at h
    cases h
    exact nofun
  | n :: more, ps, h, hn => by
    obtain ⟨hhere, hmore⟩ := forall_traced_cons.1 hn
    rw [asPatterns?] at h
    split at h
    · rename_i hp hps
      cases h
      exact forall_traced_cons.2 ⟨traced_asPattern? hp hhere, traced_asPatterns? hps hmore⟩
    · cases h

theorem traced_asValuePatterns? : ∀ {ns ps : List Node}, asValuePatterns? ns = some ps →
    (∀ m ∈ ns, Traced code m) → ∀ m ∈ ps, Traced code m
  | [], ps, h, _ => by
    rw [asValuePatterns?] at h
    cases h
    exact nofun
  | n :: more, ps, h, hn => by
    obtain ⟨hhere, hmore⟩ := forall_traced_cons.1 hn
    rw [asValuePatterns?] at h
    split at h
    · rename_i hp hps
      cases h
      refine forall_traced_cons.2 ⟨?_, traced_asValuePatterns? hps hmore⟩
      split at hp
      · exact traced_asPattern? hp hhere
      · cases hp
        exact hhere
    · cases h

end

theorem traced_asTarget? (h : n.asTarget? = some p) (hn : Traced code n) : Traced code p := by
  unfold Node.asTarget? at h
  split at h
  case h_1 =>
    cases h
    exact hn
  case h_8 => cases h
  all_goals exact traced_asPattern? h hn

theorem traced_asParameters? (h : n.asParameters? = some ps) (hn : Traced code n) :
    ∀ m ∈ ps, Traced code m := by
  unfold Node.asParameters? at h
  split at h
  case h_1 =>
    split at h
    · rename_i e he
      have hlist := hn.children e (by rw [he]; exact List.mem_cons_self)
      split at h
      · exact traced_asPatterns? h hlist.children
      · exact traced_asPatterns? h (List.forall_mem_singleton.2 hlist)
    · cases h
  case h_2 | h_3 => exact traced_asPatterns? h hn.children
  case h_4 => cases h

namespace Grammar

/-- The goals of the grammar lead from places of a source to places of it, and what they answer can
    be traced back. -/
structure Traces (code : List Char) (g : Grammar) : Prop where
  statement : Keeps (Clear code) (g .statement) (Clear code) (Traced code)
  goal : ∀ goal ≠ .statement, Keeps (Within code) (g goal) (Within code) (Traced code)
  assigns : ∀ c, From c (g .expression) fun e _ => Assigns c e

/-! ### Names and keys -/

theorem traced_name : Keeps (Within code) name (Within code) (Traced code) := by
  refine .get fun d _ => ?_
  split
  · exact keeps_advance.after fun _ => .pure (traced_leaf nofun)
  · exact .fail

theorem traced_valueName : Keeps (Within code) valueName (Within code) (Traced code) := by
  refine traced_name.bind fun n hn => .pure ?_
  split
  · exact traced_of_kind nofun hn.children
  · exact hn

theorem traced_stringLiteral : Keeps (Within code) stringLiteral (Within code) (Traced code) := by
  refine .get fun d _ => ?_
  split
  · exact keeps_advance.after fun _ => .pure (traced_leaf nofun)
  · exact .fail

theorem keeps_atName {I : Cursor → Prop} : Keeps I atName I fun _ => True :=
  Keeps.token.after fun _ => .pure trivial

theorem keeps_atArrow {I : Cursor → Prop} : Keeps I atArrow I fun _ => True :=
  .get fun _ _ => .pure trivial

variable {g : Grammar} (hg : Traces code g)
include hg

theorem traced_propertyKey : Keeps (Within code) (propertyKey g) (Within code) (Traced code) := by
  refine .get fun d _ => ?_
  split
  case h_6 =>
    exact keeps_advance.after fun _ => (hg.goal (.assignment true) nofun).bind fun e he =>
      .get fun _ _ => (keeps_sign "]").after fun _ => .pure (traced_one nofun he)
  case h_7 => exact .fail
  all_goals exact keeps_advance.after fun _ => .pure (traced_leaf nofun)

theorem traced_condition : Keeps (Within code) (condition g) (Clear code) (Traced code) :=
  .get fun _ _ => (keeps_sign "(").after fun _ => (hg.goal .expression nofun).bind fun e he =>
    (clears_sign (by decide)).after fun _ => .pure (traced_one nofun he)

theorem traced_block : Keeps (Within code) (block g) (Clear code) (Traced code) := by
  refine .get fun _ _ => (clears_sign (by decide)).after fun _ => .bind
    (Keeps.manyWhile ((Keeps.atSign _).after fun _ => .pure trivial) hg.statement) fun ns hns => ?_
  exact (clears_sign (by decide)).ofWithin.after fun _ =>
    .pure (traced_of_kind nofun hns)

/-- An expression, perhaps a spread one. -/
theorem traced_spreadable : Keeps (Within code) (spreadable g) (Within code) (Traced code) :=
  .get fun _ _ => (keeps_skipSign "...").after fun _ => .ite
    (fun _ => (hg.goal (.assignment true) nofun).bind fun _ he => .pure (traced_one nofun he))
    fun _ => hg.goal (.assignment true) nofun

theorem traced_decorator : Keeps (Within code) (decorator g) (Within code) (Traced code) := by
  refine .get fun _ _ => (keeps_sign "@").after fun _ => (Keeps.atSign "(").after fun _ => .ite
    (fun _ => (traced_condition hg).toWithin.bind fun e he =>
      .pure (traced_one nofun he))
    fun _ => traced_name.bind fun first hfirst =>
      (Keeps.manyWhile (keeps_skipSign ".") (traced_propertyKey hg)).bind fun path hpath =>
        (keeps_skipSign "(").after fun _ => .ite (fun _ => ?_) fun _ => .known ?_
  all_goals
    have hfront : ∀ m ∈ first :: path.map (·.as .item), Traced code m :=
      forall_traced_cons.2 ⟨hfirst, List.forall_mem_map.2 fun m hm => (hpath m hm).as _⟩
  · exact (keeps_listUntil (by decide) (traced_spreadable hg)).toWithin.bind
      fun arguments harguments =>
        .pure (traced_of_kind nofun (List.forall_mem_append.2 ⟨hfront, harguments⟩))
  · exact .pure (traced_of_kind nofun (List.forall_mem_append.2 ⟨hfront, nofun⟩))

theorem traced_decorators :
    Keeps (Within code) (decorators g) (Within code) fun ns => ∀ n ∈ ns, Traced code n :=
  .manyWhile (.atSign "@") (traced_decorator hg)

/-! ### Functions -/

theorem traced_withDefault (h : Traced code n) :
    Keeps (Within code) (withDefault g n) (Within code) (Traced code) :=
  (keeps_skipSign "=").after fun _ => .ite
    (fun _ => (hg.goal (.assignment true) nofun).bind fun _ he =>
      .pure (traced_two nofun (h.as _) (he.as _)))
    fun _ => .pure h

theorem traced_parameter :
    Keeps (Within code) (parameter g) (Within code) fun ns => ∀ n ∈ ns, Traced code n := by
  refine (traced_decorators hg).bind fun marks hmarks => .get fun _ _ =>
    (keeps_skipSign "...").after fun _ => (Keeps.atWord _).after fun _ =>
      (Keeps.require _).after fun _ => .ite (fun _ => ?_) fun _ => ?_
  · exact (hg.goal .target nofun).bind fun e he => (Keeps.atSign _).after fun _ =>
      (Keeps.require _).after fun _ => .pure (List.forall_mem_append.2
        ⟨hmarks, List.forall_mem_singleton.2 (traced_one nofun he)⟩)
  · refine keeps_atName.after fun _ => .ite (fun _ => traced_valueName.bind fun e he => ?_)
      fun _ => (hg.goal .target nofun).bind fun e he => ?_
    all_goals
      exact (traced_withDefault hg he).bind fun m hm => .pure
        (List.forall_mem_append.2 ⟨hmarks, List.forall_mem_singleton.2 hm⟩)

theorem traced_parameters : Keeps (Within code) (parameters g) (Within code) (Traced code) := by
  refine .get fun _ _ => (keeps_sign "(").after fun _ =>
    (keeps_listUntil (by decide) (traced_parameter hg)).toWithin.bind
      fun items hitems => .pure (traced_of_kind nofun fun m hm => ?_)
  obtain ⟨ns, hns, hm⟩ := List.mem_flatten.1 hm
  exact hitems ns hns m hm

theorem traced_functionRest :
    Keeps (Within code) (functionRest g) (Clear code) fun ns => ∀ n ∈ ns, Traced code n :=
  (traced_parameters hg).bind fun _ hparams => (traced_block hg).bind fun _ hbody =>
    .pure (forall_traced_cons.2 ⟨hparams, List.forall_mem_singleton.2 (hbody.as _)⟩)

theorem traced_function (declares async : Bool) (line : Nat) :
    Keeps (Within code) (function g declares async line) (Clear code) (Traced code) := by
  refine (keeps_word _).after fun _ =>
    (keeps_skipSign "*").after fun _ => keeps_atName.after fun _ => .ite
      (fun _ => traced_name.bind fun own hown => (traced_functionRest hg).bind fun rest hrest =>
        .pure (traced_of_kind ?_ (forall_traced_cons.2 ⟨hown.as _, hrest⟩)))
      fun _ => (traced_functionRest hg).bind fun rest hrest => .pure (traced_of_kind nofun hrest)
  cases declares <;> exact nofun

theorem traced_anyFunction (declares : Bool) :
    Keeps (Within code) (anyFunction g declares) (Clear code) (Traced code) :=
  .get fun d _ => (keeps_skipWord _).after fun async => traced_function hg declares async d.line

theorem traced_arrow (allowIn async : Bool) (line : Nat) {params : Node}
    (hparams : Traced code params) :
    Keeps (Within code) (arrow g allowIn async line params) (Within code) (Traced code) := by
  have hend : ∀ body, Traced code body → Traced code
      (⟨.arrowFunction async, .item, line, "", [params, body.as .body]⟩ : Node) := fun body hbody =>
    traced_two nofun hparams (hbody.as _)
  exact keeps_atArrow.after fun _ => (Keeps.require _).after fun _ => keeps_advance.after fun _ =>
    (Keeps.atSign _).after fun _ => .ite
      (fun _ => (traced_block hg).toWithin.bind fun body hbody =>
        .pure (hend body hbody))
      fun _ => (hg.goal (.assignment allowIn) nofun).bind fun body hbody => .pure (hend body hbody)

theorem traced_nameArrow (allowIn async : Bool) (line : Nat) :
    Keeps (Within code) (nameArrow g allowIn async line) (Within code) (Traced code) :=
  traced_name.bind fun _ hn => traced_arrow hg allowIn async line (hn.as _)

theorem traced_listArrow (allowIn async : Bool) (line : Nat) {list : Node}
    (hlist : Traced code list) :
    Keeps (Within code) (listArrow g allowIn async line list) (Within code) (Traced code) := by
  unfold listArrow
  split
  · rename_i params hparams
    exact traced_arrow hg allowIn async line
      (traced_of_kind nofun (traced_asParameters? hparams hlist))
  · exact .fail

omit hg in
theorem keeps_methodMarks : Keeps (Within code) methodMarks (Within code) fun _ => True := by
  refine Keeps.peek.after fun _ => (Keeps.atWord _).after fun _ => .ite
    (fun _ => .ite (fun _ => keeps_advance.after fun _ => (keeps_skipSign _).after fun _ =>
      .pure trivial) fun _ => .pure trivial)
    fun _ => (Keeps.atWord _).after fun _ => (Keeps.atWord _).after fun _ => .ite
      (fun _ => .ite (fun _ => keeps_advance.after fun _ => .pure trivial) fun _ => .pure trivial)
      fun _ => (keeps_skipSign _).after fun _ => .pure trivial

theorem traced_method (marks : MethodMarks) (line : Nat) {front : List Node} {key : Node}
    (hfront : ∀ m ∈ front, Traced code m) (hkey : Traced code key) :
    Keeps (Within code) (method g marks line front key) (Within code) (Traced code) :=
  (traced_functionRest hg).toWithin.bind fun _ hrest =>
    .pure (traced_of_kind nofun
      (List.forall_mem_append.2 ⟨hfront, forall_traced_cons.2 ⟨hkey, hrest⟩⟩))

/-! ### Classes -/

omit hg in
theorem keeps_atLoneWord : Keeps (Within code) atLoneWord (Within code) fun _ => True :=
  .get fun _ _ => Keeps.token.after fun _ => .pure trivial

omit hg in
theorem keeps_skipStatic : Keeps (Within code) skipStatic (Within code) fun _ => True :=
  Keeps.peek.after fun _ => (Keeps.atWord _).after fun _ => keeps_atLoneWord.after fun _ => .ite
    (fun _ => keeps_advance.after fun _ => .pure trivial) fun _ => .pure trivial

theorem traced_field (line : Nat) {front : List Node} {key : Node}
    (hfront : ∀ m ∈ front, Traced code m) (hkey : Traced code key) :
    Keeps (Within code) (field g line front key) (Within code) (Traced code) := by
  have hend : ∀ value : List Node, (∀ m ∈ value, Traced code m) → Traced code
      (⟨.fieldDefinition, .item, line, "", front ++ key.as .property :: value⟩ : Node) :=
    fun value hvalue => traced_of_kind nofun
      (List.forall_mem_append.2 ⟨hfront, forall_traced_cons.2 ⟨hkey.as _, hvalue⟩⟩)
  have hstop := Keeps.toWithin (keeps_statementEnd : Keeps (Within code) _ _ _)
  exact (keeps_skipSign "=").after fun _ => .ite
    (fun _ => (hg.goal (.assignment true) nofun).bind fun e he => .known
      (hstop.after fun _ => .pure (hend _ (List.forall_mem_singleton.2 (he.as _)))))
    fun _ => .known (hstop.after fun _ => .pure (hend _ nofun))

theorem traced_classMember :
    Keeps (Within code) (classMember g) (Within code) (Traced code) := by
  refine .get fun _ _ => (traced_decorators hg).bind fun front hfront => (Keeps.atWord _).after
    fun _ => Keeps.peek.after fun _ => .ite (fun _ => ?_) fun _ => ?_
  · exact keeps_advance.after fun _ => (traced_block hg).toWithin.bind
      fun body hbody => .pure (traced_one nofun (hbody.as _))
  · have hkeyed : ∀ marks line, Keeps (Within code) (do
        let key ← propertyKey g
        if ← atSign "(" then method g marks line front key
        else
          require (marks == {})
          field g line front key) (Within code) (Traced code) := fun marks line =>
      (traced_propertyKey hg).bind fun key hkey => (Keeps.atSign _).after fun _ => .ite
        (fun _ => traced_method hg marks line hfront hkey)
        fun _ => (Keeps.require _).after fun _ => traced_field hg line hfront hkey
    refine keeps_skipStatic.after fun _ => keeps_atLoneWord.after fun _ => (Keeps.atWord _).after
      fun _ => .ite (fun _ => keeps_methodMarks.after fun marks => hkeyed marks _)
        fun _ => .known (hkeyed _ _)

theorem traced_classFrom (declares : Bool) (line : Nat) {front : List Node}
    (hfront : ∀ m ∈ front, Traced code m) :
    Keeps (Within code) (classFrom g declares line front) (Clear code) (Traced code) := by
  have hkind : ∀ named : List Node, (if declares && !named.isEmpty then Kind.classDeclaration
      else .classExpression) ≠ .expressionStatement := by
    intro named
    split <;> exact nofun
  -- the body comes last, whether there is a name and a parent or not
  have hbody : ∀ named parent : List Node, (∀ m ∈ named, Traced code m) →
      (∀ m ∈ parent, Traced code m) → Keeps (Within code) (do
        let bodyLine := (← get).line
        sign "\x7b"
        let members ← manyWhile (do return !(← atSign "\x7d")) do
          if ← skipSign ";" then return none else return some (← classMember g)
        sign "\x7d"
        let body : Node :=
          { kind := .classBody, role := .body, line := bodyLine, children := members.filterMap id }
        let kind := if declares && !named.isEmpty then .classDeclaration else .classExpression
        return { kind, line, children := front ++ named ++ parent ++ [body] }) (Clear code)
        (Traced code) := by
    intro named parent hnamed hparent
    have hmember : Keeps (Within code) (do
        if ← skipSign ";" then return none else return some (← classMember g)) (Within code)
        fun member => ∀ m ∈ member, Traced code m :=
      (keeps_skipSign ";").after fun _ => .ite (fun _ => .pure nofun)
        fun _ => (traced_classMember hg).bind fun m hm => .pure fun m' hm' =>
          Option.some.inj hm' ▸ hm
    refine .get fun _ _ => (keeps_sign _).after fun _ => .bind
      (Keeps.manyWhile ((Keeps.atSign _).after fun _ => .pure trivial) hmember) fun ms hms =>
        (clears_sign (by decide)).after fun _ => .pure (traced_of_kind (hkind named) ?_)
    refine List.forall_mem_append.2 ⟨List.forall_mem_append.2
      ⟨List.forall_mem_append.2 ⟨hfront, hnamed⟩, hparent⟩, List.forall_mem_singleton.2
        (traced_of_kind nofun fun m hm => ?_)⟩
    obtain ⟨member, hmember, hm⟩ := List.mem_filterMap.1 hm
    exact hms member hmember m hm
  refine (keeps_word _).after fun _ => keeps_atName.after fun _ => .ite
    (fun _ => traced_name.bind fun own hown => .known ?_) fun _ => .known ?_
  · have hnamed : ∀ m ∈ [own.as .name], Traced code m := List.forall_mem_singleton.2 (hown.as _)
    exact (keeps_skipWord _).after fun _ => .ite
      (fun _ => (hg.goal (.chain true) nofun).bind fun _ he =>
        .known (hbody _ _ hnamed (List.forall_mem_singleton.2 he)))
      fun _ => .known (hbody _ _ hnamed nofun)
  · exact (keeps_skipWord _).after fun _ => .ite
      (fun _ => (hg.goal (.chain true) nofun).bind fun _ he =>
        .known (hbody _ _ nofun (List.forall_mem_singleton.2 he)))
      fun _ => .known (hbody _ _ nofun nofun)

omit hg in
theorem traced_named {declaration : Production Node}
    (h : Keeps (Within code) declaration (Clear code) (Traced code)) :
    Keeps (Within code) (named declaration) (Clear code) (Traced code) :=
  h.bind fun _ hn => (Keeps.require _).after fun _ => .pure hn

theorem traced_anyClass (declares : Bool) :
    Keeps (Within code) (anyClass g declares) (Clear code) (Traced code) :=
  .get fun d _ => (traced_decorators hg).bind fun _ hfront =>
    traced_classFrom hg declares d.line hfront

/-! ### Literals -/

theorem traced_arguments : Keeps (Within code) (arguments g) (Within code) (Traced code) :=
  .get fun _ _ => (keeps_sign "(").after fun _ =>
    (keeps_listUntil (by decide) (traced_spreadable hg)).toWithin.bind
      fun _ hitems => .pure (traced_of_kind nofun hitems)

theorem traced_array : Keeps (Within code) (array g) (Within code) (Traced code) := by
  have hitem : Keeps (Within code) (do
      if ← atSign "," then return none else return some (← spreadable g)) (Within code)
      fun item => ∀ m ∈ item, Traced code m :=
    (Keeps.atSign ",").after fun _ => .ite (fun _ => .pure nofun)
      fun _ => (traced_spreadable hg).bind fun m hm => .pure fun m' hm' => Option.some.inj hm' ▸ hm
  refine .get fun _ _ => (keeps_sign "[").after fun _ =>
    (keeps_listUntil (by decide) hitem).toWithin.bind fun items hitems =>
      .pure (traced_of_kind nofun fun m hm => ?_)
  obtain ⟨item, hmem, hm⟩ := List.mem_filterMap.1 hm
  exact hitems item hmem m hm

theorem traced_objectProperty :
    Keeps (Within code) (objectProperty g) (Within code) (Traced code) := by
  refine .get fun _ _ => (Keeps.atSign _).after fun _ => .ite (fun _ => traced_spreadable hg)
    fun _ => keeps_methodMarks.after fun marks => .get fun _ _ =>
      (traced_propertyKey hg).bind fun key hkey => (Keeps.atSign _).after fun _ => .ite
        (fun _ => traced_method hg marks _ nofun hkey)
        fun _ => (Keeps.require _).after fun _ => (keeps_skipSign ":").after fun _ => .ite
          (fun _ => (hg.goal (.assignment true) nofun).bind fun _ he =>
            .pure (traced_two nofun hkey (he.as _)))
          fun _ => ?_
  split
  · exact .fail
  · have hown : ∀ line text, Traced code (⟨.shorthand, .item, line, text, []⟩ : Node) :=
      fun _ _ => traced_leaf nofun
    exact (keeps_skipSign "=").after fun _ => .ite
      (fun _ => (hg.goal (.assignment true) nofun).bind fun _ he =>
        .pure (traced_two nofun ((hown _ _).as _) (he.as _)))
      fun _ => .pure (hown _ _)

theorem traced_object : Keeps (Within code) (object g) (Within code) (Traced code) :=
  .get fun _ _ => (keeps_sign _).after fun _ =>
    (keeps_listUntil (by decide) (traced_objectProperty hg)).toWithin.bind
      fun _ hitems => .pure (traced_of_kind nofun hitems)

theorem traced_parenthesised :
    Keeps (Within code) (parenthesised g) (Within code) (Traced code) := by
  have hitem : Keeps (Within code) (do
      let item ← spreadable g
      let comma ← skipSign ","
      require (comma || (← atSign ")"))
      return (item, comma)) (Within code) fun item => Traced code item.1 :=
    (traced_spreadable hg).bind fun _ hn => (keeps_skipSign ",").after fun _ =>
      (Keeps.atSign ")").after fun _ => (Keeps.require _).after fun _ => .pure hn
  refine .get fun _ _ => (keeps_sign "(").after fun _ =>
    (Keeps.manyWhile ((Keeps.atSign ")").after fun _ => .pure trivial) hitem).bind
      fun items hitems => (keeps_sign ")").after fun _ => ?_
  have hnodes : ∀ m ∈ items.map (·.1), Traced code m := List.forall_mem_map.2 hitems
  refine .ite (fun _ => ?_) fun _ => keeps_atArrow.after fun _ => (Keeps.require _).after fun _ =>
    .pure (traced_of_kind nofun hnodes)
  split
  · rename_i e he
    exact .pure (traced_one nofun (hnodes e (by rw [he]; exact List.mem_cons_self)))
  · exact .pure (traced_one nofun (traced_of_kind nofun hnodes))

end Grammar

end CodeSurvey.Ecma
