import CodeSurvey.Proofs.Ecma.Grammar.TracedExpression
import CodeSurvey.Proofs.Ecma.Occurrence

/-!
Expression statements of a whole tree, traced back to the source. Every statement begins at a clear
place and leads to one. Main statement: an expression statement of an accepted source that assigns a
function to a member of `exports` begins at a clear place with the tokens of the member and a sign
of assignment.
-/

namespace CodeSurvey.Ecma

open Cursor Production

namespace Grammar

variable {code : List Char}

/-! ### Looking ahead -/

theorem keeps_atVariables {I : Cursor → Prop} : Keeps I atVariables I fun _ => True :=
  (Keeps.atWord _).after fun _ => (Keeps.atWord _).after fun _ => .ite (fun _ => .pure trivial)
    fun _ => (Keeps.atWord _).after fun _ => .ite
      (fun _ => Keeps.peek.after fun _ => .pure trivial) fun _ => .pure trivial

theorem keeps_atLoneLet {I : Cursor → Prop} : Keeps I atLoneLet I fun _ => True :=
  Keeps.peek.after fun _ => (Keeps.atWord _).after fun _ => .pure trivial

theorem keeps_atEach {I : Cursor → Prop} : Keeps I atEach I fun _ => True :=
  (Keeps.atWord _).after fun _ => (Keeps.atWord _).after fun _ => .pure trivial

theorem keeps_atEachWord {I : Cursor → Prop} : Keeps I atEachWord I fun _ => True :=
  .get fun _ _ => .pure trivial

theorem keeps_atCaseEnd {I : Cursor → Prop} : Keeps I atCaseEnd I fun _ => True :=
  (Keeps.atWord _).after fun _ => (Keeps.atWord _).after fun _ => (Keeps.atSign _).after fun _ =>
    .pure trivial

theorem keeps_atStatementEnd {I : Cursor → Prop} : Keeps I atStatementEnd I fun _ => True :=
  .get fun _ _ => .pure trivial

theorem keeps_atImport {I : Cursor → Prop} : Keeps I atImport I fun _ => True :=
  (Keeps.atWord _).after fun _ => .ite (fun _ => Keeps.peek.after fun _ => .pure trivial)
    fun _ => .pure trivial

/-! ### Variables -/

theorem keeps_variablesKind :
    Keeps (Within code) variablesKind (Within code) (· ≠ .expressionStatement) := by
  refine (Keeps.atWord _).after fun _ => keeps_advance.after fun _ => .pure ?_
  split <;> exact nofun

variable {g : Grammar} (hg : Traces code g)
include hg

theorem traced_declaratorRest (allowIn : Bool) {place : Node} (hplace : Traced code place) :
    Keeps (Within code) (declaratorRest g allowIn place) (Within code) (Traced code) := by
  have hend : ∀ value : List Node, (∀ m ∈ value, Traced code m) → Traced code
      (⟨.variableDeclarator, .item, place.line, "", place.as .name :: value⟩ : Node) :=
    fun _ hvalue => traced_of_kind (by simp) (forall_traced_cons.2 ⟨hplace.as _, hvalue⟩)
  exact (keeps_skipSign _).after fun _ => .ite
    (fun _ => (hg.goal (.assignment allowIn) (by simp)).bind fun _ he =>
      .known (.pure (hend _ (List.forall_mem_singleton.2 (he.as _)))))
    fun _ => .known (.pure (hend _ (List.forall_mem_nil _)))

theorem traced_moreDeclarators (allowIn : Bool) :
    Keeps (Within code) (moreDeclarators g allowIn) (Within code)
      fun ns => ∀ n ∈ ns, Traced code n :=
  .manyWhile (keeps_skipSign _) ((hg.goal .target nofun).bind fun _ hplace =>
    traced_declaratorRest hg allowIn hplace)

theorem traced_variableStatement :
    Keeps (Within code) (variableStatement g) (Clear code) (Traced code) :=
  .get fun _ _ => keeps_variablesKind.bind fun _ hkind => (hg.goal .target nofun).bind
    fun _ hplace => (traced_declaratorRest hg true hplace).bind fun _ hfirst =>
      (traced_moreDeclarators hg true).bind fun _ hmore => keeps_statementEnd.after fun _ =>
        .pure (traced_of_kind hkind (forall_traced_cons.2 ⟨hfirst, hmore⟩))

/-! ### Loops -/

theorem traced_stepParts :
    Keeps (Within code) (stepParts g) (Clear code) fun ns => ∀ n ∈ ns, Traced code n := by
  have hpart : ∀ stop, closes stop = true → Keeps (Within code) (do
      if ← skipSign stop then return []
      else
        let e ← g .expression
        sign stop
        return [e]) (Clear code) fun ns => ∀ n ∈ ns, Traced code n := fun stop hstop =>
    keeps_skipSign_bind hstop (.pure (List.forall_mem_nil _))
      ((hg.goal .expression (by simp)).bind fun _ he => (clears_sign hstop).after fun _ =>
        .pure (List.forall_mem_singleton.2 he)) fun _ => id
  exact (hpart ";" (by decide)).toWithin.bind fun _ hfirst =>
    (hpart ")" (by decide)).bind fun _ hsecond => .pure (List.forall_mem_append.2 ⟨hfirst, hsecond⟩)

theorem traced_eachPart : Keeps (Within code) (eachPart g) (Clear code) (Traced code) :=
  keeps_advance.after fun _ => (hg.goal .expression nofun).bind fun _ he =>
    (clears_sign (by decide)).after fun _ => .pure (he.as _)

theorem traced_loopHead : Keeps (Within code) (loopHead g) (Clear code) fun head =>
    head.1 ≠ .expressionStatement ∧ ∀ n ∈ head.2, Traced code n := by
  have heach : ∀ {place : Node}, Traced code place → Keeps (Within code) (do
      return (Kind.forInStatement, [place, ← eachPart g])) (Clear code) fun head =>
        head.1 ≠ .expressionStatement ∧ ∀ n ∈ head.2, Traced code n := fun hplace =>
    (traced_eachPart hg).bind fun _ he =>
      .pure ⟨by simp, forall_traced_cons.2 ⟨hplace, List.forall_mem_singleton.2 he⟩⟩
  have hsteps : ∀ front : List Node, (∀ m ∈ front, Traced code m) → Keeps (Within code) (do
      return (Kind.forStatement, front ++ (← stepParts g))) (Clear code) fun head =>
        head.1 ≠ .expressionStatement ∧ ∀ n ∈ head.2, Traced code n := fun _ hfront =>
    (traced_stepParts hg).bind fun _ hparts =>
      .pure ⟨by simp, List.forall_mem_append.2 ⟨hfront, hparts⟩⟩
  refine .get fun _ _ => (keeps_skipSign _).after fun _ => .ite
    (fun _ => hsteps [] (List.forall_mem_nil _)) fun _ => keeps_atVariables.after fun _ => .ite
      (fun _ => ?_) fun _ => keeps_atEachWord.after fun _ => .ite
        (fun _ => traced_name.bind fun _ hn => ?_)
        fun _ => (hg.goal (.assignment false) (by simp)).bind fun _ hn => ?_
  · exact keeps_variablesKind.bind fun _ hkind => (hg.goal .target (by simp)).bind fun _ hplace =>
      keeps_atEach.after fun _ => .ite (fun _ => heach (hplace.as _)) fun _ =>
        (traced_declaratorRest hg false hplace).bind fun _ hown => (Keeps.atWord _).after fun _ =>
          .ite (fun _ => heach hown) fun _ => (traced_moreDeclarators hg false).bind fun _ hmore =>
            (keeps_sign _).after fun _ => hsteps _ (List.forall_mem_singleton.2
              (traced_of_kind hkind (forall_traced_cons.2 ⟨hown, hmore⟩)))
  -- what comes first is a value, which may be the place of the loop
  all_goals
    refine keeps_atEach.after fun _ => .ite (fun _ => ?_) fun _ => (Keeps.manyWhile
      (keeps_skipSign _) (hg.goal (.assignment false) (by simp))).bind fun more hmore =>
        (keeps_sign _).after fun _ => hsteps _ (List.forall_mem_singleton.2 ?_)
    · split
      · exact heach ((traced_asTarget? ‹_› hn).as _)
      · exact .fail
    · split
      · exact hn
      · exact traced_of_kind (by simp) (forall_traced_cons.2 ⟨hn, hmore⟩)

theorem traced_forLoop : Keeps (Within code) (forLoop g) (Clear code) (Traced code) :=
  .get fun _ _ => (keeps_word _).after fun _ => (keeps_skipWord _).after fun _ =>
    (keeps_sign _).after fun _ => (traced_loopHead hg).bind fun _ hhead =>
      (Keeps.require _).after fun _ => hg.statement.bind fun _ hbody =>
        .pure (traced_of_kind hhead.1
          (List.forall_mem_append.2 ⟨hhead.2, List.forall_mem_singleton.2 (hbody.as _)⟩))

theorem traced_guarded (kind : Kind) (hkind : kind ≠ .expressionStatement) :
    Keeps (Within code) (guarded g kind) (Clear code) (Traced code) :=
  .get fun _ _ => keeps_advance.after fun _ => (traced_condition hg).bind fun _ htest =>
    hg.statement.bind fun _ hbody => .pure (traced_two hkind htest (hbody.as _))

theorem traced_doLoop : Keeps (Within code) (doLoop g) (Clear code) (Traced code) := by
  refine .get fun _ _ => (clears_word _).after fun _ => hg.statement.bind fun _ hbody =>
    (keeps_word _).ofWithin.after fun _ => (traced_condition hg).bind fun _ htest =>
      keeps_skipSign_bind (by decide) (.pure ?_) (.pure ?_) fun _ h => h.toWithin
  all_goals exact traced_two nofun (hbody.as _) htest

/-! ### Branches -/

theorem traced_branch : Keeps (Within code) (branch g) (Clear code) (Traced code) := by
  refine .get fun _ _ => (keeps_word _).after fun _ => (traced_condition hg).bind fun _ htest =>
    hg.statement.bind fun _ hfirst => .get fun _ _ => keeps_skipWord_bind
      (hg.statement.bind fun _ hother => .known (.pure ?_)) (.known (.pure ?_))
      fun _ h => h.toWithin
  · exact traced_of_kind nofun (forall_traced_cons.2 ⟨htest, forall_traced_cons.2
      ⟨hfirst, List.forall_mem_singleton.2 (traced_one nofun hother)⟩⟩)
  · exact traced_two nofun htest hfirst

theorem traced_switchCase : Keeps (Within code) (switchCase g) (Clear code) (Traced code) := by
  have hrest : ∀ (line : Nat) (test : List Node), (∀ m ∈ test, Traced code m) →
      Keeps (Within code) (do
        sign ":"
        let statements ← manyWhile (do return !(← atCaseEnd)) (g .statement)
        let kind := if test.isEmpty then .switchDefault else .switchCase
        return { kind, line, children := test ++ statements }) (Clear code) (Traced code) := by
    intro line test htest
    refine (clears_sign (by decide)).after fun _ => .bind
      (Keeps.manyWhile (keeps_atCaseEnd.after fun _ => .pure trivial) hg.statement)
      fun _ hbody => .pure (traced_of_kind ?_ (List.forall_mem_append.2 ⟨htest, hbody⟩))
    split <;> simp
  exact .get fun _ _ => (keeps_skipWord _).after fun _ => .ite
    (fun _ => (hg.goal .expression (by simp)).bind fun _ he =>
      .known (hrest _ _ (List.forall_mem_singleton.2 he)))
    fun _ => (keeps_word _).after fun _ => .known (hrest _ _ (List.forall_mem_nil _))

theorem traced_switch : Keeps (Within code) (switch g) (Clear code) (Traced code) := by
  refine .get fun _ _ => (keeps_word _).after fun _ => (traced_condition hg).bind fun _ hvalue =>
    .get fun _ _ => (keeps_sign _).ofWithin.after fun _ => .bind
      (Keeps.manyWhile ((Keeps.atSign _).after fun _ => .pure trivial)
        (traced_switchCase hg).toWithin) fun _ hcases =>
          (clears_sign (by decide)).after fun _ => .pure (traced_of_kind nofun ?_)
  exact forall_traced_cons.2 ⟨hvalue, List.forall_mem_singleton.2 (traced_of_kind nofun hcases)⟩

theorem traced_attempt : Keeps (Within code) (attempt g) (Clear code) (Traced code) := by
  have hlast : ∀ (line : Nat) {body : Node} {handler : List Node}, Traced code body →
      (∀ m ∈ handler, Traced code m) → Keeps (Clear code) (do
        let here ← get
        let last ← if ← skipWord "finally" then
            pure [{ kind := .finallyClause, line := here.line, children := [← block g] : Node }]
          else pure []
        require !(handler.isEmpty && last.isEmpty)
        return { kind := .tryStatement, line, children := body :: handler ++ last }) (Clear code)
        (Traced code) := by
    intro line body handler hbody hhandler
    refine .get fun _ _ => keeps_skipWord_bind
      ((traced_block hg).ofWithin.bind fun last hlast => .known ?_)
      (.known ?_) fun _ h => h.toWithin
    · exact (Keeps.require _).after fun _ => .pure (traced_of_kind (by simp)
        (List.forall_mem_append.2 ⟨forall_traced_cons.2 ⟨hbody, hhandler⟩,
          List.forall_mem_singleton.2 (traced_one (by simp) hlast)⟩))
    · exact (Keeps.require _).after fun _ => .pure (traced_of_kind (by simp)
        (List.forall_mem_append.2 ⟨forall_traced_cons.2 ⟨hbody, hhandler⟩, List.forall_mem_nil _⟩))
  refine .get fun _ _ => (keeps_word _).after fun _ => (traced_block hg).bind fun _ hbody =>
    .get fun _ _ => keeps_skipWord_bind ?_ (.known (hlast _ hbody (List.forall_mem_nil _)))
      fun _ h => h.toWithin
  refine (keeps_skipSign _).ofWithin.after fun _ => .ite
    (fun _ => (hg.goal .target (by simp)).bind fun _ hplace => (keeps_sign _).after fun _ =>
      .known ((traced_block hg).bind fun _ hinner => .known (hlast _ hbody ?_)))
    fun _ => .known ((traced_block hg).bind fun _ hinner => .known (hlast _ hbody ?_))
  · exact List.forall_mem_singleton.2 (traced_two (by simp) hplace hinner)
  · exact List.forall_mem_singleton.2 (traced_one (by simp) hinner)

/-! ### Simple statements -/

omit hg in
theorem traced_jumpStatement {argument : Production Node} (kind : Kind)
    (hkind : kind ≠ .expressionStatement)
    (hargument : Keeps (Within code) argument (Within code) (Traced code)) :
    Keeps (Within code) (jumpStatement kind argument) (Clear code) (Traced code) :=
  .get fun _ _ => keeps_advance.after fun _ => keeps_atStatementEnd.after fun _ => .ite
    (fun _ => .known (keeps_statementEnd.after fun _ => .pure (traced_leaf hkind)))
    fun _ => hargument.bind fun _ he =>
      .known (keeps_statementEnd.after fun _ => .pure (traced_one hkind he))

theorem traced_throwStatement : Keeps (Within code) (throwStatement g) (Clear code) (Traced code) :=
  .get fun _ _ => (keeps_word _).after fun _ => (hg.goal .expression nofun).bind fun _ he =>
    keeps_statementEnd.after fun _ => .pure (traced_one nofun he)

omit hg in
theorem exportAssigned?_of_assigns {c : Cursor} {e : Node} {line : Nat} {f : Declared}
    (h : Assigns c e) (hf : declaredByAssignment line e = some f) :
    f.line = line ∧ c.exportAssigned? = some f.name := by
  unfold declaredByAssignment at hf
  split at hf
  · rename_i hkind hleft _
    obtain ⟨name, hname, rfl⟩ := Option.map_eq_some_iff.1 hf
    exact ⟨rfl, h hkind _ hleft name hname⟩
  · cases hf

/-- The assignment of an expression statement begins where the statement begins. -/
theorem traced_expressionStatement :
    Keeps (Clear code) (expressionStatement g) (Clear code) (Traced code) := by
  intro c hc
  have hexpression : From c (g .expression) fun e d =>
      (Within code d ∧ Traced code e) ∧ Assigns c e := fun e d hrun =>
    ⟨hg.goal .expression nofun c hc.toWithin e d hrun, hg.assigns c e d hrun⟩
  refine .get (hexpression.bind fun e d ⟨⟨hd, he⟩, hassigns⟩ =>
    (keeps_statementEnd d hd).bind fun _ _ hstop => .pure ⟨hstop.1, .node (fun hkind f hf => ?_)
      (List.forall_mem_singleton.2 he)⟩)
  rw [declared_of_statement hkind] at hf
  obtain ⟨hline, hassigned⟩ := exportAssigned?_of_assigns hassigns (Option.mem_toList.1 hf)
  exact ⟨c, hc, hline.symm, hassigned⟩

theorem traced_labeled : Keeps (Within code) (labeled g) (Clear code) (Traced code) :=
  .get fun _ _ => traced_name.after fun _ => (clears_sign (by decide)).after fun _ =>
    hg.statement.bind fun _ hbody => .pure (traced_one nofun (hbody.as _))

theorem traced_plainStatement :
    Keeps (Clear code) (plainStatement g) (Clear code) (Traced code) := by
  have hfunction := traced_named (traced_anyFunction hg true)
  have hclass := traced_named (traced_anyClass hg true)
  intro c hc
  have hplace := hc.toWithin
  refine .get ?_
  split
  · exact traced_block hg c hplace
  · exact .advance (.pure ⟨hplace.clear_next_of_sign ‹_› (by decide), traced_leaf nofun⟩)
  · exact hfunction c hplace
  · exact hclass c hplace
  · exact traced_branch hg c hplace
  · exact traced_forLoop hg c hplace
  · exact traced_guarded hg .whileStatement nofun c hplace
  · exact traced_guarded hg .withStatement nofun c hplace
  · exact traced_doLoop hg c hplace
  · exact traced_switch hg c hplace
  · exact traced_attempt hg c hplace
  · exact traced_jumpStatement .returnStatement nofun (hg.goal .expression nofun) c hplace
  · exact traced_throwStatement hg c hplace
  · exact traced_jumpStatement .breakStatement nofun traced_name c hplace
  · exact traced_jumpStatement .continueStatement nofun traced_name c hplace
  · exact traced_jumpStatement .debuggerStatement nofun .fail c hplace
  · have hother : Keeps (Clear code) (do
        if (← atVariables) && !(← atLoneLet) then variableStatement g
        else if ← atAsyncFunction then named (anyFunction g true)
        else if c.token != .word "yield" && (nameOf? c.token).isSome &&
          (← peek).1 == .sign ":" then labeled g
        else expressionStatement g) (Clear code) (Traced code) :=
      keeps_atVariables.after fun _ => keeps_atLoneLet.after fun _ => .ite
        (fun _ => (traced_variableStatement hg).ofWithin)
        fun _ => keeps_atAsyncFunction.after fun _ => .ite
          (fun _ => hfunction.ofWithin)
          fun _ => Keeps.peek.after fun _ => .ite
            (fun _ => (traced_labeled hg).ofWithin)
            fun _ => traced_expressionStatement hg
    exact hother c hc

/-! ### Imports and exports -/

omit hg in
theorem traced_listedName : Keeps (Within code) listedName (Within code) (Traced code) := by
  refine .get fun _ _ => ?_
  split
  · exact keeps_advance.after fun _ => .pure (traced_leaf nofun)
  · exact keeps_advance.after fun _ => .pure (traced_leaf nofun)
  · exact traced_stringLiteral

omit hg in
theorem traced_exportClause : Keeps (Within code) exportClause (Clear code) (Traced code) := by
  have hspecifier : Keeps (Within code) exportSpecifier (Within code) (Traced code) := by
    refine traced_listedName.bind fun _ hown => (keeps_skipWord _).after fun _ => .ite
      (fun _ => traced_listedName.bind fun _ hother => .known (.pure ?_)) fun _ => .known (.pure ?_)
    · exact traced_two nofun (hown.as _) (hother.as _)
    · exact traced_one nofun (hown.as _)
  exact .get fun _ _ => (keeps_sign _).after fun _ =>
    (keeps_listUntil (by decide) hspecifier).bind fun _ hitems =>
      .pure (traced_of_kind nofun hitems)

omit hg in
theorem keeps_importClause : Keeps (Within code) importClause (Within code) fun _ => True := by
  have hspecifier : Keeps (Within code) importSpecifier (Within code) fun _ => True :=
    Keeps.token.after fun _ => traced_listedName.after fun _ => (keeps_skipWord _).after
      fun _ => .ite (fun _ => traced_name.after fun _ => .pure trivial)
      fun _ => (Keeps.require _).imp fun _ _ => trivial
  exact (keeps_sign _).after fun _ =>
    (keeps_listUntil (by decide) hspecifier).toWithin.after fun _ =>
      .pure trivial

omit hg in
theorem keeps_wholeModule : Keeps (Within code) wholeModule (Within code) fun _ => True :=
  (keeps_sign _).after fun _ => (keeps_word _).after fun _ => traced_name.after fun _ =>
    .pure trivial

theorem traced_moduleSource :
    Keeps (Within code) (moduleSource g) (Within code) fun ns => ∀ n ∈ ns, Traced code n := by
  refine traced_stringLiteral.bind fun _ hsource => (keeps_skipWord _).after fun _ => .ite
    (fun _ => (traced_object hg).bind fun _ hmarks => .known (.pure ?_)) fun _ => .known (.pure ?_)
  · exact forall_traced_cons.2 ⟨hsource.as _, List.forall_mem_singleton.2 hmarks⟩
  · exact List.forall_mem_singleton.2 (hsource.as _)

theorem traced_fromSource :
    Keeps (Within code) (fromSource g) (Within code) fun ns => ∀ n ∈ ns, Traced code n :=
  (keeps_word _).after fun _ => traced_moduleSource hg

theorem traced_importStatement :
    Keeps (Within code) (importStatement g) (Clear code) (Traced code) := by
  have hend : ∀ (line : Nat) {p : Production (List Node)},
      (Keeps (Within code) p (Within code) fun ns => ∀ n ∈ ns, Traced code n) →
      Keeps (Within code) (do
        let children ← p
        statementEnd
        return { kind := .importStatement, line, children }) (Clear code) (Traced code) :=
    fun _ _ hp => hp.bind fun _ hchildren => keeps_statementEnd.after fun _ =>
      .pure (traced_of_kind nofun hchildren)
  have hsource := traced_fromSource hg
  refine .get fun _ _ => (keeps_word _).after fun _ => Keeps.token.after fun _ => ?_
  split
  · exact hend _ (traced_moduleSource hg)
  · exact keeps_wholeModule.after fun _ => hend _ hsource
  · exact keeps_importClause.after fun _ => hend _ hsource
  · exact traced_name.after fun _ => (keeps_skipSign _).after fun _ => .ite
      (fun _ => (Keeps.atSign _).after fun _ => .ite
        (fun _ => keeps_wholeModule.after fun _ => hend _ hsource)
        fun _ => keeps_importClause.after fun _ => hend _ hsource)
      fun _ => hend _ hsource

theorem traced_declaration? :
    Keeps (Clear code) (declaration? g) (Clear code) fun r => ∀ n ∈ r, Traced code n := by
  have hsome : ∀ {p : Production Node}, Keeps (Within code) p (Clear code) (Traced code) →
      Keeps (Clear code) (do return some (← p)) (Clear code) fun r => ∀ n ∈ r, Traced code n :=
    fun hp => hp.ofWithin.bind fun _ hn => .pure fun _ hm => Option.some.inj hm ▸ hn
  exact (Keeps.atWord _).after fun _ => keeps_atAsyncFunction.after fun _ => .ite
    (fun _ => hsome (traced_anyFunction hg true))
    fun _ => (Keeps.atWord _).after fun _ => (Keeps.atSign _).after fun _ => .ite
      (fun _ => hsome (traced_anyClass hg true))
      fun _ => keeps_atVariables.after fun _ => .ite
        (fun _ => hsome (traced_variableStatement hg)) fun _ => .pure nofun

theorem traced_defaultExport :
    Keeps (Clear code) (defaultExport g) (Clear code) (Traced code) := by
  refine (Keeps.atWord _).after fun _ => keeps_atAsyncFunction.after fun _ =>
    (Keeps.atWord _).after fun _ => (Keeps.atSign _).after fun _ => .ite
      (fun _ => (traced_declaration? hg).bind fun r hr => ?_)
      fun _ => (hg.goal (.assignment true) nofun).ofWithin.bind fun _ he =>
        keeps_statementEnd.after fun _ => .pure (he.as _)
  split
  · exact .pure ((hr _ rfl).as _)
  · exact .fail

theorem traced_exportFrom (line : Nat) (before : List Node)
    (hbefore : ∀ m ∈ before, Traced code m) :
    Keeps (Within code) (exportFrom g line before) (Clear code) (Traced code) := by
  have hplain : ∀ {marked : Bool} {children : List Node}, (∀ m ∈ children, Traced code m) →
      Traced code (⟨.exportStatement marked, .item, line, "", before ++ children⟩ : Node) :=
    fun h => traced_of_kind (by simp) (List.forall_mem_append.2 ⟨hbefore, h⟩)
  have hwhole : Keeps (Within code) (do
      let source ← fromSource g
      statementEnd
      return (⟨.exportStatement false, .item, line, "", before ++ source⟩ : Node)) (Clear code)
      (Traced code) :=
    (traced_fromSource hg).bind fun _ hsource => keeps_statementEnd.after fun _ =>
      .pure (hplain hsource)
  refine (clears_word _).after fun _ => keeps_skipWord_bind
    ((traced_defaultExport hg).bind fun _ hn => .pure (hplain (List.forall_mem_singleton.2 hn)))
    (keeps_skipSign_bind (by decide) ?_ ?_ fun _ h => h.toWithin) fun _ h => h.toWithin
  · exact (keeps_skipWord _).ofWithin.after fun _ => .ite
      (fun _ => traced_listedName.after fun _ => hwhole) fun _ => hwhole
  · refine (Keeps.atSign _).after fun _ => .ite (fun _ => ?_)
      fun _ => (traced_declaration? hg).bind fun r hr => ?_
    · have hend : ∀ {clause : Node} {source : List Node}, Traced code clause →
          (∀ m ∈ source, Traced code m) → Keeps (Within code) (do
            statementEnd
            return (⟨.exportStatement false, .item, line, "", before ++ clause :: source⟩ : Node))
            (Clear code) (Traced code) :=
        fun hclause hsource => keeps_statementEnd.after fun _ =>
          .pure (hplain (forall_traced_cons.2 ⟨hclause, hsource⟩))
      exact traced_exportClause.ofWithin.bind fun _ hclause =>
        (Keeps.atWord _).ofWithin.after fun _ => .ite
          (fun _ => (traced_fromSource hg).bind fun _ hsource => hend hclause hsource)
          fun _ => (Keeps.require _).after fun _ => .known (hend hclause (List.forall_mem_nil _))
    · split
      · exact (Keeps.require _).after fun _ =>
          .pure (hplain (List.forall_mem_singleton.2 ((hr _ rfl).as _)))
      · exact .fail

theorem traced_decorated : Keeps (Clear code) (decorated g) (Clear code) (Traced code) :=
  .get fun start hstart => (traced_decorators hg).ofWithin.bind
    fun _ hbefore => (Keeps.atWord _).after fun _ => .ite
      (fun _ => traced_exportFrom hg start.line _ hbefore)
      fun _ => Keeps.peek.after fun _ => .ite
        (fun _ => traced_classFrom hg true start.line hbefore)
        fun _ => (Keeps.set hstart).after fun _ => traced_expressionStatement hg

theorem traced_statement : Keeps (Clear code) (statement g) (Clear code) (Traced code) :=
  keeps_atImport.after fun _ => .ite
    (fun _ => (traced_importStatement hg).ofWithin)
    fun _ => (Keeps.atWord _).after fun _ => .ite
      (fun _ => .get fun _ _ => (traced_exportFrom hg _ [] (List.forall_mem_nil _)).ofWithin)
      fun _ => (Keeps.atSign _).after fun _ => .ite (fun _ => traced_decorated hg)
        fun _ => traced_plainStatement hg

/-! ### The circle of rules -/

omit hg in
theorem traces_bounded : ∀ depth, Traces code (bounded depth)
  | 0 => ⟨.fail, fun _ _ => .fail, fun _ => .fail⟩
  | depth + 1 => by
    have hg := traces_bounded depth
    refine ⟨traced_statement hg, fun goal hgoal => ?_, fun _ => assigns_bounded (depth + 1)⟩
    cases goal with
    | statement => exact absurd rfl hgoal
    | expression => exact traced_expression hg
    | assignment allowIn => exact traced_assignment hg allowIn
    | operation level allowIn => exact traced_operation hg level allowIn
    | operand => exact traced_operand hg
    | chain calls => exact traced_chain hg calls
    | target => exact traced_target hg
    | element => exact traced_element hg

theorem traced_program : Keeps (Clear code) (program g) (Clear code) (Traced code) :=
  (Keeps.manyWhile (Keeps.token.after fun _ => .pure trivial) hg.statement).bind
    fun _ hstatements => Keeps.token.after fun _ => (Keeps.require _).after fun _ =>
      .pure (traced_of_kind nofun hstatements)

end Grammar

/-! ### A whole source -/

/-- The line that names an interpreter goes without its line feed. -/
theorem stands_dropInterpreterLine (source : List Char) :
    Stands source (dropInterpreterLine source) 1 := by
  unfold dropInterpreterLine
  split
  · have hfeed : Text.lineFeeds (source.takeWhile (!isLineEnd ·)) = 0 :=
      List.count_eq_zero.2 fun hmem => by
        have := List.all_eq_true.1 List.all_takeWhile _ hmem
        exact absurd this (by decide)
    refine ⟨List.dropWhile_suffix _, ?_⟩
    conv => rhs; rw [← List.takeWhile_append_dropWhile (p := (!isLineEnd ·)) (l := source)]
    rw [Text.lineFeeds_append, hfeed]
    omega
  · exact ⟨List.suffix_rfl, Nat.add_comm ..⟩

/-- The end of the line that names an interpreter is left to the source behind it. -/
theorem apart_dropInterpreterLine (source : List Char) :
    Apart source (dropInterpreterLine source) := by
  unfold dropInterpreterLine
  split
  · refine apart_of_head fun d hd => ?_
    have hline := List.head?_dropWhile_not (!isLineEnd ·) source
    rw [hd] at hline
    cases hlower : d.isLower with
    | false => rfl
    | true => simp [(isLower_facts hlower).1] at hline
  · exact apart_self

theorem traced_of_parse? {source : List Char} {tree : Node} (h : parse? source = some tree) :
    Traced source tree := by
  unfold parse? at h
  split at h
  · cases h
  · dsimp only at h
    split at h
    · rename_i tree' c hprogram
      split at h
      · cases h
      · cases h
        exact (Grammar.traced_program (Grammar.traces_bounded _) _ (clear_seek true
          (stands_dropInterpreterLine source) (apart_dropInterpreterLine source)) _ _ hprogram).2
    · cases h

/-- An expression statement of a source that assigns a function to a member of `exports` begins at
    a clear place of its line, with the tokens of the member and a sign of assignment. -/
theorem assignedIn_of_parse? {source : List Char} {tree : Node} (h : parse? source = some tree)
    {o : Occurrence} (ho : o ∈ tree.occurrences) (hkind : o.node.kind = .expressionStatement)
    {d : Declared} (hd : d ∈ o.node.declared) : AssignedIn source d.line d.name := by
  have htraced : Traced source o.node := by
    have htree := traced_of_parse? h
    clear h hkind hd
    induction ho using Node.occurrences_induction with
    | root n => exact htree
    | under hc _ ih => exact ih (htree.children _ (List.mem_of_getElem? hc))
  exact htraced.here hkind d hd

end CodeSurvey.Ecma
