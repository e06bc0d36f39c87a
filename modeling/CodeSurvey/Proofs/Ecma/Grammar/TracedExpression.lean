import CodeSurvey.Proofs.Ecma.Grammar.Traced

/-!
Expression statements inside expressions, traced back to the source: inside templates and markup,
operands and assignments. Main statements: expressions keep what is known of the statements inside
them, given that the goals of the grammar do.
-/

namespace CodeSurvey.Ecma

open Cursor Production

namespace Grammar

variable {code : List Char}

/-! ### Literals that are read from the source itself -/

/-- Behind what a pattern matches at the start of a text. -/
theorem stands_behind_match {p : Pattern} {m : Pattern.Match} {source : List Char} {line : Nat}
    (h : Stands code source line) (hm : p.matchStart? source = some m) :
    Stands code (source.drop m.length) (line + Text.lineFeeds m.text) := by
  rw [text_of_matchStart? hm]
  exact h.drop m.length

theorem stands_behind_leading (p : Pattern) {source : List Char} {line : Nat}
    (h : Stands code source line) :
    Stands code (source.drop (p.leading source).length)
      (line + Text.lineFeeds (p.leading source)) := by
  rw [Pattern.leading]
  cases hm : p.matchStart? source with
  | none => exact h
  | some m =>
    obtain ⟨_, _, _, hlength, _⟩ := Pattern.reads_of_matchAt hm
    rw [Option.map_some, Option.getD_some, ← hlength]
    exact stands_behind_match h hm

theorem traced_regularExpression :
    Keeps (Within code) regularExpression (Within code) (Traced code) := by
  refine .get fun d hd => ?_
  split
  · rename_i m hm
    have hbehind := hd.stands.drop_feedless (lineFeeds_of_matchStart? (by decide) hm)
    exact (keeps_jump hbehind).after fun _ => .pure (traced_leaf nofun)
  · exact .fail

theorem keeps_atChar {I : Cursor → Prop} (ch : Char) : Keeps I (atChar ch) I fun _ => True :=
  .get fun _ _ => .pure trivial

theorem keeps_skipChar (ch : Char) :
    Keeps (Within code) (skipChar ch) (Within code) fun _ => True :=
  .get fun _ hd => (Keeps.require _).after fun _ => keeps_jump hd.stands_drop

theorem keeps_spelledBy (p : Pattern) :
    Keeps (Within code) (spelledBy p) (Within code) fun _ => True := by
  refine .get fun d hd => ?_
  split
  · exact (keeps_jump (stands_behind_match hd.stands ‹_›)).after fun _ => .pure trivial
  · exact .fail

theorem keeps_attributeName : Keeps (Within code) attributeName (Within code) fun _ => True :=
  (keeps_spelledBy _).after fun _ => (keeps_atChar _).after fun _ => .ite
    (fun _ => (keeps_skipChar _).after fun _ => (keeps_spelledBy _).after fun _ => .pure trivial)
    fun _ => .pure trivial

theorem traced_elementName : Keeps (Within code) elementName (Within code) (Traced code) :=
  .get fun _ _ => keeps_attributeName.after fun _ =>
    (Keeps.manyWhile (keeps_atChar _) (P := fun _ => True) ((keeps_skipChar _).after fun _ =>
      (keeps_spelledBy _).after fun _ => .pure trivial)).after fun _ =>
        (Keeps.require _).after fun _ => .pure (traced_leaf nofun)

variable {g : Grammar} (hg : Traces code g)
include hg

theorem traced_template : Keeps (Within code) (template g) (Within code) (Traced code) := by
  refine .get fun d hd => (Keeps.require _).bind fun _ hquote => .bind
    (Keeps.iterate (P := fun state : List Node × List Char × Nat =>
      (∀ m ∈ state.1, Traced code m) ∧ Stands code state.2.1 state.2.2)
      ⟨nofun, stands_behind_leading _ (hd.stands_after_sign hquote)⟩ fun state hstate => ?_)
    fun finished hfinished => ?_
  · split
    · rename_i parts inside line
      obtain ⟨hparts, hsource⟩ := hstate
      have hinside : Stands code inside line := hsource.drop_feedless (n := 2) rfl
      exact (keeps_jump hinside).after fun _ => (hg.goal .expression nofun).bind fun e he =>
        .get fun stop hstop => (Keeps.require _).bind fun _ hbrace => .pure fun s hs => by
          obtain rfl := Option.some.inj hs
          exact ⟨forall_traced_cons.2 ⟨he, hparts⟩,
            stands_behind_leading _ (hstop.stands_after_sign hbrace)⟩
    · exact .pure nofun
  · split
    · obtain ⟨hparts, hsource⟩ := hfinished
      exact (keeps_jump (hsource.drop_feedless (n := 1) rfl)).after fun _ =>
        .pure (traced_of_kind nofun fun m hm => hparts m (List.mem_reverse.1 hm))
    · exact .fail

/-! ### Markup -/

theorem traced_embedded :
    Keeps (Within code) (embedded g) (Within code) fun ns => ∀ n ∈ ns, Traced code n :=
  (keeps_skipChar _).after fun _ => (keeps_atChar _).after fun _ => .ite
    (fun _ => .pure (List.forall_mem_nil _))
    fun _ => .get fun _ _ => (keeps_skipSign _).after fun _ => .ite
      (fun _ => (hg.goal (.assignment true) (by simp)).bind fun _ he =>
        .pure (List.forall_mem_singleton.2 (traced_one (by simp) he)))
      fun _ => (hg.goal .expression (by simp)).bind fun _ he =>
        .pure (List.forall_mem_singleton.2 he)

theorem traced_elementAttribute :
    Keeps (Within code) (elementAttribute g) (Within code) (Traced code) := by
  refine .get fun _ _ => (keeps_atChar _).after fun _ => .ite
    (fun _ => (traced_embedded hg).bind fun _ hinside => (keeps_skipChar _).after fun _ =>
      .pure (traced_of_kind nofun hinside))
    fun _ => keeps_attributeName.after fun _ => (keeps_atChar _).after fun _ => .ite
      (fun _ => (keeps_skipChar _).after fun _ => (keeps_atChar _).after fun _ =>
        (keeps_atChar _).after fun _ => .ite (fun _ => ?_) fun _ => .ite (fun _ => ?_) fun _ => ?_)
      fun _ => .pure (traced_leaf nofun)
  · exact (traced_embedded hg).bind fun _ hinside => (keeps_skipChar _).after fun _ =>
      .known (.pure (traced_of_kind nofun hinside))
  · exact (hg.goal .element nofun).bind fun e he => (keeps_skipChar _).after fun _ =>
      .known (.pure (traced_one nofun he))
  · exact (keeps_spelledBy _).after fun _ => .known (.pure (traced_leaf nofun))

theorem traced_attributes :
    Keeps (Within code) (attributes g) (Within code) fun ns => ∀ n ∈ ns, Traced code n :=
  .manyWhile ((keeps_atChar _).after fun _ => (keeps_atChar _).after fun _ => .pure trivial)
    (traced_elementAttribute hg)

theorem traced_elementChildren {source : List Char} {line : Nat} (h : Stands code source line) :
    Keeps (Within code) (elementChildren g source line) (Within code) fun ns =>
      ∀ n ∈ ns, Traced code n := by
  refine .bind (Keeps.iterate (P := fun state : List Node × List Char × Nat =>
      (∀ m ∈ state.1, Traced code m) ∧ Stands code state.2.1 state.2.2)
      ⟨nofun, stands_behind_leading _ h⟩ fun state hstate => ?_)
    fun finished hfinished => (keeps_skipChar _).after fun _ =>
      .pure fun m hm => hfinished.1 m (List.mem_reverse.1 hm)
  split
  · rename_i nodes rest line
    obtain ⟨hnodes, hrest⟩ := hstate
    exact (keeps_jump hrest).after fun _ => (traced_embedded hg).bind fun inside hinside =>
      (keeps_atChar _).after fun _ => (Keeps.require _).after fun _ => .get fun stop hstop =>
        .pure fun s hs => by
          obtain rfl := Option.some.inj hs
          exact ⟨List.forall_mem_append.2 ⟨hinside, hnodes⟩,
            stands_behind_leading _ hstop.stands_drop⟩
  · exact (keeps_jump (hstate.2.drop_feedless (n := 1) rfl)).after fun _ => .pure nofun
  · rename_i nodes rest line _
    obtain ⟨hnodes, hrest⟩ := hstate
    exact (keeps_jump hrest).after fun _ => (hg.goal .element nofun).bind fun e he =>
      .get fun stop hstop => .pure fun s hs => by
        obtain rfl := Option.some.inj hs
        exact ⟨forall_traced_cons.2 ⟨he, hnodes⟩, stands_behind_leading _ hstop.stands_drop⟩
  · exact .fail

theorem traced_elementRest :
    Keeps (Within code) (elementRest g) (Within code) fun ns => ∀ n ∈ ns, Traced code n := by
  refine (keeps_atChar _).after fun _ => (Keeps.require _).after fun _ => .get fun d hd =>
    (traced_elementChildren hg hd.stands_drop).bind fun inside hinside =>
      (keeps_atChar _).after fun _ => .ite (fun _ => traced_elementName.after fun _ => ?_)
        fun _ => ?_
  all_goals exact (keeps_atChar _).after fun _ => (Keeps.require _).after fun _ => .pure hinside

theorem traced_element : Keeps (Within code) (element g) (Within code) (Traced code) :=
  .get fun _ _ => (keeps_skipChar _).after fun _ => (keeps_atChar _).after fun _ => .ite
    (fun _ => (traced_elementRest hg).bind fun _ hinside => .pure (traced_of_kind nofun hinside))
    fun _ => traced_elementName.bind fun _ htag => (traced_attributes hg).bind fun _ hmarks =>
      .get fun _ _ => .ite
        (fun _ => (keeps_skipChar _).after fun _ =>
          .pure (traced_of_kind nofun (forall_traced_cons.2 ⟨htag, hmarks⟩)))
        fun _ => (traced_elementRest hg).bind fun _ hinside =>
          .pure (traced_of_kind nofun (List.forall_mem_append.2 ⟨hmarks, hinside⟩))

theorem traced_elementValue : Keeps (Within code) (elementValue g) (Within code) (Traced code) :=
  (hg.goal .element nofun).bind fun _ he => (keeps_skipChar _).after fun _ => .pure he

/-! ### Operands -/

omit hg in
theorem traced_importValue (calls : Bool) :
    Keeps (Within code) (importValue calls) (Within code) (Traced code) := by
  refine .get fun _ _ => (keeps_word _).after fun _ => (keeps_skipSign _).after fun _ => .ite
    (fun _ => (keeps_word _).after fun _ => .pure (traced_leaf nofun))
    fun _ => (Keeps.atSign _).after fun _ => (Keeps.require _).after fun _ =>
      .pure (traced_leaf nofun)

omit hg in
theorem keeps_atAsyncFunction {I : Cursor → Prop} : Keeps I atAsyncFunction I fun _ => True :=
  (Keeps.atWord _).after fun _ => .ite (fun _ => Keeps.peek.after fun _ => .pure trivial)
    fun _ => .pure trivial

theorem traced_value (calls : Bool) :
    Keeps (Within code) (value g calls) (Within code) (Traced code) := by
  have hfunction : Keeps (Within code) (anyFunction g false) (Within code) (Traced code) :=
    (traced_anyFunction hg false).toWithin
  have hclass : Keeps (Within code) (anyClass g false) (Within code) (Traced code) :=
    (traced_anyClass hg false).toWithin
  refine .get fun _ _ => ?_
  split
  · exact traced_parenthesised hg
  · exact traced_array hg
  · exact traced_object hg
  · exact traced_template hg
  · exact traced_regularExpression
  · exact traced_regularExpression
  · exact traced_elementValue hg
  · exact hclass
  · exact keeps_advance.after fun _ => .pure (traced_leaf nofun)
  · exact traced_stringLiteral
  · exact hfunction
  · exact hclass
  · exact traced_importValue calls
  · exact .ite (fun _ => keeps_advance.after fun _ => .pure (traced_leaf nofun))
      fun _ => keeps_atAsyncFunction.after fun _ => .ite (fun _ => hfunction)
        fun _ => traced_valueName
  · exact traced_valueName

omit hg in
theorem traced_memberName : Keeps (Within code) memberName (Within code) (Traced code) := by
  refine .get fun _ _ => ?_
  split
  case h_4 => exact .fail
  all_goals exact keeps_advance.after fun _ => .pure (traced_leaf nofun)

theorem traced_chainStep (calls : Bool) {n : Node} (hn : Traced code n) :
    Keeps (Within code) (chainStep g calls n) (Within code) fun r => ∀ m ∈ r, Traced code m := by
  have hlink : ∀ {kind line more}, kind ≠ .expressionStatement → (∀ m ∈ more, Traced code m) →
      ∀ m ∈ some (⟨kind, .item, line, "", n :: more⟩ : Node), Traced code m := by
    intro kind line more hkind hmore m hm
    exact Option.some.inj hm ▸ traced_of_kind hkind (forall_traced_cons.2 ⟨hn, hmore⟩)
  have hmember : ∀ {kind line more}, kind ≠ .expressionStatement → (∀ m ∈ more, Traced code m) →
      ∀ m ∈ some (⟨kind, .item, line, "", n.as .object :: more⟩ : Node), Traced code m := by
    intro kind line more hkind hmore m hm
    exact Option.some.inj hm ▸ traced_of_kind hkind (forall_traced_cons.2 ⟨hn.as _, hmore⟩)
  have hone : ∀ {m : Node}, Traced code m → ∀ m' ∈ [m], Traced code m' :=
    fun hm => List.forall_mem_singleton.2 hm
  have hname : Keeps (Within code) (memberName >>= fun m => pure (some
      (⟨.member, .item, n.line, "", [n.as .object, m]⟩ : Node))) (Within code)
      fun r => ∀ m ∈ r, Traced code m :=
    traced_memberName.bind fun m hm => .pure (hmember nofun (hone hm))
  have hindex : Keeps (Within code) (do
      sign "["
      let e ← g .expression
      sign "]"
      return some (⟨.subscript, .item, n.line, "", [n.as .object, e]⟩ : Node)) (Within code)
      fun r => ∀ m ∈ r, Traced code m :=
    (keeps_sign _).after fun _ => (hg.goal .expression nofun).bind fun e he =>
      (keeps_sign _).after fun _ => .pure (hmember nofun (hone he))
  refine Keeps.token.after fun _ => ?_
  split
  · exact keeps_advance.after fun _ => hname
  · exact hindex
  · exact (traced_template hg).bind fun e he => .pure (hlink nofun (hone he))
  · exact .ite (fun _ => (traced_arguments hg).bind fun e he => .pure (hlink nofun (hone he)))
      fun _ => .pure nofun
  · refine .ite (fun _ => keeps_advance.after fun _ => Keeps.token.after fun _ => ?_)
      fun _ => .pure nofun
    split
    · exact (traced_arguments hg).bind fun e he => .pure (hlink nofun (hone he))
    · exact hindex
    · exact (traced_template hg).bind fun e he => .pure (hlink nofun (hone he))
    · exact hname
  · exact .pure nofun

theorem traced_newInstance : Keeps (Within code) (newInstance g) (Within code) (Traced code) :=
  .get fun _ _ => (keeps_word _).after fun _ => (keeps_skipSign _).after fun _ => .ite
    (fun _ => (keeps_word _).after fun _ => .pure (traced_leaf nofun))
    fun _ => (hg.goal (.chain false) nofun).bind fun _ he => (Keeps.atSign _).after fun _ => .ite
      (fun _ => (traced_arguments hg).bind fun _ hlist =>
        .known (.pure (traced_two nofun he hlist)))
      fun _ => .known (.pure (traced_one nofun he))

theorem traced_chain (calls : Bool) :
    Keeps (Within code) (chain g calls) (Within code) (Traced code) := by
  refine (Keeps.atWord _).after fun _ => .ite (fun _ => (traced_newInstance hg).bind fun n hn => ?_)
    fun _ => (traced_value hg calls).bind fun n hn => ?_
  all_goals exact .iterate hn fun n hn => traced_chainStep hg calls hn

theorem traced_updated : Keeps (Within code) (updated g) (Within code) (Traced code) :=
  .get fun _ _ => (traced_chain hg true).bind fun _ hn => .get fun _ _ => .ite
    (fun _ => keeps_advance.after fun _ => .pure (traced_one nofun hn)) fun _ => .pure hn

theorem traced_marked (kind : Kind) (hkind : kind ≠ .expressionStatement) :
    Keeps (Within code) (marked g kind) (Within code) (Traced code) :=
  .get fun _ _ => keeps_advance.after fun _ => (hg.goal .operand nofun).bind fun _ hn =>
    .pure (traced_one hkind hn)

omit hg in
theorem keeps_atAwaitName : Keeps (Within code) atAwaitName (Within code) fun _ => True :=
  .get fun _ hd => keeps_advance.after fun _ => .get fun _ _ => (Keeps.atWord _).after fun _ =>
    (Keeps.atWord _).after fun _ => keeps_atAsyncFunction.after fun _ =>
      (Keeps.set hd).after fun _ => .pure trivial

theorem traced_awaiting : Keeps (Within code) (awaiting g) (Within code) (Traced code) :=
  Keeps.peek.after fun _ => .ite
    (fun _ => .orElse ((traced_marked hg .awaiting nofun).bind fun _ hn => .get fun _ _ =>
      (Keeps.require _).after fun _ => .pure hn) (traced_updated hg))
    fun _ => traced_marked hg _ nofun

theorem traced_operand : Keeps (Within code) (operand g) (Within code) (Traced code) := by
  refine .get fun _ _ => .ite (fun _ => traced_marked hg _ nofun) fun _ => ?_
  split
  · exact traced_marked hg _ nofun
  · exact traced_marked hg _ nofun
  · exact keeps_atAwaitName.after fun _ => .ite (fun _ => traced_updated hg)
      fun _ => Keeps.peek.after fun _ => .ite
        (fun _ => .orElse (traced_updated hg) (traced_marked hg _ nofun))
        fun _ => traced_awaiting hg
  · exact keeps_advance.after fun _ => (Keeps.atWord _).after fun _ => (Keeps.require _).after
      fun _ => .pure (traced_leaf nofun)
  · exact traced_updated hg

/-! ### Expressions -/

theorem traced_operation (level : Nat) (allowIn : Bool) :
    Keeps (Within code) (operation g level allowIn) (Within code) (Traced code) := by
  refine (traced_operand hg).bind fun n hn => .iterate hn fun left hleft =>
    Keeps.token.after fun _ => ?_
  split
  · exact .pure nofun
  · refine .ite (fun _ => .pure nofun) fun _ => keeps_advance.after fun _ =>
      (hg.goal (.operation _ allowIn) nofun).bind fun right hright => .pure fun m hm => ?_
    obtain rfl := Option.some.inj hm
    exact traced_two nofun (hleft.as _) (hright.as _)

theorem traced_conditional (allowIn : Bool) :
    Keeps (Within code) (conditional g allowIn) (Within code) (Traced code) :=
  (traced_operation hg 0 allowIn).bind fun _ htest => (keeps_skipSign _).after fun _ => .ite
    (fun _ => (hg.goal (.assignment true) nofun).bind fun _ hfirst => (keeps_sign _).after fun _ =>
      (hg.goal (.assignment allowIn) nofun).bind fun _ hsecond => .pure (traced_of_kind nofun
        (forall_traced_cons.2 ⟨htest, forall_traced_cons.2
          ⟨hfirst, List.forall_mem_singleton.2 hsecond⟩⟩)))
    fun _ => .pure htest

omit hg in
theorem traced_asyncArguments? {n list : Node} (h : asyncArguments? n = some list)
    (hn : Traced code n) : Traced code list := by
  unfold asyncArguments? at h
  split at h
  · rename_i hchildren
    split at h
    · cases h
      exact hn.children _ (by rw [hchildren]; simp)
    · cases h
  · cases h

theorem traced_assignmentFrom (allowIn : Bool) :
    Keeps (Within code) (assignmentFrom g allowIn) (Within code) (Traced code) := by
  refine .get fun _ _ => (traced_conditional hg allowIn).bind fun left hleft =>
    keeps_atArrow.after fun _ => .ite (fun _ => ?_) fun _ => Keeps.token.after fun _ => ?_
  · split
    · rename_i list hlist
      exact traced_listArrow hg allowIn true _ (traced_asyncArguments? hlist hleft)
    · exact traced_listArrow hg allowIn false _ hleft
  · split
    · split
      · rename_i place hplace
        exact keeps_advance.after fun _ => (hg.goal (.assignment allowIn) nofun).bind
          fun _ hright =>
            .pure (traced_two nofun ((traced_asTarget? hplace hleft).as _) (hright.as _))
      · exact .fail
    · exact .ite (fun _ => (Keeps.require _).after fun _ => keeps_advance.after fun _ =>
        (hg.goal (.assignment allowIn) nofun).bind fun _ hright =>
          .pure (traced_two nofun (hleft.as _) (hright.as _))) fun _ => .pure hleft
    · exact .pure hleft

theorem traced_yielding (allowIn : Bool) :
    Keeps (Within code) (yielding g allowIn) (Within code) (Traced code) :=
  .get fun _ hstart => (keeps_word _).after fun _ => .get fun _ _ => .ite
    (fun _ => .pure (traced_leaf nofun)) fun _ => (keeps_skipSign _).after fun _ => .ite
      (fun _ => (hg.goal (.assignment allowIn) nofun).bind fun _ he => .pure (traced_one nofun he))
      fun _ => (Keeps.require _).after fun _ => (Keeps.set hstart).after fun _ =>
        traced_assignmentFrom hg allowIn

theorem traced_assignment (allowIn : Bool) :
    Keeps (Within code) (assignment g allowIn) (Within code) (Traced code) :=
  .get fun _ _ => .ite (fun _ => traced_yielding hg allowIn) fun _ => .ite
    (fun _ => Keeps.peek.after fun _ => .ite (fun _ => traced_nameArrow hg allowIn false _)
      fun _ => .ite (fun _ => keeps_advance.after fun _ => traced_nameArrow hg allowIn true _)
        fun _ => traced_assignmentFrom hg allowIn)
    fun _ => traced_assignmentFrom hg allowIn

theorem traced_expression : Keeps (Within code) (expression g) (Within code) (Traced code) :=
  .get fun _ _ => (hg.goal (.assignment true) nofun).bind fun _ hfirst =>
    (Keeps.manyWhile (keeps_skipSign _) (hg.goal (.assignment true) nofun)).bind fun _ hmore => .ite
      (fun _ => .pure hfirst)
      fun _ => .pure (traced_of_kind nofun (forall_traced_cons.2 ⟨hfirst, hmore⟩))

theorem traced_target : Keeps (Within code) (target g) (Within code) (Traced code) := by
  refine Keeps.token.after fun _ => ?_
  split <;> [refine (traced_array hg).bind fun literal hliteral => ?_;
    refine (traced_object hg).bind fun literal hliteral => ?_;
    refine traced_name.bind fun literal hliteral => ?_]
  all_goals
    dsimp only
    split
    · exact .pure (traced_asPattern? ‹_› hliteral)
    · exact .fail

end Grammar

end CodeSurvey.Ecma
