import CodeSurvey.Ecma.Parse
import CodeSurvey.Proofs.Ecma.Layout

/-!
What an export statement holds. A production is followed here by what it answers alone, whatever it
has read before; the goals of the grammar may then be any productions. Main statement: what a
statement at the top of a source exports without being its default is a declaration, namely a
function or a class with its name or variables, or it comes from a list or another module.
-/

namespace CodeSurvey.Ecma

namespace Production

variable {α β : Type} {p q : Production α} {P Q : α → Prop} {R : β → Prop}

/-- Whatever the production answers has the property. -/
def Yields (p : Production α) (Q : α → Prop) : Prop := ∀ c a c', p c = some (a, c') → Q a

theorem Yields.pure {a : α} (h : Q a) : Yields (Pure.pure a) Q := by
  intro c b c' hrun
  cases hrun
  exact h

theorem Yields.fail : Yields (fail : Production α) Q := nofun

theorem Yields.imp (h : Yields p P) (himp : ∀ a, P a → Q a) : Yields p Q :=
  fun c a c' hrun => himp a (h c a c' hrun)

/-- A step with what the step before it has answered. -/
theorem Yields.bind {f : α → Production β} (first : Yields p P)
    (second : ∀ a, P a → Yields (f a) R) : Yields (p >>= f) R := by
  intro c b c' hrun
  obtain ⟨⟨a, c₁⟩, hfirst, hsecond⟩ := Option.bind_eq_some_iff.1 hrun
  exact second a (first c a c₁ hfirst) c₁ b c' hsecond

/-- A step whatever the step before it has answered. -/
theorem Yields.after {f : α → Production β} (h : ∀ a, Yields (f a) R) : Yields (p >>= f) R :=
  .bind (P := fun _ => True) (fun _ _ _ _ => trivial) fun a _ => h a

theorem Yields.ite {c : Prop} [Decidable c] (hp : c → Yields p Q) (hq : ¬ c → Yields q Q) :
    Yields (if c then p else q) Q := by
  split
  · exact hp ‹_›
  · exact hq ‹_›

/-- A condition that is required holds behind it. -/
theorem Yields.require {condition : Bool} {f : Unit → Production β}
    (h : condition = true → Yields (f ()) R) : Yields (require condition >>= f) R := by
  refine .bind (P := fun _ => condition = true) ?_ fun _ => h
  exact .ite (fun hcondition => .pure hcondition) fun _ => .fail

/-- What holds of every item holds of all that are read. -/
theorem Yields.manyWhile {more : Production Bool} (h : Yields p P) :
    Yields (manyWhile more p) fun items => ∀ a ∈ items, P a := by
  have hstep : ∀ fuel items, (∀ a ∈ items, P a) →
      Yields (repeatFrom (fun items => do
        if ← more then return some ((← p) :: items) else return none) fuel items)
        fun items => ∀ a ∈ items, P a := by
    intro fuel
    induction fuel with
    | nil => exact fun items hitems => .pure hitems
    | cons _ fuel ih =>
      intro items hitems
      refine .bind (P := fun next => ∀ more ∈ next, ∀ a ∈ more, P a) ?_ fun next hnext => ?_
      · exact .after fun _ => .ite
          (fun _ => .bind h fun a ha => .pure fun _ hmore =>
            Option.some.inj hmore ▸ List.forall_mem_cons.2 ⟨ha, hitems⟩)
          fun _ => .pure nofun
      · cases next with
        | some items' => exact ih items' (hnext items' rfl)
        | none => exact .pure hitems
  refine .bind (P := fun items => ∀ a ∈ items, P a) (.after fun start => hstep _ [] (by simp)) ?_
  exact fun items hitems => .pure fun a ha => hitems a (List.mem_reverse.1 ha)

end Production

namespace Grammar

open Production

variable (g : Grammar)

/-! ### Statements that export nothing -/

/-- The node is no export. -/
def NoExport (n : Node) : Prop := ∀ isDefault, n.kind ≠ .exportStatement isDefault

theorem block_noExport : Yields (block g) NoExport :=
  .after fun _ => .after fun _ => .after fun _ => .after fun _ => .pure nofun

/-! ### Items -/

theorem decorators_yields : Yields (decorators g) fun ns => ∀ n ∈ ns, n.role = .item :=
  .manyWhile (.after fun _ => .after fun _ => .after fun _ => .ite
    (fun _ => .after fun _ => .pure rfl)
    fun _ => .after fun _ => .after fun _ => .after fun _ => .ite
      (fun _ => .after fun _ => .pure rfl) fun _ => .after fun _ => .pure rfl)

theorem object_yields : Yields (object g) fun n => n.role = .item :=
  .after fun _ => .after fun _ => .after fun _ => .pure rfl

theorem declaratorRest_yields (allowIn : Bool) (place : Node) :
    Yields (declaratorRest g allowIn place) fun n => n.role = .item :=
  .after fun _ => .ite (fun _ => .after fun _ => .after fun _ => .pure rfl)
    fun _ => .after fun _ => .pure rfl

theorem variableStatement_yields :
    Yields (variableStatement g) fun n =>
      (n.kind = .lexicalDeclaration ∨ n.kind = .variableDeclaration) ∧
        ∀ c ∈ n.children, c.role = .item := by
  have hkind : Yields variablesKind fun kind =>
      kind = .lexicalDeclaration ∨ kind = .variableDeclaration := by
    refine .after fun isVar => .after fun _ => .pure ?_
    cases isVar
    · exact .inl rfl
    · exact .inr rfl
  have hmore : Yields (moreDeclarators g true) fun ns => ∀ n ∈ ns, n.role = .item :=
    .manyWhile (.after fun place => declaratorRest_yields g true place)
  exact .after fun _ => .bind hkind fun _ hkind => .after fun place =>
    .bind (declaratorRest_yields g true place) fun _ hfirst => .bind hmore fun _ hmore =>
      .after fun _ => .pure ⟨hkind, List.forall_mem_cons.2 ⟨hfirst, hmore⟩⟩

/-! ### Functions and classes -/

/-- A name is an identifier. -/
theorem name_yields : Yields name fun n => n.kind = .identifier := by
  refine .after fun c => ?_
  split
  · exact .after fun _ => .pure rfl
  · exact .fail

/-- A node of one of two kinds. It is of the second one, which stands for a declaration, only if it
    has its name behind the marks in front. -/
inductive PerhapsNamed (plain named : Kind) (before : List Node) (n : Node) : Prop where
  | plain (kind : n.kind = plain)
  | named {name : Node} {more : List Node} (kind : n.kind = named)
      (children : n.children = before ++ name.as .name :: more)
      (identifier : name.kind = .identifier)

theorem function_yields (declares async : Bool) (line : Nat) :
    Yields (function g declares async line) fun n => ∃ generator,
      PerhapsNamed (.functionExpression async generator) (.functionDeclaration async generator)
        [] n := by
  refine .after fun _ => .after fun generator => .after fun _ => .ite (fun _ => ?_) fun _ => ?_
  · refine .bind name_yields fun name hname => .after fun rest => .pure ⟨generator, ?_⟩
    cases declares with
    | true => exact .named rfl (show _ = [] ++ name.as .name :: rest from rfl) hname
    | false => exact .plain rfl
  · exact .after fun _ => .pure ⟨generator, .plain rfl⟩

theorem anyFunction_yields (declares : Bool) :
    Yields (anyFunction g declares) fun n => ∃ async generator,
      PerhapsNamed (.functionExpression async generator) (.functionDeclaration async generator)
        [] n :=
  .after fun _ => .after fun async =>
    (function_yields g declares async _).imp fun _ h => ⟨async, h⟩

theorem classFrom_yields (declares : Bool) (line : Nat) (before : List Node) :
    Yields (classFrom g declares line before)
      (PerhapsNamed .classExpression .classDeclaration before) := by
  have hnamed : ∀ (name : Node) (parent : List Node) body, name.kind = .identifier →
      PerhapsNamed .classExpression .classDeclaration before
        ⟨if declares && !([name.as .name] : List Node).isEmpty then .classDeclaration
          else .classExpression, .item, line, "",
          before ++ [name.as .name] ++ parent ++ [body]⟩ := by
    intro name parent body hname
    cases declares with
    | true =>
      exact .named rfl (show _ = before ++ name.as .name :: (parent ++ [body]) by simp) hname
    | false => exact .plain rfl
  have hnameless : ∀ children, PerhapsNamed .classExpression .classDeclaration before
      ⟨if declares && !([] : List Node).isEmpty then .classDeclaration else .classExpression,
        .item, line, "", children⟩ := by
    intro children
    cases declares <;> exact .plain rfl
  refine .after fun _ => .after fun _ => .ite
    (fun _ => .bind name_yields fun name hname => .bind (P := (· = [name.as .name])) (.pure rfl) ?_)
    fun _ => .bind (P := (· = [])) (.pure rfl) ?_
  · rintro _ rfl
    refine .after fun _ => .ite (fun _ => .after fun _ => ?_) fun _ => ?_ <;>
      exact .after fun _ => .after fun _ => .after fun _ => .after fun _ => .after fun _ =>
        .pure (hnamed _ _ _ hname)
  · rintro _ rfl
    refine .after fun _ => .ite (fun _ => .after fun _ => ?_) fun _ => ?_ <;>
      exact .after fun _ => .after fun _ => .after fun _ => .after fun _ => .after fun _ =>
        .pure (hnameless _)

theorem anyClass_yields (declares : Bool) :
    Yields (anyClass g declares) fun n => ∃ before, (∀ d ∈ before, d.role = .item) ∧
      PerhapsNamed .classExpression .classDeclaration before n :=
  .after fun _ => .bind (decorators_yields g) fun before hbefore =>
    (classFrom_yields g declares _ before).imp fun _ h => ⟨before, hbefore, h⟩

/-! ### Exports -/

/-- The kind of a function or class that stands as a declaration. -/
def IsNamedKind (kind : Kind) : Prop :=
  kind = .classDeclaration ∨ ∃ async generator, kind = .functionDeclaration async generator

/-- A function or class with its name, or variables. -/
inductive IsDeclaration (d : Node) : Prop where
  | named {own : Node} (kind : IsNamedKind d.kind) (name : d.child? .name = some own)
      (identifier : own.kind = .identifier)
  | declarators (kind : d.kind = .lexicalDeclaration ∨ d.kind = .variableDeclaration)
      (nameless : d.child? .name = none)

theorem IsDeclaration.as {d : Node} (h : IsDeclaration d) (role : Role) :
    IsDeclaration (d.as role) := by
  cases h with
  | named kind name identifier => exact .named kind name identifier
  | declarators kind nameless => exact .declarators kind nameless

theorem child?_eq_none {n : Node} {role : Role} (h : ∀ c ∈ n.children, c.role ≠ role) :
    n.child? role = none :=
  List.find?_eq_none.2 fun c hc heq => h c hc (eq_of_beq heq)

theorem PerhapsNamed.isDeclaration {plain kind : Kind} {before : List Node} {n : Node}
    (h : PerhapsNamed plain kind before n) (hbefore : ∀ d ∈ before, d.role = .item)
    (hplain : n.kind ≠ plain) (hkind : IsNamedKind kind) : IsDeclaration n := by
  cases h with
  | plain heq => exact absurd heq hplain
  | @named name more heq children identifier =>
    refine .named (heq ▸ hkind) (show n.child? .name = some (name.as .name) from ?_) identifier
    have hpart : n.child? .name = partOf (before ++ name.as .name :: more) .name := by
      rw [Node.child?, children]
      rfl
    rw [hpart, partOf_append_of_items hbefore _ (by decide), partOf_cons]
    rfl

/-- A declaration that is no mere value declares something. -/
theorem declaration?_yields :
    Yields (declaration? g) fun found => ∀ d ∈ found, d.kind ≠ .classExpression →
      d.kind.isFunctionLiteral = false → IsDeclaration d := by
  refine .after fun _ => .after fun _ => .ite (fun _ => ?_) fun _ => .after fun _ => .after fun _ =>
    .ite (fun _ => ?_) fun _ => .after fun _ => .ite (fun _ => ?_) fun _ => .pure nofun
  · refine .bind (anyFunction_yields g true) fun n hn => .pure fun d hd _ hliteral => ?_
    obtain rfl := Option.some.inj hd
    obtain ⟨async, generator, hn⟩ := hn
    refine hn.isDeclaration nofun (fun heq => ?_) (.inr ⟨async, generator, rfl⟩)
    rw [heq] at hliteral
    exact absurd hliteral nofun
  · refine .bind (anyClass_yields g true) fun n hn => .pure fun d hd hclass _ => ?_
    obtain rfl := Option.some.inj hd
    obtain ⟨before, hbefore, hn⟩ := hn
    exact hn.isDeclaration hbefore hclass (.inl rfl)
  · refine .bind (variableStatement_yields g) fun n hn => .pure fun d hd _ _ => ?_
    obtain rfl := Option.some.inj hd
    exact .declarators hn.1 (child?_eq_none fun c hc => by rw [hn.2 c hc]; exact nofun)

/-- What a statement exports without being its default is a declaration, or it comes from a list or
    from another module. -/
def Exports (n : Node) : Prop :=
  n.kind = .exportStatement false → ∀ d, n.child? .declaration = some d →
    IsDeclaration d ∧ n.child? .source = none

theorem moduleSource_yields :
    Yields (moduleSource g) fun ns => ∀ n ∈ ns, n.role ≠ .declaration := by
  have hend : ∀ (source : Node) (attributes : List Node), (∀ n ∈ attributes, n.role = .item) →
      ∀ n ∈ source.as .source :: attributes, n.role ≠ .declaration := by
    intro source attributes h
    exact List.forall_mem_cons.2 ⟨nofun, fun n hn => by rw [h n hn]; exact nofun⟩
  exact .after fun source => .after fun _ => .ite
    (fun _ => .bind (object_yields g) fun o ho => .bind (P := (· = [o])) (.pure rfl) fun _ h =>
      .pure (hend source _ (h ▸ List.forall_mem_singleton.2 ho)))
    fun _ => .bind (P := (· = [])) (.pure rfl) fun _ h => .pure (hend source _ (h ▸ nofun))

theorem fromSource_yields : Yields (fromSource g) fun ns => ∀ n ∈ ns, n.role ≠ .declaration :=
  .after fun _ => moduleSource_yields g

theorem exportClause_yields : Yields exportClause fun n => n.role = .item :=
  .after fun _ => .after fun _ => .after fun _ => .pure rfl

theorem exports_of_roles {n : Node} (h : ∀ c ∈ n.children, c.role ≠ .declaration) : Exports n :=
  fun _ _ hd => absurd ((child?_eq_none h).symm.trans hd) nofun

theorem exportFrom_yields (line : Nat) {before : List Node}
    (hbefore : ∀ d ∈ before, d.role = .item) : Yields (exportFrom g line before) Exports := by
  have hplain : ∀ children : List Node, (∀ c ∈ children, c.role ≠ .declaration) →
      Exports ⟨.exportStatement false, .item, line, "", before ++ children⟩ := fun children h =>
    exports_of_roles fun c hc => (List.mem_append.1 hc).elim
      (fun hc => by rw [hbefore c hc]; exact nofun) (h c)
  have hsource : Yields (do
      let source ← fromSource g
      statementEnd
      return (⟨.exportStatement false, .item, line, "", before ++ source⟩ : Node)) Exports :=
    .bind (fromSource_yields g) fun source h => .after fun _ => .pure (hplain source h)
  refine .after fun _ => .after fun _ => .ite (fun _ => .after fun _ => .pure nofun) fun _ =>
    .after fun _ => .ite (fun _ => .after fun _ => .ite (fun _ => .after fun _ => hsource)
      fun _ => hsource) fun _ =>
    .after fun _ => .ite (fun _ => .bind exportClause_yields fun clause hclause => ?_) fun _ =>
    .bind (declaration?_yields g) fun found hfound => ?_
  · have hlist : ∀ source : List Node, (∀ n ∈ source, n.role ≠ .declaration) →
        Exports ⟨.exportStatement false, .item, line, "", before ++ clause :: source⟩ :=
      fun source h => hplain _ (List.forall_mem_cons.2 ⟨by rw [hclause]; exact nofun, h⟩)
    exact .after fun _ => .ite
      (fun _ => .bind (fromSource_yields g) fun source h => .after fun _ => .pure (hlist source h))
      fun _ => .after fun _ => .bind (P := (· = [])) (.pure rfl) fun source h =>
        .after fun _ => .pure (hlist source (h ▸ nofun))
  · cases found with
    | none => exact .fail
    | some node =>
      refine .require fun hkind => .pure fun _ d hd => ?_
      obtain ⟨hclass, hliteral⟩ := Bool.and_eq_true_iff.1 hkind
      have hdeclaration : IsDeclaration node :=
        hfound node rfl (bne_iff_ne.1 hclass) (by simpa using hliteral)
      have hpart : ∀ {role : Role}, role ≠ .item →
          (⟨.exportStatement false, .item, line, "", before ++ [node.as .declaration]⟩ :
            Node).child? role = partOf [node.as .declaration] role :=
        fun hrole => partOf_append_of_items hbefore _ hrole
      obtain rfl : node.as .declaration = d :=
        Option.some.inj ((hpart (by decide)).symm.trans hd)
      exact ⟨hdeclaration.as _, hpart (by decide)⟩

/-! ### Statements -/

theorem NoExport.exports {n : Node} (h : NoExport n) : Exports n :=
  fun hkind => absurd hkind (h false)

theorem PerhapsNamed.noExport {plain named : Kind} {before : List Node} {n : Node}
    (h : PerhapsNamed plain named before n)
    (hplain : ∀ isDefault, plain ≠ .exportStatement isDefault)
    (hnamed : ∀ isDefault, named ≠ .exportStatement isDefault) : NoExport n := by
  intro isDefault hkind
  cases h with
  | plain heq => exact hplain isDefault (heq.symm.trans hkind)
  | named heq => exact hnamed isDefault (heq.symm.trans hkind)

theorem named_noExport {declaration : Production Node} (h : Yields declaration NoExport) :
    Yields (named declaration) NoExport :=
  .bind h fun _ hn => .after fun _ => .pure hn

theorem anyFunction_noExport (declares : Bool) : Yields (anyFunction g declares) NoExport :=
  (anyFunction_yields g declares).imp fun _ h =>
    have ⟨_, _, hn⟩ := h
    hn.noExport nofun nofun

theorem classFrom_noExport (declares : Bool) (line : Nat) (before : List Node) :
    Yields (classFrom g declares line before) NoExport :=
  (classFrom_yields g declares line before).imp fun _ hn => hn.noExport nofun nofun

theorem anyClass_noExport (declares : Bool) : Yields (anyClass g declares) NoExport :=
  .after fun _ => .after fun before => classFrom_noExport g declares _ before

theorem variableStatement_noExport : Yields (variableStatement g) NoExport :=
  (variableStatement_yields g).imp fun n hn isDefault hkind => by
    rcases hn.1 with h | h <;> exact absurd (h.symm.trans hkind) nofun

theorem expressionStatement_noExport : Yields (expressionStatement g) NoExport :=
  .after fun _ => .after fun _ => .after fun _ => .pure nofun

theorem branch_noExport : Yields (branch g) NoExport :=
  .after fun _ => .after fun _ => .after fun _ => .after fun _ => .after fun _ => .after fun _ =>
    .ite (fun _ => .after fun _ => .after fun _ => .pure nofun) fun _ => .after fun _ => .pure nofun

theorem loopHead_yields :
    Yields (loopHead g) fun head => head.1 = .forStatement ∨ head.1 = .forInStatement := by
  refine .after fun _ => .after fun _ => .ite (fun _ => .after fun _ => .pure (.inl rfl))
    fun _ => .after fun _ => .ite (fun _ => ?_) fun _ => ?_
  · exact .after fun _ => .after fun _ => .after fun _ =>
      .ite (fun _ => .after fun _ => .pure (.inr rfl)) fun _ => .after fun _ => .after fun _ =>
        .ite (fun _ => .after fun _ => .pure (.inr rfl)) fun _ => .after fun _ => .after fun _ =>
          .after fun _ => .pure (.inl rfl)
  · refine .after fun _ => .ite (fun _ => .after fun first => ?_) fun _ => .after fun first => ?_
    all_goals
      refine .after fun _ => .ite (fun _ => ?_) fun _ => .after fun _ => .after fun _ =>
        .after fun _ => .pure (.inl rfl)
      split
      · exact .after fun _ => .pure (.inr rfl)
      · exact .fail

theorem forLoop_noExport : Yields (forLoop g) NoExport := by
  refine .after fun _ => .after fun _ => .after fun _ => .after fun _ =>
    .bind (loopHead_yields g) fun head hhead => .after fun _ => .after fun _ =>
      .pure fun _ hkind => ?_
  rcases hhead with h | h <;> exact absurd (h.symm.trans hkind) nofun

theorem guarded_noExport {kind : Kind} (h : ∀ isDefault, kind ≠ .exportStatement isDefault) :
    Yields (guarded g kind) NoExport :=
  .after fun _ => .after fun _ => .after fun _ => .after fun _ => .pure h

theorem jumpStatement_noExport {kind : Kind} (argument : Production Node)
    (h : ∀ isDefault, kind ≠ .exportStatement isDefault) :
    Yields (jumpStatement kind argument) NoExport :=
  .after fun _ => .after fun _ => .after fun _ => .ite
    (fun _ => .after fun _ => .after fun _ => .pure h)
    fun _ => .after fun _ => .after fun _ => .after fun _ => .pure h

theorem attempt_noExport : Yields (attempt g) NoExport := by
  refine .after fun _ => .after fun _ => .after fun _ => .after fun _ => .after fun _ => .ite
    (fun _ => .after fun _ => .ite
      (fun _ => .after fun _ => .after fun _ => .after fun _ => .after fun _ => ?_)
      fun _ => .after fun _ => .after fun _ => ?_)
    fun _ => ?_
  -- whatever the handler is, the end is the same
  all_goals
    exact .after fun _ => .after fun _ => .after fun _ => .ite
      (fun _ => .after fun _ => .after fun _ => .after fun _ => .pure nofun)
      fun _ => .after fun _ => .after fun _ => .pure nofun

theorem plainStatement_noExport : Yields (plainStatement g) NoExport := by
  refine .after fun c => ?_
  split
  · exact block_noExport g
  · exact .after fun _ => .pure nofun
  · exact named_noExport (anyFunction_noExport g true)
  · exact named_noExport (anyClass_noExport g true)
  · exact branch_noExport g
  · exact forLoop_noExport g
  · exact guarded_noExport g nofun
  · exact guarded_noExport g nofun
  · exact .after fun _ => .after fun _ => .after fun _ => .after fun _ => .after fun _ =>
      .after fun _ => .pure nofun
  · exact .after fun _ => .after fun _ => .after fun _ => .after fun _ => .after fun _ =>
      .after fun _ => .after fun _ => .pure nofun
  · exact attempt_noExport g
  · exact jumpStatement_noExport _ nofun
  · exact .after fun _ => .after fun _ => .after fun _ => .after fun _ => .pure nofun
  · exact jumpStatement_noExport _ nofun
  · exact jumpStatement_noExport _ nofun
  · exact jumpStatement_noExport _ nofun
  · exact .after fun _ => .after fun _ => .ite (fun _ => variableStatement_noExport g) fun _ =>
      .after fun _ => .ite (fun _ => named_noExport (anyFunction_noExport g true)) fun _ =>
        .after fun _ => .ite (fun _ => .after fun _ => .after fun _ => .after fun _ =>
          .after fun _ => .pure nofun) fun _ => expressionStatement_noExport g

theorem decorated_yields : Yields (decorated g) Exports :=
  .after fun start => .bind (decorators_yields g) fun before hbefore => .after fun _ =>
    .ite (fun _ => exportFrom_yields g start.line hbefore) fun _ => .after fun _ =>
      .ite (fun _ => (classFrom_noExport g true start.line before).imp fun _ => NoExport.exports)
        fun _ => .after fun _ => (expressionStatement_noExport g).imp fun _ => NoExport.exports

theorem importStatement_noExport : Yields (importStatement g) NoExport := by
  refine .after fun _ => .after fun _ => .after fun _ => ?_
  split
  · exact .after fun _ => .after fun _ => .pure nofun
  · exact .after fun _ => .after fun _ => .after fun _ => .pure nofun
  · exact .after fun _ => .after fun _ => .after fun _ => .pure nofun
  · refine .after fun _ => .after fun _ => .ite
      (fun _ => .after fun _ => .ite (fun _ => .after fun _ => ?_) fun _ => .after fun _ => ?_)
      fun _ => ?_
    all_goals exact .after fun _ => .after fun _ => .pure nofun

theorem statement_yields : Yields (statement g) Exports :=
  .after fun _ => .ite (fun _ => (importStatement_noExport g).imp fun _ => NoExport.exports)
    fun _ => .after fun _ => .ite (fun _ => .after fun c => exportFrom_yields g c.line nofun)
      fun _ => .after fun _ => .ite (fun _ => decorated_yields g) fun _ =>
        (plainStatement_noExport g).imp fun _ => NoExport.exports

theorem bounded_statement_yields : ∀ depth, Yields (bounded depth .statement) Exports
  | 0 => .fail
  | depth + 1 => statement_yields (bounded depth)

end Grammar

open Production Grammar in
/-- The statements at the top of a source. -/
theorem exports_of_parse? {source : List Char} {tree : Node} (h : parse? source = some tree) :
    ∀ n ∈ tree.children, Exports n := by
  have hprogram : ∀ depth, Yields (program (bounded depth)) fun tree =>
      ∀ n ∈ tree.children, Exports n := fun depth =>
    .bind (.manyWhile (bounded_statement_yields depth)) fun _ hstatements => .after fun _ =>
      .after fun _ => .pure hstatements
  unfold parse? at h
  split at h
  · cases h
  · dsimp only at h
    split at h
    · rename_i tree' c hrun
      split at h
      · cases h
      · cases h
        exact hprogram _ _ _ _ hrun
    · cases h

end CodeSurvey.Ecma
