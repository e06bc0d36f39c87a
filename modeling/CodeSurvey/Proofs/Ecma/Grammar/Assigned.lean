import CodeSurvey.Ecma.Declared
import CodeSurvey.Proofs.Ecma.Grammar.Exported
import CodeSurvey.Proofs.Ecma.Keeping

/-!
How an assignment to a member of `exports` is written. What stands on its left side is read back to
the tokens that it was read from. Main statement: an expression that assigns to such a member begins
with the tokens of the member and a sign of assignment.
-/

namespace CodeSurvey.Ecma

/-! ### Tokens of a member -/

/-- How a token is spelled. -/
def Token.spelling : Token → String
  | sign s | word s | escapedWord s | privateWord s | number s | string s => s
  | stop | invalid => ""

/-- The token stands between a value and the name of a member. -/
def Token.isDot (t : Token) : Bool := t == .sign "." || t == .sign "?."

namespace Cursor

/-- The member that something is assigned to, as the tokens behind the value tell. -/
def memberAssigned? (c : Cursor) : Option String :=
  if c.token.isDot && c.next.next.token == .sign "=" then some c.next.token.spelling else none

/-- The member of `exports` or `module.exports` that something is assigned to, as the tokens
    tell. -/
def exportAssigned? (c : Cursor) : Option String :=
  if c.token.spelling == "exports" then c.next.memberAssigned?
  else if c.token.spelling == "module" && c.next.token.isDot &&
    c.next.next.token.spelling == "exports" then c.next.next.next.memberAssigned?
  else none

end Cursor

theorem spelling_of_exportAssigned? {c : Cursor} {name : String}
    (h : c.exportAssigned? = some name) : c.token.spelling ∈ ["exports", "module"] := by
  unfold Cursor.exportAssigned? at h
  split at h
  · rename_i hexports
    exact List.mem_pair.2 (.inl (eq_of_beq hexports))
  · split at h
    · rename_i hmodule
      obtain ⟨hdot, -⟩ := Bool.and_eq_true_iff.1 hmodule
      exact List.mem_pair.2 (.inr (eq_of_beq (Bool.and_eq_true_iff.1 hdot).1))
    · cases h

/-- How a value is written from one place up to another one: it is a member of something, or its
    text, if it has one, is the token there. -/
inductive Path (c : Cursor) : Node → Cursor → Prop where
  | value {n : Node} {d : Cursor} (member : n.kind ≠ .member) (assignment : n.kind ≠ .assignment)
      (text : n.text = "" ∨ n.text = c.token.spelling ∧ d = c.next) : Path c n d
  | member {o p : Node} {d : Cursor} (line : Nat) (object : Path c o d)
      (dot : d.token.isDot = true) (role : p.role = .property)
      (property : p.text = d.next.token.spelling) :
      Path c ⟨.member, .item, line, "", [o.as .object, p]⟩ d.next.next

variable {c d : Cursor} {n o p : Node} {name : String}

theorem member_of_exportedMember? (h : n.exportedMember? = some name) : n.kind = .member := by
  cases hkind : n.kind == .member with
  | true => exact eq_of_beq hkind
  | false => simp [Node.exportedMember?, hkind] at h

/-- A member of a value is exported if the value is `exports`. -/
theorem exportedMember?_of_value {line : Nat} (hp : p.role = .property) (ho : o.kind ≠ .member)
    (h : (⟨.member, .item, line, "", [o.as .object, p]⟩ : Node).exportedMember? = some name) :
    o.text = "exports" ∧ p.text = name := by
  simp [Node.exportedMember?, Node.child?, Node.as, hp, ho] at h
  exact ⟨h.1.2, h.2⟩

/-- A member of a member is exported if that one is `module.exports`. -/
theorem exportedMember?_of_member {line line' : Nat} {inner innerName : Node}
    (hp : p.role = .property) (hrole : innerName.role = .property)
    (h : (⟨.member, .item, line, "", [(⟨.member, .item, line', "",
      [inner.as .object, innerName]⟩ : Node).as .object, p]⟩ : Node).exportedMember? = some name) :
    inner.text = "module" ∧ innerName.text = "exports" ∧ p.text = name := by
  simp [Node.exportedMember?, Node.child?, Node.as, hp, hrole] at h
  exact ⟨h.1.1, h.1.2, h.2⟩

theorem memberAssigned?_eq (dot : c.token.isDot = true)
    (assign : c.next.next.token = .sign "=") :
    c.memberAssigned? = some c.next.token.spelling := by
  simp [Cursor.memberAssigned?, dot, assign]

/-- A value with a text is the token that it was read from. -/
theorem Path.spelling_eq (h : Path c n d) (hn : n.text ≠ "") :
    c.token.spelling = n.text ∧ d = c.next := by
  cases h with
  | value _ _ text =>
    rcases text with hnone | ⟨htext, hd⟩
    · exact absurd hnone hn
    · exact ⟨htext.symm, hd⟩
  | member => exact absurd rfl hn

/-- A member of `exports` is spelled as its tokens are. -/
theorem Path.exportAssigned? (h : Path c n d) (hn : n.exportedMember? = some name)
    (hd : d.token = .sign "=") : c.exportAssigned? = some name := by
  cases h with
  | value member => exact absurd (member_of_exportedMember? hn) member
  | member line object dot role property =>
    cases hobject : object with
    | value member =>
      obtain ⟨htext, rfl⟩ := exportedMember?_of_value role member hn
      obtain ⟨hspelling, rfl⟩ := object.spelling_eq (by rw [htext]; decide)
      rw [Cursor.exportAssigned?, hspelling, htext, if_pos (beq_self_eq_true _),
        memberAssigned?_eq dot hd, property]
    | member line' inner innerDot innerRole innerProperty =>
      obtain ⟨htext, hinner, rfl⟩ := exportedMember?_of_member role innerRole hn
      obtain ⟨hspelling, rfl⟩ := inner.spelling_eq (by rw [htext]; decide)
      have hmodule : (c.token.spelling == "module" && c.next.token.isDot &&
          c.next.next.token.spelling == "exports") = true := by
        rw [hspelling, htext, innerDot, ← innerProperty, hinner]
        rfl
      have hnot : ¬ (c.token.spelling == "exports") = true := by
        rw [hspelling, htext]
        decide
      rw [Cursor.exportAssigned?, if_neg hnot, if_pos hmodule, memberAssigned?_eq dot hd, property]

/-! ### Values and chains -/

namespace Grammar

open Production

/-- The node is neither a member nor an assignment, and has no text of its own. -/
structure Opaque (n : Node) : Prop where
  member : n.kind ≠ .member
  assignment : n.kind ≠ .assignment
  text : n.text = ""

theorem Opaque.path (h : Opaque n) : Path c n d := .value h.member h.assignment (.inl h.text)

variable {g : Grammar}

theorem opaque_parenthesised : Yields (parenthesised g) Opaque := by
  refine .after fun _ => .after fun _ => .after fun _ => .after fun _ => .ite (fun _ => ?_) fun _ =>
    .after fun _ => .after fun _ => .pure ⟨nofun, nofun, rfl⟩
  split
  · exact .pure ⟨nofun, nofun, rfl⟩
  · exact .pure ⟨nofun, nofun, rfl⟩

theorem opaque_array : Yields (array g) Opaque :=
  .after fun _ => .after fun _ => .after fun _ => .pure ⟨nofun, nofun, rfl⟩

theorem opaque_object : Yields (object g) Opaque :=
  .after fun _ => .after fun _ => .after fun _ => .pure ⟨nofun, nofun, rfl⟩

theorem opaque_template : Yields (template g) Opaque := by
  refine .after fun _ => .after fun _ => .after fun finished => ?_
  split
  · exact .after fun _ => .pure ⟨nofun, nofun, rfl⟩
  · exact .fail

theorem opaque_regularExpression : Yields regularExpression Opaque := by
  refine .after fun _ => ?_
  split
  · exact .after fun _ => .pure ⟨nofun, nofun, rfl⟩
  · exact .fail

theorem opaque_element : Yields (element g) Opaque :=
  .after fun _ => .after fun _ => .after fun _ => .ite
    (fun _ => .after fun _ => .pure ⟨nofun, nofun, rfl⟩)
    fun _ => .after fun _ => .after fun _ => .after fun _ => .ite
      (fun _ => .after fun _ => .pure ⟨nofun, nofun, rfl⟩)
      fun _ => .after fun _ => .pure ⟨nofun, nofun, rfl⟩

theorem opaque_importValue (calls : Bool) : Yields (importValue calls) Opaque :=
  .after fun _ => .after fun _ => .after fun _ => .ite
    (fun _ => .after fun _ => .pure ⟨nofun, nofun, rfl⟩)
    fun _ => .after fun _ => .after fun _ => .pure ⟨nofun, nofun, rfl⟩

theorem opaque_anyFunction (declares : Bool) : Yields (anyFunction g declares) Opaque := by
  refine .after fun _ => .after fun _ => .after fun _ => .after fun _ => .after fun _ => .ite
    (fun _ => .after fun _ => .after fun _ => .pure ?_) fun _ => .after fun _ => .pure ?_
  · cases declares <;> exact ⟨nofun, nofun, rfl⟩
  · exact ⟨nofun, nofun, rfl⟩

theorem opaque_anyClass (declares : Bool) : Yields (anyClass g declares) Opaque := by
  have hclass : ∀ {named : List Node} {line children}, Opaque
      ⟨if declares && !named.isEmpty then .classDeclaration else .classExpression, .item, line, "",
        children⟩ := by
    intro named line children
    cases declares <;> cases named <;> exact ⟨nofun, nofun, rfl⟩
  refine .after fun _ => .after fun _ => .after fun _ => .after fun _ => .ite
    (fun _ => .after fun _ => .after fun _ => .after fun _ => .ite
      (fun _ => .after fun _ => .after fun _ => ?_) fun _ => .after fun _ => ?_)
    fun _ => .after fun _ => .after fun _ => .ite
      (fun _ => .after fun _ => .after fun _ => ?_) fun _ => .after fun _ => ?_
  all_goals exact .after fun _ => .after fun _ => .after fun _ => .after fun _ => .pure hclass

theorem path_valueName : From c valueName (Path c) := by
  have hname : ∀ s, nameOf? c.token = some s → s = c.token.spelling := by
    intro s hs
    cases htoken : c.token <;> rw [htoken] at hs <;> simp_all [nameOf?, Token.spelling]
  refine .bind (Q := fun n d => n.kind = .identifier ∧ n.text = c.token.spelling ∧ d = c.next)
    (.get ?_) ?_
  · split
    · rename_i s hs
      exact .advance (.pure ⟨rfl, hname s hs, rfl⟩)
    · exact .fail
  · rintro n d ⟨hkind, htext, rfl⟩
    refine .pure ?_
    split
    · exact .value nofun nofun (.inr ⟨htext, rfl⟩)
    · exact .value (by rw [hkind]; exact nofun) (by rw [hkind]; exact nofun) (.inr ⟨htext, rfl⟩)

theorem stays_atWord {w : String} : From c (atWord w) fun _ d => d = c := .token (.pure rfl)

theorem stays_require {b : Bool} : From c (require b) fun _ d => d = c :=
  .ite (fun _ => .pure rfl) fun _ => .fail

theorem stays_atArrow : From c atArrow fun _ d => d = c := .get (.pure rfl)

theorem stays_atAsyncFunction : From c atAsyncFunction fun _ d => d = c :=
  .look stays_atWord fun _ => .ite (fun _ => .peek (.pure rfl)) fun _ => .pure rfl

theorem path_value {calls : Bool} (helement : Yields (g .element) Opaque) :
    From c (value g calls) (Path c) := by
  have hmarkup : Yields (elementValue g) Opaque :=
    .bind helement fun _ h => .after fun _ => .pure h
  refine .get ?_
  split
  · exact fun _ _ h => (opaque_parenthesised _ _ _ h).path
  · exact fun _ _ h => (opaque_array _ _ _ h).path
  · exact fun _ _ h => (opaque_object _ _ _ h).path
  · exact fun _ _ h => (opaque_template _ _ _ h).path
  · exact fun _ _ h => (opaque_regularExpression _ _ _ h).path
  · exact fun _ _ h => (opaque_regularExpression _ _ _ h).path
  · exact fun _ _ h => (hmarkup _ _ _ h).path
  · exact fun _ _ h => (opaque_anyClass _ _ _ _ h).path
  · rename_i s hs
    exact .advance (.pure (.value nofun nofun (.inr ⟨by rw [hs]; rfl, rfl⟩)))
  · refine .get ?_
    split
    · rename_i s hs
      exact .advance (.pure (.value nofun nofun (.inr ⟨by rw [hs]; rfl, rfl⟩)))
    · exact .fail
  · exact fun _ _ h => (opaque_anyFunction _ _ _ _ h).path
  · exact fun _ _ h => (opaque_anyClass _ _ _ _ h).path
  · exact fun _ _ h => (opaque_importValue _ _ _ _ h).path
  · rename_i s _ _ _ hs
    exact .ite (fun _ => .advance (.pure (.value nofun nofun (.inr ⟨by rw [hs]; rfl, rfl⟩))))
      fun _ => .look stays_atAsyncFunction fun _ => .ite
        (fun _ _ _ h => (opaque_anyFunction _ _ _ _ h).path) fun _ => path_valueName
  · exact path_valueName

/-- One more link of a chain. -/
theorem path_chainStep {calls : Bool} (h : Path c n d) :
    From d (chainStep g calls n) fun r e => Path c (r.getD n) e := by
  have hlink : ∀ {kind children e}, kind ≠ .member → kind ≠ .assignment →
      Path c ⟨kind, .item, n.line, "", children⟩ e :=
    fun hmember hassignment => .value hmember hassignment (.inl rfl)
  have hname : ∀ {e : Cursor}, e.token.isDot = true → Path c n e →
      From e.next (memberName >>= fun m => pure (some
        (⟨.member, .item, n.line, "", [n.as .object, m]⟩ : Node)))
        fun r e => Path c (r.getD n) e := by
    intro e hdot hn
    refine .bind (Q := fun m e' => m.role = .property ∧ m.text = e.next.token.spelling ∧
      e' = e.next.next) (.get ?_) ?_
    · split
      · rename_i s hs
        exact .advance (.pure ⟨rfl, by rw [hs]; rfl, rfl⟩)
      · rename_i s hs
        exact .advance (.pure ⟨rfl, by rw [hs]; rfl, rfl⟩)
      · rename_i s hs
        exact .advance (.pure ⟨rfl, by rw [hs]; rfl, rfl⟩)
      · exact .fail
    · rintro m e' ⟨hrole, htext, rfl⟩
      exact .pure (.member n.line hn hdot hrole htext)
  refine .token ?_
  split
  · rename_i hs
    exact .advance (hname (by rw [hs]; rfl) h)
  · exact .after fun _ _ => .after fun _ _ => .after fun _ _ => .pure (hlink nofun nofun)
  · exact .after fun _ _ => .pure (hlink nofun nofun)
  · exact .ite (fun _ => .after fun _ _ => .pure (hlink nofun nofun)) fun _ => .pure h
  · rename_i hs
    refine .ite (fun _ => .advance (.token ?_)) fun _ => .pure h
    split
    · exact .after fun _ _ => .pure (hlink nofun nofun)
    · exact .after fun _ _ => .after fun _ _ => .after fun _ _ => .pure (hlink nofun nofun)
    · exact .after fun _ _ => .pure (hlink nofun nofun)
    · exact hname (by rw [hs]; rfl) h
  · exact .pure h

theorem path_newInstance : From c (newInstance g) (Path c) :=
  .get (.after fun _ _ => .after fun _ _ => .ite
    (fun _ => .after fun _ _ => .pure (.value nofun nofun (.inl rfl)))
    fun _ => .after fun _ _ => .after fun _ _ => .ite
      (fun _ => .after fun _ _ => .after fun _ _ => .pure (.value nofun nofun (.inl rfl)))
      fun _ => .after fun _ _ => .pure (.value nofun nofun (.inl rfl)))

variable (helement : Yields (g .element) Opaque)
include helement

theorem path_chain {calls : Bool} : From c (chain g calls) (Path c) := by
  refine .look stays_atWord fun _ => .ite
    (fun _ => path_newInstance.bind fun n d h => ?_)
    fun _ => (path_value helement).bind fun n d h => ?_
  all_goals exact .iterate h fun a d h => path_chainStep h

/-! ### Operands and operations -/

omit helement in
theorem stays_atAwaitName : From c atAwaitName fun _ d => d = c := by
  refine .get (.advance (.get (.look stays_atWord fun _ => .look stays_atWord fun _ =>
    .look stays_atAsyncFunction fun _ => .set (.pure rfl))))

theorem path_updated : From c (updated g) (Path c) :=
  .get ((path_chain helement).bind fun _ _ h => .get (.ite
    (fun _ => .after fun _ _ => .pure (.value nofun nofun (.inl rfl))) fun _ => .pure h))

omit helement in
theorem path_marked (kind : Kind) (hmember : kind ≠ .member) (hassignment : kind ≠ .assignment) :
    From c (marked g kind) (Path c) :=
  .get (.after fun _ _ => .after fun _ _ => .pure (.value hmember hassignment (.inl rfl)))

theorem path_awaiting : From c (awaiting g) (Path c) := by
  refine .peek (.ite (fun _ => .orElse ?_ (path_updated helement))
    fun _ => path_marked .awaiting nofun nofun)
  exact (path_marked .awaiting nofun nofun).bind fun n d h =>
    .get (.look stays_require fun _ => .pure h)

theorem path_operand : From c (operand g) (Path c) := by
  have hawaiting : From c (marked g .awaiting) (Path c) := path_marked .awaiting nofun nofun
  refine .get (.ite (fun _ => path_marked .unary nofun nofun) fun _ => ?_)
  split
  · exact path_marked .update nofun nofun
  · exact path_marked .update nofun nofun
  · refine .look stays_atAwaitName fun _ => .ite (fun _ => path_updated helement) fun _ => .peek ?_
    exact .ite (fun _ => .orElse (path_updated helement) hawaiting) fun _ => path_awaiting helement
  · rename_i s hs
    refine .advance (.look stays_atWord fun _ => .look stays_require fun _ => .pure ?_)
    exact .value nofun nofun (.inr ⟨by rw [hs]; rfl, rfl⟩)
  · exact path_updated helement

theorem path_operation {level : Nat} {allowIn : Bool} :
    From c (operation g level allowIn) (Path c) := by
  refine (path_operand helement).bind fun n d h => .iterate h fun left e h => .token ?_
  split
  · exact .pure h
  · exact .ite (fun _ => .pure h) fun _ => .after fun _ _ => .after fun _ _ =>
      .pure (.value nofun nofun (.inl rfl))

theorem path_conditional {allowIn : Bool} : From c (conditional g allowIn) (Path c) :=
  (path_operation helement).bind fun _ _ h => .skipSign
    (fun _ => .after fun _ _ => .after fun _ _ => .after fun _ _ =>
      .pure (.value nofun nofun (.inl rfl)))
    (.pure h)

/-! ### Assignments -/

/-- If the expression assigns to a member of `exports`, the tokens from the place on do. -/
def Assigns (c : Cursor) (e : Node) : Prop :=
  e.kind = .assignment → ∀ left ∈ e.child? .left, ∀ name ∈ left.exportedMember?,
    c.exportAssigned? = some name

section Assigns

omit helement

theorem assigns_of_path (h : Path c n d) : Assigns c n := by
  intro hkind
  cases h with
  | value _ assignment => exact absurd hkind assignment
  | member => cases hkind

/-- A member stays as it is when it is assigned to. -/
theorem eq_of_asTarget? (h : n.asTarget? = some p) (hp : p.kind = .member) : p = n := by
  obtain ⟨kind, role, line, text, children⟩ := n
  rw [Node.asTarget?] at h
  split at h
  · exact (Option.some.inj h).symm
  case h_6 | h_7 =>
    rename_i hkind
    obtain rfl : kind = _ := hkind
    rw [Node.asPattern?] at h
    obtain ⟨cs, -, rfl⟩ := Option.map_eq_some_iff.1 h
    cases hp
  case h_8 => cases h
  all_goals
    rename_i hkind
    obtain rfl : kind = _ := hkind
    rw [Node.asPattern?] at h
    exact (Option.some.inj h).symm

theorem isArrow_arrow {allowIn async : Bool} {line : Nat} {params : Node} :
    Yields (arrow g allowIn async line params) fun n => n.kind = .arrowFunction async :=
  .after fun _ => .after fun _ => .after fun _ => .after fun _ => .ite
    (fun _ => .after fun _ => .pure rfl) fun _ => .after fun _ => .pure rfl

theorem assigns_listArrow {allowIn async : Bool} {line : Nat} {list : Node} :
    From d (listArrow g allowIn async line list) fun e _ => Assigns c e := by
  unfold listArrow
  split
  · intro e _ hrun hkind
    rw [isArrow_arrow _ _ _ hrun] at hkind
    cases hkind
  · exact .fail

theorem assigns_nameArrow {allowIn async : Bool} {line : Nat} :
    From d (nameArrow g allowIn async line) fun e _ => Assigns c e := by
  refine .after fun n d' e _ hrun hkind => ?_
  rw [isArrow_arrow _ _ _ hrun] at hkind
  cases hkind

end Assigns

theorem assigns_assignmentFrom {allowIn : Bool} :
    From c (assignmentFrom g allowIn) fun e _ => Assigns c e := by
  refine .get ((path_conditional helement).bind fun left d h => .look stays_atArrow fun _ => .ite
    (fun _ => ?_) fun _ => .token ?_)
  · split <;> exact assigns_listArrow
  · split
    · rename_i hassign
      split
      · rename_i place hplace
        refine .advance (.after fun right _ => .pure fun _ l hl name hname => ?_)
        obtain rfl : place.as .left = l := Option.some.inj hl
        have hmember : (place.as .left).kind = .member := member_of_exportedMember? hname
        obtain rfl := eq_of_asTarget? hplace hmember
        exact h.exportAssigned? hname hassign
      · exact .fail
    · refine .ite (fun _ => .after fun _ _ => .after fun _ _ => .after fun _ _ => .pure nofun)
        fun _ => .pure (assigns_of_path h)
    · exact .pure (assigns_of_path h)

theorem assigns_assignment {allowIn : Bool} :
    From c (assignment g allowIn) fun e _ => Assigns c e := by
  have hyielding : From c (yielding g allowIn) fun e _ => Assigns c e := by
    refine .get (.after fun _ _ => .get (.ite (fun _ => .pure nofun) fun _ => .after fun _ _ =>
      .ite (fun _ => .after fun _ _ => .pure nofun) fun _ => .after fun _ _ => .set ?_))
    exact assigns_assignmentFrom helement
  refine .get (.ite (fun _ => hyielding) fun _ => .ite (fun _ => .peek ?_)
    fun _ => assigns_assignmentFrom helement)
  exact .ite (fun _ => assigns_nameArrow) fun _ => .ite
    (fun _ => .after fun _ _ => assigns_nameArrow) fun _ => assigns_assignmentFrom helement

omit helement in
theorem opaque_bounded (depth : Nat) : Yields (bounded depth .element) Opaque := by
  cases depth with
  | zero => exact .fail
  | succ depth => exact opaque_element

omit helement in
/-- An expression that assigns to a member of `exports` begins with the tokens of the member and a
    sign of assignment. -/
theorem assigns_bounded (depth : Nat) :
    From c (bounded depth .expression) fun e _ => Assigns c e := by
  have hassignment : ∀ depth c,
      From c (bounded depth (.assignment true)) fun e _ => Assigns c e := by
    intro depth c
    cases depth with
    | zero => exact .fail
    | succ depth => exact assigns_assignment (opaque_bounded depth)
  cases depth with
  | zero => exact .fail
  | succ depth =>
    refine .get ((hassignment depth c).bind fun first d h => .after fun more _ => .ite
      (fun _ => .pure h) fun _ => .pure nofun)

end Grammar

end CodeSurvey.Ecma
