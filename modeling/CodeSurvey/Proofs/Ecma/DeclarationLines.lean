import CodeSurvey.Proofs.Ecma.Written

/-!
Sources of declarations that stand by themselves, one on a line. Main statement: the grammar accepts
such a source and makes one node of each line.
-/

namespace CodeSurvey.Ecma

open Grammar Production

variable {c : Char} {s sp rest : List Char} {ps : List (List Char)} {line : Nat}

/-- What ends a line in front of others; the last line is ended if `closed`. -/
def lineEnd (closed : Bool) : List DeclarationLine → List Char
  | [] => if closed then ['\n'] else []
  | _ => ['\n']

theorem lineEnd_cases (closed : Bool) (ls : List DeclarationLine) :
    lineEnd closed ls = ['\n'] ∨ lineEnd closed ls = [] ∧ ls = [] := by
  cases ls with
  | nil => cases closed <;> simp [lineEnd]
  | cons => exact .inl rfl

/-- Declarations, one on a line; the last line is ended if `closed`. -/
def sourceText (closed : Bool) : List DeclarationLine → List Char
  | [] => []
  | l :: ls => l.text ++ (lineEnd closed ls ++ sourceText closed ls)

/-- The nodes of declarations on lines that follow each other. -/
def lineNodes (line : Nat) : List DeclarationLine → List Node
  | [] => []
  | l :: ls => l.node line :: lineNodes (line + 1) ls

variable {closed : Bool} {ls : List DeclarationLine}

theorem Grammar.DeclarationLine.startsToken_text (l : DeclarationLine) :
    StartsToken (l.text ++ rest) := by
  obtain ⟨_ | _, b⟩ := l
  · exact b.startsToken_text
  · simp only [text, List.append_assoc]
    exact (spellsName_of_nameChars (w := "export") (by decide)).startsToken

theorem startsToken_sourceText (ls : List DeclarationLine) :
    StartsToken (sourceText closed ls) := by
  cases ls with
  | nil => nofun
  | cons l ls => exact l.startsToken_text

theorem endsLine_lineEnd (closed : Bool) (ls : List DeclarationLine) :
    EndsLine (lineEnd closed ls) (sourceText closed ls) := by
  cases ls with
  | nil => exact ⟨by cases closed <;> decide, nofun⟩
  | cons l ls =>
    have hnewline : ∀ c ∈ ['\n'], isSpace c = true := by decide
    exact ⟨hnewline, l.startsToken_text⟩

theorem Grammar.Declaration.text_ne_nil (b : Declaration) : b.text ≠ [] := by
  cases b <;> simp [text]

theorem Grammar.DeclarationLine.length_text_pos (l : DeclarationLine) : 0 < l.text.length := by
  have hpos := List.length_pos_iff.2 l.declaration.text_ne_nil
  rw [text, List.length_append]
  omega

theorem Grammar.DeclarationLine.exists_tokens (l : DeclarationLine) :
    ∃ w ts, l.tokens = .word w :: ts := by
  obtain ⟨_ | _, b⟩ := l
  · obtain ⟨w, -, ts, hts⟩ := b.exists_tokens
    exact ⟨w, ts, hts⟩
  · exact ⟨_, _, rfl⟩

/-- Every line is a statement. -/
theorem many_statements (closed : Bool) (depth : Nat)
    (hls : ∀ l ∈ ls, l.declaration.Written) (line : Nat) (fresh : Bool) :
    ∃ c', Many (do return (← token) != .stop) (bounded (depth + 3) .statement)
      (.at (sourceText closed ls) line fresh) (lineNodes line ls) c' ∧ c'.token = .stop := by
  induction ls generalizing line fresh with
  | nil => exact ⟨_, .stop rfl, rfl⟩
  | cons l ls ih =>
    have hl := hls l List.mem_cons_self
    have hahead := DeclarationLine.ahead hl line fresh (endsLine_lineEnd closed ls)
    have hmore : (Cursor.at (sourceText closed (l :: ls)) line fresh).token ≠ .stop := by
      obtain ⟨w, ts, hts⟩ := l.exists_tokens
      rw [hts] at hahead
      rw [sourceText, hahead.cons_inv.1]
      nofun
    rw [← List.append_nil l.tokens] at hahead
    obtain ⟨d, hrun, hd, -⟩ := takes_statement depth hl.toNamed hahead
    obtain rfl := hd.nil_inv
    obtain ⟨c', hmany, hstop⟩ := ih (fun l hmem => hls l (List.mem_cons_of_mem _ hmem))
      (line + Text.lineFeeds (lineEnd closed ls)) ((lineEnd closed ls).any isLineEnd)
    have hnodes : lineNodes (line + Text.lineFeeds (lineEnd closed ls)) ls =
        lineNodes (line + 1) ls := by
      cases ls <;> rfl
    rw [hnodes] at hmany
    have hyes : (do return (← token) != .stop : Production Bool)
        (.at (sourceText closed (l :: ls)) line fresh) =
          some (true, .at (sourceText closed (l :: ls)) line fresh) := by
      simp [hmore]
    exact ⟨c', .item hyes hrun hmany, hstop⟩

theorem length_lineNodes_le (line : Nat) (ls : List DeclarationLine) :
    (lineNodes line ls).length ≤ (sourceText closed ls).length := by
  induction ls generalizing line with
  | nil => exact Nat.le_refl _
  | cons l ls ih =>
    have hpos := l.length_text_pos
    have hmore := ih (line + 1)
    simp only [lineNodes, sourceText, List.length_cons, List.length_append]
    omega

/-- The tree of declarations on lines. -/
def programNode (ls : List DeclarationLine) : Node :=
  { kind := .program, line := 1, children := lineNodes 1 ls }

theorem program_apply (closed : Bool) (depth : Nat) (hls : ∀ l ∈ ls, l.declaration.Written) :
    ∃ c', program (bounded (depth + 3)) (.at (sourceText closed ls) 1 false) =
      some (programNode ls, c') := by
  obtain ⟨c', hmany, hstop⟩ := many_statements closed depth hls 1 false
  have hrun := manyWhile_apply hmany (length_lineNodes_le 1 ls)
  refine ⟨c', ?_⟩
  rw [program, bind_apply, hrun, Option.bind_some]
  simp [hstop, programNode]

/-- The signatures of declarations on lines that follow each other. -/
def lineSignatures (label : List Char → String) (line : Nat) :
    List DeclarationLine → List Signature
  | [] => []
  | l :: ls => l.declaration.signature label line :: lineSignatures label (line + 1) ls

theorem ofForest_lineNodes (line : Nat) (ls : List DeclarationLine) :
    Signature.ofForest (lineNodes line ls) = lineSignatures treeLabel line ls := by
  induction ls generalizing line with
  | nil => rfl
  | cons l ls ih =>
    rw [lineNodes, Signature.ofForest, l.ofTree_node, ih]
    rfl

/-! ### Characters of a line -/

/-- A character that may stand on a line with a declaration. -/
def isLineChar (c : Char) : Bool :=
  isNameLetter c || isSpace c && !isLineEnd c || Pattern.among "(),=>;*" c

theorem isLineChar_of_spelled (h : SpellsName s) : ∀ c ∈ s, isLineChar c = true :=
  fun c hc => by rw [isLineChar, h.isNameLetter c hc]; rfl

theorem isLineChar_listText (hps : ∀ p ∈ ps, SpellsName p) :
    ∀ c ∈ listText ps, isLineChar c = true := by
  intro c hc
  rcases Text.mem_join hc with hsep | ⟨p, hp, hmem⟩
  · exact (by decide : ∀ c ∈ [',', ' '], isLineChar c = true) c hsep
  · exact isLineChar_of_spelled (hps p hp) c hmem

theorem isLineChar_wordText {w : String} (hw : ∀ c ∈ w.toList, isLineChar c = true)
    (there : Bool) : ∀ c ∈ wordText w there, isLineChar c = true := by
  cases there with
  | true => exact List.forall_mem_append.2 ⟨hw, by decide⟩
  | false => nofun

theorem Grammar.DeclarationLine.isLineChar_text {l : DeclarationLine} (hl : l.declaration.Written) :
    ∀ c ∈ l.text, isLineChar c = true := by
  obtain ⟨exported, b⟩ := l
  obtain ⟨-, hname, hparams, hspaces⟩ := hl
  refine List.forall_mem_append.2 ⟨isLineChar_wordText (by decide) exported, ?_⟩
  cases b with
  | function async star name params =>
    have hgap : ∀ c ∈ gapText star, isLineChar c = true := by
      cases star with
      | none => decide
      | some around =>
        obtain ⟨before, after⟩ := around
        have hspace : ∀ c, isSpace c = true ∧ isLineEnd c = false → isLineChar c = true :=
          fun c hc => by simp [isLineChar, hc.1, hc.2]
        obtain ⟨hbefore, hafter⟩ := List.forall_mem_append.1 hspaces
        exact List.forall_mem_append.2 ⟨fun c hc => hspace c (hbefore c hc),
          List.forall_mem_cons.2 ⟨by decide, fun c hc => hspace c (hafter c hc)⟩⟩
    simp only [Declaration.text, List.forall_mem_append, List.forall_mem_cons]
    exact ⟨⟨⟨⟨⟨isLineChar_wordText (by decide) async, by decide⟩, hgap⟩,
      isLineChar_of_spelled hname⟩, by decide, isLineChar_listText hparams⟩, by decide⟩
  | classDef name =>
    simp only [Declaration.text, List.forall_mem_append, List.forall_mem_cons]
    exact ⟨⟨by decide, by decide, isLineChar_of_spelled hname⟩, by decide⟩
  | arrow binder name async params =>
    have hbinder : ∀ c ∈ binder.text.toList, isLineChar c = true := by cases binder <;> decide
    simp only [Declaration.text, List.forall_mem_append, List.forall_mem_cons]
    exact ⟨⟨⟨⟨⟨hbinder, by decide, isLineChar_of_spelled hname⟩, by decide⟩,
      isLineChar_wordText (by decide) async⟩, by decide, isLineChar_listText hparams⟩, by decide⟩

theorem isLineChar_sourceText (closed : Bool) (hls : ∀ l ∈ ls, l.declaration.Written) :
    ∀ c ∈ sourceText closed ls, isLineChar c = true ∨ c = '\n' := by
  induction ls with
  | nil => nofun
  | cons l ls ih =>
    have hend : ∀ c ∈ lineEnd closed ls, c = '\n' := by
      cases ls <;> cases closed <;> simp [lineEnd]
    refine List.forall_mem_append.2 ⟨fun c hc => .inl ?_, List.forall_mem_append.2
      ⟨fun c hc => .inr (hend c hc), ih fun l hmem => hls l (List.mem_cons_of_mem _ hmem)⟩⟩
    exact DeclarationLine.isLineChar_text (hls l List.mem_cons_self) c hc

/-! ### The tree of a source -/

theorem holdShorthandDefault_valueNodes (ps : List (List Char)) :
    holdShorthandDefault (valueNodes line ps) = false := by
  induction ps with
  | nil => rfl
  | cons p ps ih =>
    have hp : (valueNode line (String.ofList p)).holdsShorthandDefault = false := by
      by_cases h : String.ofList p = "undefined" <;>
        simp [valueNode, h, Node.holdsShorthandDefault, holdShorthandDefault]
    show holdShorthandDefault (_ :: valueNodes line ps) = false
    rw [holdShorthandDefault, hp, ih]
    rfl

theorem Grammar.DeclarationLine.holdsShorthandDefault_node (l : DeclarationLine) (line : Nat) :
    (l.node line).holdsShorthandDefault = false := by
  have hparams : ∀ ps, (parametersNode line ps).holdsShorthandDefault = false :=
    holdShorthandDefault_valueNodes
  have hplain : ∀ (b : Declaration) (role : Role),
      ((b.node line).as role).holdsShorthandDefault = false := by
    intro b role
    rcases b with _ | _ | ⟨_ | _ | _, _, _, _⟩ <;>
      simp [Declaration.node, functionNode, classNode, variableNode, Binder.kind, restNodes,
        arrowNode, Node.as, Node.holdsShorthandDefault, holdShorthandDefault, hparams]
  obtain ⟨exported, b⟩ := l
  cases exported with
  | true =>
    show holdShorthandDefault [(b.node line).as .declaration] = false
    rw [holdShorthandDefault, hplain]
    rfl
  | false =>
    show (b.node line).holdsShorthandDefault = false
    rw [← b.node_as_item, hplain]

theorem holdsShorthandDefault_programNode (ls : List DeclarationLine) :
    (programNode ls).holdsShorthandDefault = false := by
  have hnodes : ∀ line, holdShorthandDefault (lineNodes line ls) = false := by
    induction ls with
    | nil => exact fun _ => rfl
    | cons l ls ih =>
      intro line
      rw [lineNodes, holdShorthandDefault, l.holdsShorthandDefault_node, ih]
      rfl
  exact hnodes 1

/-- The grammar accepts declarations on lines and makes one node of each. -/
theorem parse?_sourceText (hls : ∀ l ∈ ls, l.declaration.Written) :
    parse? (sourceText closed ls) = some (programNode ls) := by
  have hchars := isLineChar_sourceText closed hls
  have hnul : (sourceText closed ls).any (·.toNat == 0) = false := by
    refine List.any_eq_false.2 fun c hc hzero => ?_
    obtain rfl : c = Char.ofNat 0 := by rw [← eq_of_beq hzero, Char.ofNat_toNat]
    exact absurd (hchars _ hc) (by decide)
  have hseek : Cursor.seek (dropInterpreterLine (sourceText closed ls)) 1 true =
      .at (sourceText closed ls) 1 false := by
    have hinterpreter : dropInterpreterLine (sourceText closed ls) = sourceText closed ls := by
      refine if_neg fun hprefix => ?_
      obtain ⟨more, hmore⟩ := List.isPrefixOf_iff_prefix.1 hprefix
      have hmem : '#' ∈ sourceText closed ls := hmore ▸ List.mem_cons_self
      exact absurd (hchars _ hmem) (by decide)
    rw [hinterpreter]
    have hspaces : ∀ c ∈ ([] : List Char), isSpace c = true := nofun
    exact seek_spaces 1 true hspaces (startsToken_sourceText ls)
  have hdepth : 8 * (sourceText closed ls).length + 8 =
    (8 * (sourceText closed ls).length + 5) + 3 := rfl
  obtain ⟨c', hrun⟩ := program_apply closed (8 * (sourceText closed ls).length + 5) hls
  rw [parse?, hnul, hseek, hdepth]
  simp only [hrun, holdsShorthandDefault_programNode]
  rfl

end CodeSurvey.Ecma
