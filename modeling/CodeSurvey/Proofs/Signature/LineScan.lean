import CodeSurvey.Proofs.Signature.LinePatterns
import CodeSurvey.Signature.Report

/-!
The scan by lines against the walk of the tree, on sources of declarations that stand by themselves.
Main statement: both find the same signatures if and only if every declaration is plain.
-/

namespace CodeSurvey.Signature.LineScan

open Ecma Ecma.Grammar Pattern

variable {b : Declaration} {c : Char} {name t u : List Char} {ps : List (List Char)}

/-! ### A line -/

/-- The names and the spaces that a declaration is written with, as the scan needs them. -/
structure Scannable (b : Declaration) : Prop where
  written : b.Written
  noBlank : ∀ c ∈ b.name, Text.isBlank c = false
  noBlankParams : ∀ p ∈ b.params, ∀ c ∈ p, Text.isBlank c = false

theorem writtenParams_listText (hps : ∀ p ∈ ps, SpellsName p)
    (hblank : ∀ p ∈ ps, ∀ c ∈ p, Text.isBlank c = false) :
    writtenParams (listText ps) = ps.map String.ofList := by
  have hne : ∀ p ∈ ps, p ≠ [] := fun p hp => by
    obtain ⟨c, more, rfl, -⟩ := (hps p hp).exists_cons
    exact List.cons_ne_nil c more
  have hpieces : ∀ p ∈ ps, ',' ∉ p ∧ Text.trim p = p := fun p hp =>
    ⟨fun hmem => absurd ((hps p hp).isNameLetter _ hmem) (by decide),
      Text.trim_eq_self_iff.2 ⟨fun c hc => hblank p hp c (List.mem_of_head? hc),
        fun c hc => hblank p hp c (List.mem_of_getLast? hc)⟩⟩
  cases ps with
  | nil => rfl
  | cons p ps =>
    rw [writtenParams, paramsWith, listText, Text.map_trim_pieces (List.cons_ne_nil p ps) hpieces,
      List.filter_eq_self.2]
    intro q hq
    simpa using hne q hq

variable {exported async : Bool} {around : Option (List Char × List Char)} {line : Nat}

theorem text_function : DeclarationLine.text ⟨exported, .function async around name ps⟩ =
    wordText "export" exported ++ (wordText "async" async ++ ("function".toList ++
      (gapText around ++ (name ++ '(' :: (listText ps ++ ')' :: [' ', '\x7b', '\x7d']))))) := by
  simp only [DeclarationLine.text, Declaration.text, List.append_assoc, List.cons_append]

theorem notMem_listText (hc : isNameLetter c = false) (hsep : c ∉ [',', ' '])
    (hps : ∀ p ∈ ps, SpellsName p) : c ∉ listText ps := by
  intro hmem
  rcases Text.mem_join hmem with hmem | ⟨p, hp, hmem⟩
  · exact hsep hmem
  · rw [(hps p hp).isNameLetter c hmem] at hc
    cases hc

theorem notMem_name (hc : isNameLetter c = false) (hname : SpellsName name) : c ∉ name := by
  intro hmem
  rw [hname.isNameLetter c hmem] at hc
  cases hc

theorem notMem_gapText (hc : isSpace c = false) (hstar : c ≠ '*')
    (hspaces : ∀ d ∈ (Declaration.function async around name ps).spaces,
      isSpace d = true ∧ isLineEnd d = false) : c ∉ gapText around := by
  cases around with
  | none =>
    rintro hmem
    obtain rfl := List.mem_singleton.1 hmem
    exact absurd hc (by decide)
  | some pair =>
    obtain ⟨before, after⟩ := pair
    obtain ⟨hbefore, hafter⟩ := List.forall_mem_append.1 hspaces
    have hnot : ∀ {s : List Char}, (∀ d ∈ s, isSpace d = true ∧ isLineEnd d = false) → c ∉ s :=
      fun hs hmem => by
        rw [(hs c hmem).1] at hc
        cases hc
    rw [gapText, List.mem_append, List.mem_cons, not_or, not_or]
    exact ⟨hnot hbefore, hstar, hnot hafter⟩

theorem group_captures {m : Match} {params t u : List Char}
    (h : m.captures = captures name params t u) : m.group 1 = name ∧ m.group 2 = params :=
  ⟨m.group_of_find? (by rw [h]; rfl), m.group_of_find? (by rw [h]; rfl)⟩

theorem occursIn_asyncFunction_text (hb : Scannable (.function async around name ps)) :
    asyncFunction.occursIn (DeclarationLine.text ⟨exported, .function async around name ps⟩) =
      async := by
  rw [text_function]
  cases async with
  | true => exact occursIn_asyncFunction
  | false =>
    exact not_occursIn_asyncFunction (notMem_gapText (by decide) (by decide) hb.written.spaced)
      hb.noBlank hb.noBlankParams (by decide)

theorem occursIn_starredFunction_text (hb : Scannable (.function async around name ps))
    (hstar : StarFits around) :
    starredFunction.occursIn (DeclarationLine.text ⟨exported, .function async around name ps⟩) =
      around.isSome := by
  rw [text_function]
  cases around with
  | some pair =>
    obtain ⟨before, after⟩ := pair
    rw [gapText, List.append_assoc before, ← List.append_assoc (wordText "export" exported)]
    exact occursIn_starredFunction hstar.1
  | none =>
    refine not_occursIn_starredFunction ?_
    simp only [List.mem_append, List.mem_cons, not_or]
    exact ⟨by cases exported <;> decide, by cases async <;> decide, by decide, by decide,
      notMem_name (by decide) hb.written.spelled, by decide,
      notMem_listText (by decide) (by decide) hb.written.spelledParams, by decide, by decide,
      by decide, by decide, by decide⟩

theorem ofLine?_function (hb : Scannable (.function async around name ps))
    (hname : Import.IsWord name) (hstar : StarFits around) :
    ofLine? line (DeclarationLine.text ⟨exported, .function async around name ps⟩) =
      some ((Declaration.function async around name ps).signature String.ofList line) := by
  have hparams : ')' ∉ listText ps :=
    notMem_listText (by decide) (by decide) hb.written.spelledParams
  have hlist : writtenParams (listText ps) = ps.map String.ofList :=
    writtenParams_listText hb.written.spelledParams hb.noBlankParams
  have hleads := leads_functionLine (t := [' ', '\x7b', '\x7d']) exported async hname hparams hstar
  obtain ⟨m, hmatch, hcaptures⟩ := hleads.matchStart?
  rw [← text_function] at hmatch
  obtain ⟨hone, htwo⟩ := group_captures hcaptures
  rw [ofLine?, hmatch]
  simp only [hone, htwo, occursIn_asyncFunction_text hb, occursIn_starredFunction_text hb hstar,
    hlist]
  rfl

theorem text_arrow {binder : Binder} :
    DeclarationLine.text ⟨exported, .arrow binder name async ps⟩ =
      wordText "export" exported ++ (binder.text.toList ++ ' ' :: (name ++ ' ' :: '=' :: ' ' ::
        (wordText "async" async ++ '(' :: (listText ps ++
          ')' :: ' ' :: '=' :: '>' :: [' ', '0', ';'])))) := by
  simp only [DeclarationLine.text, Declaration.text, List.append_assoc, List.cons_append,
    List.nil_append]

theorem occursIn_asyncValue_text {binder : Binder} (hb : Scannable (.arrow binder name async ps)) :
    asyncValue.occursIn (DeclarationLine.text ⟨exported, .arrow binder name async ps⟩) = async := by
  rw [text_arrow]
  have hfront : ∀ t, wordText "export" exported ++ (binder.text.toList ++ ' ' :: (name ++
      ' ' :: '=' :: ' ' :: t)) =
      (wordText "export" exported ++ (binder.text.toList ++ ' ' :: (name ++ [' ']))) ++
        '=' :: ' ' :: t := fun t => by
    simp only [List.append_assoc, List.cons_append, List.nil_append]
  rw [hfront]
  cases async with
  | true => exact occursIn_asyncValue _ _
  | false =>
    have hlist : '=' ∉ listText ps ++ [')', ' '] := by
      rw [List.mem_append, not_or]
      exact ⟨notMem_listText (by decide) (by decide) hb.written.spelledParams, by decide⟩
    have hbefore : '=' ∉ wordText "export" exported ++ (binder.text.toList ++
        ' ' :: (name ++ [' '])) := by
      simp only [List.mem_append, List.mem_cons, not_or]
      exact ⟨by cases exported <;> decide, by cases binder <;> decide, by decide,
        notMem_name (by decide) hb.written.spelled, by decide, nofun⟩
    have hnone := not_occursIn_asyncValue (t := [' ', '0', ';']) hbefore hlist (by decide)
    rw [List.append_assoc (listText ps)] at hnone
    exact hnone

theorem ofLine?_arrow {binder : Binder} (hb : Scannable (.arrow binder name async ps))
    (hname : Import.IsWord name) :
    ofLine? line (DeclarationLine.text ⟨exported, .arrow binder name async ps⟩) =
      some ((Declaration.arrow binder name async ps).signature String.ofList line) := by
  have hparams : ')' ∉ listText ps :=
    notMem_listText (by decide) (by decide) hb.written.spelledParams
  have hlist : writtenParams (listText ps) = ps.map String.ofList :=
    writtenParams_listText hb.written.spelledParams hb.noBlankParams
  have hleads := leads_arrowLine (t := [' ', '0', ';']) exported async binder hname hparams
  obtain ⟨m, hmatch, hcaptures⟩ := hleads.matchStart?
  rw [← text_arrow] at hmatch
  obtain ⟨hone, htwo⟩ := group_captures hcaptures
  have hfunction : functionLine.matchStart?
      (DeclarationLine.text ⟨exported, .arrow binder name async ps⟩) = none := by
    refine matchStart?_eq_none fun rest => ?_
    rw [text_arrow]
    cases binder with
    | const =>
      exact not_leaves_functionLine (c := 'c') (by decide) (by decide) (by decide) (by decide)
    | «let» =>
      exact not_leaves_functionLine (c := 'l') (by decide) (by decide) (by decide) (by decide)
    | var =>
      exact not_leaves_functionLine (c := 'v') (by decide) (by decide) (by decide) (by decide)
  have hclass : classLine.matchStart?
      (DeclarationLine.text ⟨exported, .arrow binder name async ps⟩) = none := by
    refine matchStart?_eq_none fun rest => ?_
    rw [text_arrow]
    exact not_leaves_classLine binder
  rw [ofLine?, hfunction]
  simp only [hclass, hmatch, Option.map_some, hone, htwo, occursIn_asyncValue_text hb, hlist]
  rfl

theorem text_class : DeclarationLine.text ⟨exported, .classDef name⟩ =
    wordText "export" exported ++ ("class".toList ++ ' ' :: (name ++ [' ', '\x7b', '\x7d'])) := by
  simp only [DeclarationLine.text, Declaration.text, List.append_assoc, List.cons_append]

theorem ofLine?_class (hname : Import.IsWord name) :
    ofLine? line (DeclarationLine.text ⟨exported, .classDef name⟩) =
      some ((Declaration.classDef name).signature String.ofList line) := by
  have hspace : Text.isWordChar ' ' = false := by decide
  have hleads := leads_classLine (t := [' ', '\x7b', '\x7d']) exported hname (stops_cons hspace)
  obtain ⟨m, hmatch, hcaptures⟩ := hleads.matchStart?
  rw [← text_class] at hmatch
  have hone : m.group 1 = name := Match.group_eq hcaptures
  have hfunction : functionLine.matchStart?
      (DeclarationLine.text ⟨exported, .classDef name⟩) = none := by
    refine matchStart?_eq_none fun rest => ?_
    rw [text_class]
    exact not_leaves_functionLine (c := 'c') (by decide) (by decide) (by decide) (by decide)
  rw [ofLine?, hfunction]
  simp only [hmatch, hone]
  rfl

/-- The scan finds a declaration as the tree shows it: its name is made of word characters, blanks
    surround the star of a generator, and no parameter is named `undefined`. -/
def Plain (b : Declaration) : Prop :=
  (∀ c ∈ b.name, Text.isWordChar c = true) ∧ StarFits b.star ∧
    ∀ p ∈ b.params, String.ofList p ≠ "undefined"

theorem ofLine?_text (hb : Scannable b) (hname : ∀ c ∈ b.name, Text.isWordChar c = true)
    (hstar : StarFits b.star) :
    ofLine? line (DeclarationLine.text ⟨exported, b⟩) = some (b.signature String.ofList line) := by
  have hword : Import.IsWord b.name := by
    obtain ⟨c, more, heq, -⟩ := hb.written.spelled.exists_cons
    exact ⟨heq ▸ List.cons_ne_nil c more, hname⟩
  cases b with
  | function => exact ofLine?_function hb hword hstar
  | classDef => exact ofLine?_class hword
  | arrow => exact ofLine?_arrow hb hword

/-- The first group of a line holds word characters only. -/
theorem groupAvoids_name (hc : Text.isWordChar c = false) :
    functionLine.groupAvoids 1 c = true ∧ classLine.groupAvoids 1 c = true ∧
      arrowLine.groupAvoids 1 c = true := by
  simp [functionLine, classLine, arrowLine, LineScan.exported, asyncWord, parameters, seq, oneOf,
    maybe, lit, blanks, blanks1, word, others, groupAvoids, avoids, hc]

theorem isWordChar_of_group {p : Pattern} {m : Match}
    (hp : ∀ c, Text.isWordChar c = false → p.groupAvoids 1 c = true)
    (hm : p.matchStart? t = some m) :
    ∀ c ∈ (String.ofList (m.group 1)).toList, Text.isWordChar c = true := by
  intro c hc
  rw [String.toList_ofList] at hc
  by_contra hword
  exact notMem_group_of_matchAt (hp c (Bool.not_eq_true _ ▸ hword)) rfl hm hc

/-- Whatever a line declares, the scan makes its name of word characters. -/
theorem isWordChar_of_ofLine? {found : Signature} (h : ofLine? line t = some found) :
    ∀ c ∈ found.name.toList, Text.isWordChar c = true := by
  unfold ofLine? at h
  split at h
  · rename_i m hm
    obtain rfl := Option.some.inj h
    exact isWordChar_of_group (fun c hc => (groupAvoids_name hc).1) hm
  · split at h
    · rename_i m hm
      obtain rfl := Option.some.inj h
      exact isWordChar_of_group (fun c hc => (groupAvoids_name hc).2.1) hm
    · obtain ⟨m, hm, rfl⟩ := Option.map_eq_some_iff.1 h
      exact isWordChar_of_group (fun c hc => (groupAvoids_name hc).2.2) hm

/-- A function is found by the pattern for functions. -/
theorem leaves_of_ofLine? {found : Signature} (h : ofLine? line t = some found)
    (hkind : found.kind = .function) : ∃ rest, Leaves functionLine t rest := by
  unfold ofLine? at h
  split at h
  · rename_i m hm
    exact leaves_of_matchStart? hm
  · split at h
    · obtain rfl := Option.some.inj h
      cases hkind
    · obtain ⟨m, -, rfl⟩ := Option.map_eq_some_iff.1 h
      cases hkind

theorem starFits_of_ofLine? {found : Signature} (hb : Scannable b)
    (h : ofLine? line (DeclarationLine.text ⟨exported, b⟩) = some found)
    (hkind : found.kind = (b.signature treeLabel line).kind) : StarFits b.star := by
  cases b with
  | function async around name ps =>
    obtain ⟨rest, hleaves⟩ := leaves_of_ofLine? h hkind
    rw [text_function] at hleaves
    cases around with
    | none => exact trivial
    | some pair =>
      obtain ⟨before, after⟩ := pair
      replace hleaves := leaves_functionLine_inv hleaves
      rw [gapText, List.append_assoc before] at hleaves
      exact starFits_of_leaves hb.written.spelled hb.noBlank
        (fun c hc => (hb.written.spaced c hc).1) hleaves
  | classDef => exact trivial
  | arrow => exact trivial

theorem signature_eq_iff (b : Declaration) (line : Nat) :
    b.signature String.ofList line = b.signature treeLabel line ↔
      ∀ p ∈ b.params, String.ofList p ≠ "undefined" := by
  have hlabels : ∀ ps : List (List Char), ps.map String.ofList = ps.map treeLabel ↔
      ∀ p ∈ ps, String.ofList p ≠ "undefined" := by
    intro ps
    rw [List.map_inj_left]
    refine forall₂_congr fun p _ => ?_
    unfold treeLabel
    split
    · rename_i h
      simp [h]
    · rename_i h
      simp [h]
  cases b with
  | function => simp [Declaration.signature, Declaration.params, hlabels]
  | classDef => simp [Declaration.signature, Declaration.params]
  | arrow => simp [Declaration.signature, Declaration.params, hlabels]

/-- The scan reads a line as the tree shows it if and only if its declaration is plain. -/
theorem ofLine?_eq_some_iff (exported : Bool) (line : Nat) (hb : Scannable b) :
    ofLine? line (DeclarationLine.text ⟨exported, b⟩) = some (b.signature treeLabel line) ↔
      Plain b := by
  constructor
  · intro h
    have hname : ∀ c ∈ b.name, Text.isWordChar c = true := by
      have hword := isWordChar_of_ofLine? h
      have hsame : (b.signature treeLabel line).name = String.ofList b.name := by cases b <;> rfl
      rwa [hsame, String.toList_ofList] at hword
    have hstar := starFits_of_ofLine? hb h rfl
    rw [ofLine?_text hb hname hstar] at h
    exact ⟨hname, hstar, (signature_eq_iff b line).1 (Option.some.inj h)⟩
  · rintro ⟨hname, hstar, hparams⟩
    rw [ofLine?_text hb hname hstar, (signature_eq_iff b line).2 hparams]

/-! ### A source -/

theorem ofLines_pieces (closed : Bool) {ls : List DeclarationLine}
    (hls : ∀ l ∈ ls, Scannable l.declaration) (number : Nat) :
    ofLines number (Text.pieces '\n' (sourceText closed ls)) =
      ofLines number (ls.map DeclarationLine.text) := by
  induction ls generalizing number with
  | nil => rfl
  | cons l ls ih =>
    obtain ⟨hl, hmore⟩ := List.forall_mem_cons.1 hls
    have hline : '\n' ∉ l.text := fun hmem =>
      absurd (DeclarationLine.isLineChar_text hl.written _ hmem) (by decide)
    rcases lineEnd_cases closed ls with hend | ⟨hend, rfl⟩
    · rw [sourceText, hend, List.singleton_append, Text.pieces_of_first hline, ofLines, ih hmore]
      rfl
    · rw [sourceText, hend, sourceText, List.append_nil, List.append_nil,
        Text.pieces_of_notMem hline]
      rfl

theorem length_ofLines_le (number : Nat) (lines : List (List Char)) :
    (ofLines number lines).length ≤ lines.length := by
  induction lines generalizing number with
  | nil => exact Nat.le_refl _
  | cons line more ih =>
    have hhere : (ofLine? number line).toList.length ≤ 1 := by
      cases ofLine? number line <;> simp
    have hmore := ih (number + 1)
    rw [ofLines, List.length_append, List.length_cons]
    omega

theorem length_lineSignatures (label : List Char → String) (number : Nat)
    (ls : List DeclarationLine) : (lineSignatures label number ls).length = ls.length := by
  induction ls generalizing number with
  | nil => rfl
  | cons l ls ih => rw [lineSignatures, List.length_cons, ih, List.length_cons]

theorem ofLines_eq_iff {ls : List DeclarationLine} (hls : ∀ l ∈ ls, Scannable l.declaration)
    (number : Nat) : ofLines number (ls.map DeclarationLine.text) =
      lineSignatures treeLabel number ls ↔ ∀ l ∈ ls, Plain l.declaration := by
  induction ls generalizing number with
  | nil => exact iff_of_true rfl nofun
  | cons l ls ih =>
    obtain ⟨hl, hmore⟩ := List.forall_mem_cons.1 hls
    rw [List.forall_mem_cons, ← ih hmore (number + 1), ← ofLine?_eq_some_iff l.exported number hl]
    rw [List.map_cons, ofLines, lineSignatures]
    cases ofLine? number l.text with
    | some found =>
      rw [Option.toList_some, List.singleton_append, List.cons.injEq, Option.some.injEq]
    | none =>
      -- there is one signature too few
      refine iff_of_false (fun heq => ?_) fun h => absurd h.1 nofun
      have hlength := congrArg List.length heq
      have hle := length_ofLines_le (number + 1) (ls.map DeclarationLine.text)
      rw [Option.toList_none, List.nil_append, List.length_cons, length_lineSignatures] at hlength
      rw [List.length_map] at hle
      omega

theorem scan_sourceText (closed : Bool) {ls : List DeclarationLine}
    (hls : ∀ l ∈ ls, Scannable l.declaration) :
    scan (sourceText closed ls) = lineSignatures treeLabel 1 ls ↔
      ∀ l ∈ ls, Plain l.declaration := by
  rw [scan, ofLines_pieces closed hls, ofLines_eq_iff hls]

theorem report_sourceText (closed : Bool) {ls : List DeclarationLine} (path : String)
    (hls : ∀ l ∈ ls, l.declaration.Written) :
    ∃ tree, treeOf? path "javascript" (sourceText closed ls) = some tree ∧
      (SignatureReport.of path (some "javascript") (some (sourceText closed ls))).signatures =
        lineSignatures treeLabel 1 ls := by
  have htree : treeOf? path "javascript" (sourceText closed ls) = some (programNode ls) :=
    parse?_sourceText hls
  refine ⟨programNode ls, htree, ?_⟩
  show (SignatureReport.ofScript path "javascript" (sourceText closed ls)).signatures = _
  rw [SignatureReport.ofScript, htree]
  exact ofForest_lineNodes 1 ls

end CodeSurvey.Signature.LineScan
