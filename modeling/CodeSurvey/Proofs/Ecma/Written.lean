import CodeSurvey.Proofs.Ecma.Declarations
import CodeSurvey.Proofs.Text.Pieces

/-!
How declarations that stand by themselves are written: the text of each of them spells its tokens,
whatever follows behind the end of its line.
-/

namespace CodeSurvey.Ecma

open Grammar Production

variable {c : Char} {s sp rest : List Char} {ps : List (List Char)} {line : Nat} {fresh : Bool}
  {t : Token} {ts : List Token} {c' : Cursor}

/-! ### Characters of names -/

/-- A character with which a name may be spelled. -/
def isNameLetter (c : Char) : Bool := isNameChar c || Pattern.among "\\\x7b\x7d" c

theorem Escape.isNameLetter (h : Escape s) : ∀ c ∈ s, isNameLetter c = true := by
  have hhex : ∀ {c}, isHexDigit c = true → Ecma.isNameLetter c = true := by
    intro c hc
    rcases Bool.or_eq_true_iff.1 hc with hdigit | hletter
    · have hascii : c.toNat < 128 := by
        simp only [Char.isDigit, Bool.and_eq_true, decide_eq_true_eq] at hdigit
        exact Nat.lt_of_le_of_lt (UInt32.le_iff_toNat_le.1 hdigit.2) (by decide)
      simp [Ecma.isNameLetter, isNameChar, hascii, Char.isAlphanum, hdigit]
    · have hall : ∀ d ∈ "abcdefABCDEF".toList, Ecma.isNameLetter d = true := by decide
      exact hall c (List.contains_iff_mem.1 hletter)
  cases h with
  | four hex =>
    simp only [List.forall_mem_cons] at hex ⊢
    exact ⟨by decide, by decide, hhex hex.1, hhex hex.2.1, hhex hex.2.2.1, hhex hex.2.2.2.1,
      List.forall_mem_nil _⟩
  | braces hex enough =>
    simp only [List.forall_mem_cons, List.forall_mem_append]
    exact ⟨by decide, by decide, by decide, fun c hc => hhex (hex c hc), by decide,
      List.forall_mem_nil _⟩

theorem NameChars.isNameLetter (h : NameChars s) : ∀ c ∈ s, isNameLetter c = true := by
  induction h with
  | none => nofun
  | char here _ ih => exact List.forall_mem_cons.2 ⟨Bool.or_eq_true_iff.2 (.inl here), ih⟩
  | escape here _ ih => exact List.forall_mem_append.2 ⟨here.isNameLetter, ih⟩

theorem SpellsName.isNameLetter (h : SpellsName s) : ∀ c ∈ s, isNameLetter c = true := by
  cases h with
  | char start more =>
    exact List.forall_mem_cons.2
      ⟨Bool.or_eq_true_iff.2 (.inl (Bool.and_eq_true_iff.1 start).1), more.isNameLetter⟩
  | escape start more => exact List.forall_mem_append.2 ⟨start.isNameLetter, more.isNameLetter⟩

/-! ### Tokens of a text -/

theorem endsName_cons (h : isNameChar c = false) (hc : c ≠ '\\') : EndsName (c :: rest) := by
  rintro d hd
  obtain rfl := Option.some.inj hd
  exact ⟨h, hc⟩

theorem startsToken_cons (h : isSpace c = false) (hc : c ≠ '/' ∧ c ≠ '<' ∧ c ≠ '-') :
    StartsToken (c :: rest) := by
  rintro d hd
  obtain rfl := Option.some.inj hd
  exact ⟨h, hc⟩

theorem SpellsName.startsToken (h : SpellsName s) : StartsToken (s ++ rest) := by
  obtain ⟨c, more, rfl, hc⟩ := h.exists_cons
  exact startsToken_of_isNameStart hc

theorem SpellsName.ahead (h : SpellsName s) (sp : List Char) (fresh : Bool)
    (hend : EndsName (sp ++ rest))
    (hsp : ∀ c ∈ sp, isSpace c = true ∧ isLineEnd c = false) (hrest : StartsToken rest)
    (more : Ahead line (.at rest line false) ts c') :
    Ahead line (.at (s ++ (sp ++ rest)) line fresh) (nameToken s :: ts) c' := by
  obtain ⟨c, s', rfl, -⟩ := h.exists_cons
  refine .before sp fresh (h.first hend) (fun s => ?_) (List.cons_ne_nil _ _) hsp hrest more
  rw [nameToken]
  split <;> nofun

/-- A keyword is spelled like a name. -/
theorem spellsName_of_nameChars {w : String}
    (hw : w.toList.head?.any isNameStart = true ∧ w.toList.all isNameChar = true) :
    SpellsName w.toList := by
  have hchars : ∀ {s : List Char}, s.all isNameChar = true → NameChars s := by
    intro s hs
    induction s with
    | nil => exact .none
    | cons c s ih =>
      rw [List.all_cons, Bool.and_eq_true_iff] at hs
      exact .char hs.1 (ih hs.2)
  obtain ⟨hstart, hall⟩ := hw
  cases hw : w.toList with
  | nil =>
    rw [hw] at hstart
    cases hstart
  | cons c s =>
    rw [hw] at hstart hall
    rw [List.all_cons, Bool.and_eq_true_iff] at hall
    exact .char hstart (hchars hall.2)

theorem nameToken_of_noEscape {w : String} (hw : w.toList.contains '\\' = false) :
    nameToken w.toList = .word w := by
  rw [nameToken, hw, if_neg Bool.false_ne_true, String.ofList_toList]

/-- The words that a declaration is made of. -/
def keywords : List String := ["export", "async", "function", "class", "const", "let", "var"]

theorem nameChars_keyword : ∀ {w}, w ∈ keywords → (w.toList.head?.any isNameStart = true ∧
    w.toList.all isNameChar = true) ∧ w.toList.contains '\\' = false := by
  decide

theorem ahead_keyword (sp : List Char) (fresh : Bool) {w : String} (hw : w ∈ keywords)
    (hend : EndsName (sp ++ rest))
    (hsp : ∀ c ∈ sp, isSpace c = true ∧ isLineEnd c = false) (hrest : StartsToken rest)
    (more : Ahead line (.at rest line false) ts c') :
    Ahead line (.at (w.toList ++ (sp ++ rest)) line fresh) (.word w :: ts) c' := by
  have hspelled := spellsName_of_nameChars (nameChars_keyword hw).1
  have hahead := hspelled.ahead sp fresh hend hsp hrest more
  rwa [nameToken_of_noEscape (nameChars_keyword hw).2] at hahead

/-- A keyword with one space behind it. -/
theorem ahead_word (fresh : Bool) {w : String} (hw : w ∈ keywords) (hrest : StartsToken rest)
    (more : Ahead line (.at rest line false) ts c') :
    Ahead line (.at (w.toList ++ ' ' :: rest) line fresh) (.word w :: ts) c' :=
  ahead_keyword [' '] fresh hw (endsName_cons (by decide) (by decide)) (by decide) hrest more

/-! ### The text of a declaration -/

/-- Names with commas between them. -/
def listText (ps : List (List Char)) : List Char := Text.join [',', ' '] ps

theorem listText_cons_cons (p q : List Char) (ps : List (List Char)) :
    listText (p :: q :: ps) = p ++ ',' :: ' ' :: listText (q :: ps) := by
  rw [listText, Text.join_cons_cons, List.append_assoc]
  rfl

theorem startsToken_listText (hps : ∀ p ∈ ps, SpellsName p) :
    StartsToken (listText ps ++ ')' :: rest) := by
  rcases ps with - | ⟨p, - | ⟨q, ps⟩⟩
  · exact startsToken_cons (by decide) (by decide)
  · exact (hps p List.mem_cons_self).startsToken
  · rw [listText_cons_cons, List.append_assoc]
    exact (hps p List.mem_cons_self).startsToken

theorem Ahead.listed (sp : List Char) (fresh : Bool) (hps : ∀ p ∈ ps, SpellsName p)
    (hsp : ∀ c ∈ sp, isSpace c = true ∧ isLineEnd c = false) (hrest : StartsToken rest)
    (more : Ahead line (.at rest line false) ts c') :
    Ahead line (.at (listText ps ++ ')' :: (sp ++ rest)) line fresh) (listTokens ps ++ ts) c' := by
  induction ps generalizing fresh with
  | nil => exact .before (w := [')']) sp fresh rfl nofun (List.cons_ne_nil _ _) hsp hrest more
  | cons p ps ih =>
    have hp := hps p List.mem_cons_self
    replace ih := @ih false fun q hq => hps q (List.mem_cons_of_mem _ hq)
    have hparen : StartsToken (')' :: (sp ++ rest)) := startsToken_cons (by decide) (by decide)
    cases ps with
    | nil =>
      exact hp.ahead [] fresh (endsName_cons (by decide) (by decide)) nofun hparen ih
    | cons q ps =>
      have hlist : StartsToken (listText (q :: ps) ++ ')' :: (sp ++ rest)) :=
        startsToken_listText fun r hr => hps r (List.mem_cons_of_mem p hr)
      have hcomma := Ahead.before (w := [',']) (t := .sign ",") [' '] false rfl nofun
        (List.cons_ne_nil _ _) (by decide) hlist ih
      have hname := hp.ahead [] fresh (endsName_cons (by decide) (by decide)) nofun
        (startsToken_cons (by decide) (by decide)) hcomma
      simpa [listText_cons_cons, listTokens] using hname

/-- What stands between the keyword of a function and its name. -/
def gapText : Option (List Char × List Char) → List Char
  | none => [' ']
  | some (before, after) => before ++ '*' :: after

/-- A keyword with a space behind it, if asked for. -/
def wordText (w : String) (there : Bool) : List Char := if there then w.toList ++ [' '] else []

namespace Grammar.Declaration

/-- How a declaration is written. -/
def text : Declaration → List Char
  | function async star name params =>
    wordText "async" async ++ "function".toList ++ gapText star ++ name ++ '(' :: listText params ++
      [')', ' ', '\x7b', '\x7d']
  | classDef name => "class".toList ++ ' ' :: name ++ [' ', '\x7b', '\x7d']
  | arrow binder name async params =>
    binder.text.toList ++ ' ' :: name ++ [' ', '=', ' '] ++ wordText "async" async ++
      '(' :: listText params ++ [')', ' ', '=', '>', ' ', '0', ';']

/-- The spaces around the star of a generator. -/
def spaces (b : Declaration) : List Char :=
  match b.star with
  | some (before, after) => before ++ after
  | none => []

/-- The names of a declaration are names, and the spaces around a star are on one line. -/
structure Written (b : Declaration) : Prop extends Named b where
  spelled : SpellsName b.name
  spelledParams : ∀ p ∈ b.params, SpellsName p
  spaced : ∀ c ∈ b.spaces, isSpace c = true ∧ isLineEnd c = false

end Grammar.Declaration

/-- What follows the last token of a declaration: the end of its line. -/
structure EndsLine (sp rest : List Char) : Prop where
  spaces : ∀ c ∈ sp, isSpace c = true
  next : StartsToken rest

/-- The place behind a declaration on a line. -/
def behind (line : Nat) (sp rest : List Char) : Cursor :=
  .at rest (line + Text.lineFeeds sp) (sp.any isLineEnd)

theorem ahead_braces (line : Nat) (fresh : Bool) (hend : EndsLine sp rest) :
    Ahead line (.at ('\x7b' :: '\x7d' :: (sp ++ rest)) line fresh) [.sign "\x7b", .sign "\x7d"]
      (behind line sp rest) :=
  .before (w := ['\x7b']) [] fresh rfl nofun (List.cons_ne_nil _ _) nofun
    (startsToken_cons (by decide) (by decide))
    (.last (w := ['\x7d']) sp false rfl nofun (List.cons_ne_nil _ _) hend.spaces hend.next)

theorem ahead_class (fresh : Bool) (hs : SpellsName s) (hend : EndsLine sp rest) :
    Ahead line (.at ((Declaration.classDef s).text ++ (sp ++ rest)) line fresh) (classTokens s)
      (behind line sp rest) := by
  have hbraces := ahead_braces line false hend
  have hname := hs.ahead [' '] false (endsName_cons (by decide) (by decide)) (by decide)
    (startsToken_cons (by decide) (by decide)) hbraces
  have hall := ahead_word (w := "class") fresh (by decide) hs.startsToken hname
  simp only [Declaration.text, List.append_assoc, List.cons_append]
  exact hall

/-- A list in parentheses and the braces of a body. -/
theorem ahead_functionRest (line : Nat) (fresh : Bool) (hps : ∀ p ∈ ps, SpellsName p)
    (hend : EndsLine sp rest) :
    Ahead line (.at ('(' :: (listText ps ++ ')' :: ' ' :: '\x7b' :: '\x7d' :: (sp ++ rest))) line
        fresh)
      (.sign "(" :: listTokens ps ++ [.sign "\x7b", .sign "\x7d"]) (behind line sp rest) := by
  have hbraces := ahead_braces line false hend
  have hlist := Ahead.listed [' '] false hps (by decide)
    (startsToken_cons (by decide) (by decide)) hbraces
  exact .before (w := ['(']) [] fresh rfl nofun (List.cons_ne_nil _ _) nofun
    (startsToken_listText hps) hlist

/-- A star is no part of an operator before a space or a name. -/
theorem first_star (h : ∀ c ∈ rest.head?, c ≠ '*' ∧ c ≠ '=') :
    Token.first ('*' :: rest) = (.sign "*", rest) := by
  cases rest with
  | nil => rfl
  | cons c more =>
    obtain ⟨hstar, hequals⟩ := h c rfl
    have hsign : Token.sign? ('*' :: c :: more) = some ['*'] := by
      simp [Token.sign?, signs, List.isPrefixOf, hstar.symm, hequals.symm]
    rw [Token.first]
    simp only [hsign]
    rfl

theorem notStar_of_head (hs : SpellsName s) (hsp : ∀ c ∈ sp, isSpace c = true) :
    ∀ c ∈ (sp ++ (s ++ rest)).head?, c ≠ '*' ∧ c ≠ '=' := by
  intro d hd
  have hd : isSpace d = true ∨ (isNameStart d || d == '\\') = true := by
    cases sp with
    | nil =>
      obtain ⟨c, more, rfl, hc⟩ := hs.exists_cons
      exact .inr (Option.some.inj hd ▸ hc)
    | cons c more => exact .inl (Option.some.inj hd ▸ hsp c List.mem_cons_self)
  constructor <;> rintro rfl <;> revert hd <;> decide

theorem endsName_of_head {c : Char} (hsp : ∀ c ∈ sp, isSpace c = true)
    (h : isNameChar c = false) (hc : c ≠ '\\') : EndsName (sp ++ c :: rest) := by
  cases sp with
  | nil => exact endsName_cons h hc
  | cons d more =>
    have hd := hsp d List.mem_cons_self
    refine endsName_cons ?_ (by rintro rfl; exact absurd hd (by decide))
    refine Bool.eq_false_iff.2 fun hname => ?_
    rw [(isSpace_of_isNameChar hname).1] at hd
    cases hd

theorem ahead_function {star : Option (List Char × List Char)} {async : Bool} (fresh : Bool)
    (hs : SpellsName s) (hps : ∀ p ∈ ps, SpellsName p)
    (hstar : ∀ c ∈ (Declaration.function async star s ps).spaces,
      isSpace c = true ∧ isLineEnd c = false) (hend : EndsLine sp rest) :
    Ahead line (.at ((Declaration.function async star s ps).text ++ (sp ++ rest)) line fresh)
      (anyFunctionTokens async star.isSome s ps) (behind line sp rest) := by
  have hrest := ahead_functionRest line false hps hend
  have hname := hs.ahead [] false (endsName_cons (by decide) (by decide)) nofun
    (startsToken_cons (by decide) (by decide)) hrest
  have hfunction : ∀ fresh, Ahead line (.at ("function".toList ++ (gapText star ++ (s ++ ('(' ::
      (listText ps ++ ')' :: ' ' :: '\x7b' :: '\x7d' :: (sp ++ rest)))))) line fresh)
      (anyFunctionTokens false star.isSome s ps) (behind line sp rest) := by
    intro fresh
    cases star with
    | none => exact ahead_word (w := "function") fresh (by decide) hs.startsToken hname
    | some around =>
      obtain ⟨before, after⟩ := around
      obtain ⟨hbefore, hafter⟩ := List.forall_mem_append.1 hstar
      have hbehind : ∀ c ∈ (after ++ (s ++ ([] ++ '(' :: (listText ps ++
          ')' :: ' ' :: '\x7b' :: '\x7d' :: (sp ++ rest))))).head?, c ≠ '*' ∧ c ≠ '=' :=
        notStar_of_head hs fun c hc => (hafter c hc).1
      have hstarred := Ahead.before (w := ['*']) after false (first_star hbehind) nofun
        (List.cons_ne_nil _ _) hafter hs.startsToken hname
      have hkeyword := ahead_keyword before fresh (w := "function") (by decide)
        (endsName_of_head (fun c hc => (hbefore c hc).1) (by decide) (by decide)) hbefore
        (startsToken_cons (by decide) (by decide)) hstarred
      simpa [gapText, anyFunctionTokens, functionTokens] using hkeyword
  simp only [Declaration.text, List.append_assoc, List.cons_append]
  cases async with
  | true =>
    exact ahead_word (w := "async") fresh (by decide)
      (spellsName_of_nameChars (w := "function") (by decide)).startsToken (hfunction false)
  | false => exact hfunction fresh

theorem ahead_arrow {b : Binder} {async : Bool} (fresh : Bool) (hs : SpellsName s)
    (hps : ∀ p ∈ ps, SpellsName p) (hend : EndsLine sp rest) :
    Ahead line (.at ((Declaration.arrow b s async ps).text ++ (sp ++ rest)) line fresh)
      (variableTokens b s async ps) (behind line sp rest) := by
  have hclose : Ahead line (.at (';' :: (sp ++ rest)) line false) [.sign ";"]
      (behind line sp rest) :=
    .last (w := [';']) sp false rfl (by simp) (List.cons_ne_nil _ _) hend.spaces hend.next
  have hzero : Ahead line (.at ('0' :: ';' :: (sp ++ rest)) line false)
      [.number "0", .sign ";"] (behind line sp rest) :=
    .before (w := ['0']) [] false rfl (by simp) (List.cons_ne_nil _ _) (by simp)
      (startsToken_cons (by decide) (by decide)) hclose
  have harrow : Ahead line (.at ('=' :: '>' :: ' ' :: '0' :: ';' :: (sp ++ rest)) line false)
      [.sign "=>", .number "0", .sign ";"] (behind line sp rest) :=
    .before (w := ['=', '>']) [' '] false rfl (by simp) (List.cons_ne_nil _ _) (by decide)
      (startsToken_cons (by decide) (by decide)) hzero
  have hlist := Ahead.listed [' '] false hps (by decide)
    (startsToken_cons (by decide) (by decide)) harrow
  have hopen := Ahead.before (w := ['(']) (t := .sign "(") [] false rfl (by simp)
    (List.cons_ne_nil _ _) (by simp) (startsToken_listText hps) hlist
  have hvalue : Ahead line (.at (wordText "async" async ++ '(' :: (listText ps ++ ')' :: ' ' ::
      '=' :: '>' :: ' ' :: '0' :: ';' :: (sp ++ rest))) line false)
      (arrowTokens async ps ++ [.sign ";"]) (behind line sp rest) := by
    simp only [arrowTokens, List.append_assoc]
    cases async with
    | true =>
      exact ahead_word (w := "async") false (by decide) (startsToken_cons (by decide) (by decide))
        hopen
    | false => exact hopen
  have hequals := Ahead.before (w := ['=']) (t := .sign "=") [' '] false rfl (by simp)
    (List.cons_ne_nil _ _) (by decide) ?_ hvalue
  · have hname := hs.ahead [' '] false (endsName_cons (by decide) (by decide)) (by decide)
      (startsToken_cons (by decide) (by decide)) hequals
    have hbinder := ahead_word (w := b.text) fresh (by cases b <;> decide) hs.startsToken hname
    simp only [Declaration.text, variableTokens, List.append_assoc, List.cons_append]
    exact hbinder
  · cases async with
    | true =>
      exact (spellsName_of_nameChars (w := "async") (by decide)).startsToken
    | false => exact startsToken_cons (by decide) (by decide)

theorem Grammar.Declaration.Written.ahead {b : Declaration} (hb : b.Written) (line : Nat)
    (fresh : Bool) (hend : EndsLine sp rest) :
    Ahead line (.at (b.text ++ (sp ++ rest)) line fresh) b.tokens (behind line sp rest) := by
  obtain ⟨-, hname, hparams, hspaces⟩ := hb
  cases b with
  | function => exact ahead_function fresh hname hparams hspaces hend
  | classDef => exact ahead_class fresh hname hend
  | arrow => exact ahead_arrow fresh hname hparams hend

/-- How a declaration that is perhaps exported is written. -/
def Grammar.DeclarationLine.text (l : DeclarationLine) : List Char :=
  wordText "export" l.exported ++ l.declaration.text

theorem Grammar.Declaration.startsToken_text (b : Declaration) : StartsToken (b.text ++ rest) := by
  have hkeyword : ∀ {w : String}, w ∈ keywords → ∀ {rest}, StartsToken (w.toList ++ rest) :=
    fun hw _ => (spellsName_of_nameChars (nameChars_keyword hw).1).startsToken
  rcases b with ⟨_ | _, _, _, _⟩ | _ | ⟨b, _, _, _⟩ <;>
    simp only [text, wordText, List.append_assoc, Bool.false_eq_true, if_true, if_false,
      List.nil_append]
  · exact hkeyword (w := "function") (by decide)
  · exact hkeyword (w := "async") (by decide)
  · exact hkeyword (w := "class") (by decide)
  · exact hkeyword (w := b.text) (by cases b <;> decide)

theorem Grammar.DeclarationLine.ahead {l : DeclarationLine} (hl : l.declaration.Written)
    (line : Nat) (fresh : Bool) (hend : EndsLine sp rest) :
    Ahead line (.at (l.text ++ (sp ++ rest)) line fresh) l.tokens (behind line sp rest) := by
  have hbody := hl.ahead line false hend
  obtain ⟨exported, b⟩ := l
  simp only [DeclarationLine.text, List.append_assoc]
  cases exported with
  | true =>
    exact ahead_word (w := "export") fresh (by decide) b.startsToken_text hbody
  | false => exact hl.ahead line fresh hend

end CodeSurvey.Ecma
