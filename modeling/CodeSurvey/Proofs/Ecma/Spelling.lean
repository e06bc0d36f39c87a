import CodeSurvey.Ecma.Cursor
import CodeSurvey.Proofs.Pattern.First

/-!
The tokens that a written text begins with: names, some signs, and the spaces between them. Main
statement: a text that spells a name is the first token of every text that goes on with something
else.
-/

namespace CodeSurvey.Ecma

open Pattern

variable {s sp rest cs ds : List Char} {c : Char} {r r' : Reading}

/-! ### Names -/

/-- A character of a name that is written by its number. -/
inductive Escape : List Char → Prop where
  | four {a b c d : Char} (hex : ∀ h ∈ [a, b, c, d], isHexDigit h = true) :
      Escape ['\\', 'u', a, b, c, d]
  | braces {ds : List Char} (hex : ∀ h ∈ ds, isHexDigit h = true) (enough : 1 ≤ ds.length) :
      Escape ('\\' :: 'u' :: '\x7b' :: (ds ++ ['\x7d']))

/-- Characters of a name, each as it is or written by its number. -/
inductive NameChars : List Char → Prop where
  | none : NameChars []
  | char {c : Char} {s : List Char} (here : isNameChar c = true) (more : NameChars s) :
      NameChars (c :: s)
  | escape {e s : List Char} (here : Escape e) (more : NameChars s) : NameChars (e ++ s)

/-- The text is spelled like a name; keywords are too. -/
inductive SpellsName : List Char → Prop where
  | char {c : Char} {s : List Char} (start : isNameStart c = true) (more : NameChars s) :
      SpellsName (c :: s)
  | escape {e s : List Char} (start : Escape e) (more : NameChars s) : SpellsName (e ++ s)

/-- The text goes on with something that belongs to no name. -/
def EndsName (rest : List Char) : Prop := ∀ c ∈ rest.head?, isNameChar c = false ∧ c ≠ '\\'

theorem Escape.exists_cons (h : Escape cs) : ∃ more, cs = '\\' :: more := by
  cases h with
  | four _ => exact ⟨_, rfl⟩
  | braces _ _ => exact ⟨_, rfl⟩

theorem Escape.readsFirst (h : Escape cs) (passes : Passes r cs r') :
    ReadsFirst unicodeEscape r cs r' := by
  cases h with
  | @four a b c d hex =>
    replace passes : Passes r (['\\', 'u'] ++ ([a] ++ ([b] ++ ([c] ++ [d])))) r' := passes
    obtain ⟨r₁, hmark, hdigits⟩ := passes.split
    obtain ⟨r₂, ha, hdigits⟩ := hdigits.split
    obtain ⟨r₃, hb, hdigits⟩ := hdigits.split
    obtain ⟨r₄, hc, hd⟩ := hdigits.split
    simp only [List.forall_mem_cons] at hex
    obtain ⟨hexA, hexB, hexC, hexD, -⟩ := hex
    exact .cat (.text hmark) (.altFirst (.cat (.one ha hexA) (.cat (.one hb hexB)
      (.cat (.one hc hexC) (.one hd hexD)))))
  | @braces ds hex enough =>
    replace passes : Passes r (['\\', 'u'] ++ (['\x7b'] ++ (ds ++ ['\x7d']))) r' := passes
    obtain ⟨r₁, hmark, hmore⟩ := passes.split
    obtain ⟨r₂, hopen, hmore⟩ := hmore.split
    obtain ⟨r₃, hdigits, hclose⟩ := hmore.split
    have hfails : Fails (cat hexDigit (cat hexDigit (cat hexDigit hexDigit))) r₁ := by
      intro es s hreads
      obtain ⟨s₁, _, _, hfirst, -⟩ := exists_of_reads_cat hreads
      obtain ⟨c, hc, hpasses⟩ := exists_of_reads_one hfirst
      have hhead := hpasses.rest_eq.symm.trans hopen.rest_eq
      obtain rfl : c = '\x7b' := List.head_eq_of_cons_eq hhead
      exact absurd hc (by decide)
    show ReadsFirst unicodeEscape r (['\\', 'u'] ++ (['\x7b'] ++ (ds ++ ['\x7d']))) r'
    refine .cat (.text hmark) (.altSecond hfails (.cat (.text hopen) (.cat (.manyLongest hdigits hex
      enough ?_) (.text hclose))))
    intro c hc
    rw [hclose.rest_eq] at hc
    obtain rfl := Option.some.inj hc
    decide

/-- Characters of a name are read one after another up to the end of the name. -/
theorem NameChars.repeats (h : NameChars cs) (passes : Passes r cs r') (hstop : EndsName r'.rest) :
    Repeats (.alt (.one isNameChar) unicodeEscape) r cs r' := by
  induction h generalizing r with
  | none =>
    cases passes
    refine .done fun es s hreads => ?_
    rcases reads_alt hreads with hchar | hescape
    · obtain ⟨c, hc, hpasses⟩ := exists_of_reads_one hchar
      have hend := (hstop c (by rw [hpasses.rest_eq]; rfl)).1
      rw [hc] at hend
      cases hend
    · obtain ⟨s₁, _, _, hmark, -⟩ := exists_of_reads_cat hescape
      have hrest := (passes_of_reads_text hmark).rest_eq
      exact (hstop '\\' (by rw [hrest]; rfl)).2 rfl
  | @char c s here more ih =>
    replace passes : Passes r ([c] ++ s) r' := passes
    obtain ⟨r₁, hhere, hmore⟩ := passes.split
    exact .more (.altFirst (.one hhere here)) (List.cons_ne_nil c []) (ih hmore)
  | @escape e s here more ih =>
    obtain ⟨r₁, hhere, hmore⟩ := passes.split
    obtain ⟨more', rfl⟩ := here.exists_cons
    have hfails : Fails (.one isNameChar) r := Fails.one hhere.rest_eq (by decide)
    exact .more (.altSecond hfails (here.readsFirst hhere)) (List.cons_ne_nil _ _) (ih hmore)

theorem SpellsName.readsFirst (h : SpellsName cs) (passes : Passes r cs r')
    (hstop : EndsName r'.rest) : ReadsFirst namePattern r cs r' := by
  cases h with
  | @char c s start more =>
    replace passes : Passes r ([c] ++ s) r' := passes
    obtain ⟨r₁, hfirst, hmore⟩ := passes.split
    exact .cat (.altFirst (.one hfirst start)) (.star (more.repeats hmore hstop))
  | @escape e s start more =>
    obtain ⟨r₁, hfirst, hmore⟩ := passes.split
    obtain ⟨more', rfl⟩ := start.exists_cons
    have hfails : Fails (.one isNameStart) r := Fails.one hfirst.rest_eq (by decide)
    exact .cat (.altSecond hfails (start.readsFirst hfirst)) (.star (more.repeats hmore hstop))

/-- The token that a name is: one spelled with escapes is no keyword. -/
def nameToken (s : List Char) : Token :=
  if s.contains '\\' then .escapedWord (String.ofList s) else .word (String.ofList s)

theorem SpellsName.exists_cons (h : SpellsName s) :
    ∃ c more, s = c :: more ∧ (isNameStart c || c == '\\') = true := by
  cases h with
  | char start _ => exact ⟨_, _, rfl, by rw [start]; rfl⟩
  | escape start _ =>
    obtain ⟨more, rfl⟩ := start.exists_cons
    exact ⟨_, _, rfl, by decide⟩

/-- A name is the first token of a text that goes on with something else. -/
theorem SpellsName.first (h : SpellsName s) (hstop : EndsName rest) :
    Token.first (s ++ rest) = (nameToken s, rest) := by
  obtain ⟨r', hpasses, hrest⟩ : ∃ r', Passes (.atStart (s ++ rest)) s r' ∧ r'.rest = rest :=
    exists_passes rfl
  have hmatch : namePattern.matchStart? (s ++ rest) = some (matchOf (.atStart (s ++ rest)) s r') :=
    (h.readsFirst hpasses (hrest ▸ hstop)).matchAt?_eq
  obtain ⟨c, more, rfl, hstart⟩ := h.exists_cons
  have htext : (matchOf (.atStart (c :: more ++ rest)) (c :: more) r').text = c :: more :=
    List.take_left' rfl
  have hlength : (matchOf (.atStart (c :: more ++ rest)) (c :: more) r').length =
      (c :: more).length := rfl
  rw [List.cons_append] at hmatch hlength htext ⊢
  rw [Token.first]
  simp only [hstart, if_true, hmatch, hlength, htext, String.toList_ofList]
  rw [← List.cons_append, List.drop_left' rfl]
  rfl

/-! ### Spaces -/

/-- The text is at its end or goes on with a character that begins neither a space nor a comment. -/
def StartsToken (rest : List Char) : Prop :=
  ∀ c ∈ rest.head?, isSpace c = false ∧ c ≠ '/' ∧ c ≠ '<' ∧ c ≠ '-'

theorem fails_separators (h : StartsToken r.rest) : Fails (oneOf separators) r := by
  have hspace : Fails (many true 1 isSpace) r := by
    intro es s hreads
    obtain ⟨hpasses, hall, henough⟩ := exists_of_reads_many hreads
    obtain ⟨c, more, rfl⟩ := List.exists_cons_of_length_pos henough
    have hc := (h c (by rw [hpasses.rest_eq]; rfl)).1
    rw [hall c List.mem_cons_self] at hc
    cases hc
  refine .alt hspace (.alt (Fails.mark (c := '/') rfl ?_) (.alt
    (Fails.mark (c := '<') rfl ?_) (Fails.mark (c := '/') rfl ?_)))
  · exact fun hc => (h _ hc).2.1 rfl
  · exact fun hc => (h _ hc).2.2.1 rfl
  · exact fun hc => (h _ hc).2.1 rfl

/-- Spaces are all that separates a token from what is before it. -/
theorem trivia_spaces (atLineStart : Bool) (hsp : ∀ c ∈ sp, isSpace c = true)
    (h : StartsToken rest) : trivia atLineStart (sp ++ rest) = sp := by
  obtain ⟨r', hpasses, hrest⟩ : ∃ r', Passes (.atStart (sp ++ rest)) sp r' ∧ r'.rest = rest :=
    exists_passes rfl
  have hfails : Fails (oneOf separators) r' := fails_separators (hrest ▸ h)
  have hspaces : ReadsFirst triviaPattern (.atStart (sp ++ rest)) sp r' := by
    refine .star ?_
    cases sp with
    | nil =>
      cases hpasses
      exact .done hfails
    | cons c more =>
      have hrun : ReadsFirst (oneOf separators) (.atStart (c :: more ++ rest)) (c :: more) r' := by
        refine .altFirst (.manyLongest hpasses hsp (Nat.succ_le_succ (Nat.zero_le _)) ?_)
        rw [hrest]
        exact fun d hd => (h d hd).1
      have hrepeats := Repeats.more hrun (List.cons_ne_nil c more) (.done hfails)
      rwa [List.append_nil] at hrepeats
  have hnone : ReadsFirst lineTriviaPattern (.atStart ([] ++ rest)) [] (.atStart rest) := by
    refine .star (.done (.alt (Fails.mark (c := '-') rfl ?_) (fails_separators h)))
    exact fun hc => (h _ hc).2.2.2 rfl
  have hline : lineTriviaPattern.leading rest = [] := hnone.leading_eq
  rw [trivia, hspaces.leading_eq, List.drop_left' rfl, hline, List.append_nil]
  split <;> rfl

/-- The place of the first token behind spaces. -/
theorem seek_spaces (line : Nat) (atLineStart : Bool) (hsp : ∀ c ∈ sp, isSpace c = true)
    (h : StartsToken rest) : Cursor.seek (sp ++ rest) line atLineStart =
      ⟨rest, line + Text.lineFeeds sp, sp.any isLineEnd, (Token.first rest).1,
        (Token.first rest).2⟩ := by
  rw [Cursor.seek, trivia_spaces atLineStart hsp h, List.drop_left' rfl]

theorem isSpace_of_isNameChar (h : isNameChar c = true) :
    isSpace c = false ∧ c ≠ '/' ∧ c ≠ '<' ∧ c ≠ '-' := by
  by_cases hascii : c.toNat < 128
  · have hall : ∀ n < 128, isNameChar (Char.ofNat n) = true → isSpace (Char.ofNat n) = false ∧
        Char.ofNat n ≠ '/' ∧ Char.ofNat n ≠ '<' ∧ Char.ofNat n ≠ '-' := by decide
    have hchar := hall c.toNat hascii
    rw [Char.ofNat_toNat] at hchar
    exact hchar h
  · rw [isNameChar, if_neg hascii, Bool.not_eq_true'] at h
    refine ⟨h, ?_, ?_, ?_⟩ <;> rintro rfl <;> exact hascii (by decide)

theorem startsToken_of_isNameStart (h : (isNameStart c || c == '\\') = true) :
    StartsToken (c :: rest) := by
  rintro d hd
  obtain rfl := Option.some.inj hd
  rcases Bool.or_eq_true_iff.1 h with hstart | heq
  · exact isSpace_of_isNameChar (Bool.and_eq_true_iff.1 hstart).1
  · obtain rfl : c = '\\' := eq_of_beq heq
    decide

end CodeSurvey.Ecma
