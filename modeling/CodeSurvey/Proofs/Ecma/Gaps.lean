import CodeSurvey.Proofs.Comment
import CodeSurvey.Proofs.Ecma.Spelling
import CodeSurvey.Proofs.Import.ModuleList
import CodeSurvey.Proofs.Pattern.Replace
import CodeSurvey.Proofs.Pattern.Steps

/-!
What stands between two tokens, whatever the source is. Main statements: a gap that is not empty
ends with a space or with the closing mark of a comment, or else a line ends behind it; and a name
reaches as far as it can.
-/

namespace CodeSurvey.Ecma

open Pattern

variable {p q : Pattern} {c : Char} {cs ds rest source after : List Char} {r : Reading} {w : String}

/-! ### Gaps -/

theorem isWordChar_of_isSpace (h : isSpace c = true) : Text.isWordChar c = false := by
  by_cases hblank : Text.isBlank c = true
  · exact Import.isWordChar_of_isBlank hblank
  · have hall : ∀ n ∈ [0x200B, 0x2060, 0xFEFF], Text.isWordChar (Char.ofNat n) = false := by
      decide +kernel
    have hmem : c.toNat ∈ [0x200B, 0x2060, 0xFEFF] := by
      simp only [List.mem_cons, List.not_mem_nil, or_false]
      simp only [isSpace, Text.isBlank] at h hblank
      by_cases hascii : c.toNat < 128 <;>
        simp only [hascii, if_true, if_false, Bool.or_eq_true, Bool.and_eq_true, beq_iff_eq,
          decide_eq_true_eq] at h hblank <;> omega
    rw [← Char.ofNat_toNat c]
    exact hall _ hmem

/-- Such a text leaves nothing behind that the next token could go on with: it ends with a space or
    a slash, or else a line ends behind it. -/
def EndsGap (cs rest : List Char) : Prop :=
  ∀ b ∈ cs.getLast?, ∀ h ∈ rest.head?, isSpace b = true ∨ b = '/' ∨ isLineEnd h = true

theorem steps_spaces : Steps EndsGap (many true 1 isSpace) := by
  intro r
  refine (Steps.many1 isSpace r).imp_right fun ⟨cs, r', hfirst, hne, hspaces⟩ => ?_
  exact ⟨cs, r', hfirst, hne, fun b hb _ _ => .inl (hspaces b (List.mem_of_getLast? hb))⟩

theorem steps_lineComment (mark : String) (hmark : mark.toList ≠ []) :
    Steps EndsGap (lineComment mark) := by
  intro r
  by_cases hahead : mark.toList <+: r.rest
  · obtain ⟨more, hmore⟩ := hahead
    obtain ⟨r₁, h₁, hr₁⟩ := exists_passes hmore.symm
    obtain ⟨r₂, h₂, hr₂⟩ := exists_passes
      (hr₁.trans (List.takeWhile_append_dropWhile (p := (!isLineEnd ·))).symm)
    have hstop : ∀ h ∈ r₂.rest.head?, isLineEnd h = true := by
      intro h hh
      have hdrop := List.head?_dropWhile_not (!isLineEnd ·) more
      rw [hr₂] at hh
      rw [Option.mem_def.1 hh] at hdrop
      simpa using hdrop
    refine .inr ⟨_, r₂, (ReadsFirst.text h₁).cat (.manyLongest h₂ ?_ (Nat.zero_le _) ?_), ?_, ?_⟩
    · exact List.all_eq_true.1 List.all_takeWhile
    · exact fun h hh => by rw [hstop h hh]; rfl
    · exact fun hnil => hmark (List.append_eq_nil_iff.1 hnil).1
    · exact fun _ _ h hh => .inr (.inr (hstop h hh))
  · refine .inl fun cs r' hreads => hahead ?_
    obtain ⟨r₁, _, _, htext, -⟩ := exists_of_reads_cat hreads
    exact ⟨r₁.rest, (passes_of_reads_text htext).rest_eq.symm⟩

/-- A block comment ends with a slash. -/
theorem steps_block : Steps EndsGap Comment.block := by
  intro r
  by_cases hread : ∃ cs r', Reads Comment.block r cs r'
  · obtain ⟨cs, r', hreads⟩ := hread
    obtain ⟨inside, hrest⟩ := Comment.rest_of_reads_block hreads
    obtain ⟨after, hafter⟩ := Option.ne_none_iff_exists'.1
      (Comment.behindCloser?_ne_none inside r'.rest)
    obtain ⟨ds, r₁, r₂, hfirst, hpasses, hr₂⟩ := Comment.readsFirst_block hrest hafter
    obtain ⟨inside', hinside, -⟩ := Comment.exists_inside_of_behindCloser? hafter
    have hcut : '/' :: ds = '/' :: '*' :: (inside' ++ ['*', '/']) := by
      refine (List.append_left_inj after).1 ?_
      rw [← hr₂, ← hpasses.rest_eq, hrest, hinside, hr₂]
      simp
    refine .inr ⟨_, r₁, hfirst, List.cons_ne_nil _ _, fun b hb _ _ => .inr (.inl ?_)⟩
    have hlast : ('/' :: '*' :: (inside' ++ ['*', '/'])).getLast? = some '/' := by
      have hsplit : '/' :: '*' :: (inside' ++ ['*', '/']) =
          '/' :: '*' :: inside' ++ ['*'] ++ ['/'] := by simp
      rw [hsplit, List.getLast?_concat]
    rw [hcut, hlast] at hb
    exact (Option.some.inj hb).symm
  · exact .inl fun cs r' hreads => hread ⟨cs, r', hreads⟩

theorem steps_separators : ∀ p ∈ separators, Steps EndsGap p := by
  intro p hp
  simp only [separators, List.mem_cons, List.not_mem_nil, or_false] at hp
  rcases hp with rfl | rfl | rfl | rfl
  · exact steps_spaces
  · exact steps_lineComment "//" (by decide)
  · exact steps_lineComment "<!--" (by decide)
  · exact steps_block

/-- A gap in two parts ends as its second part does, if that is not empty. -/
theorem EndsGap.append (first : EndsGap cs (ds ++ rest)) (second : EndsGap ds rest) :
    EndsGap (cs ++ ds) rest := by
  cases ds with
  | nil =>
    rw [List.append_nil]
    exact first
  | cons d ds =>
    intro b hb
    rw [List.getLast?_append_of_ne_nil cs (List.cons_ne_nil d ds)] at hb
    exact second b hb

theorem exists_leading {ps : List Pattern} (h : ∀ p ∈ ps, Steps EndsGap p)
    (hspaces : many true 1 isSpace ∈ ps) (text : List Char) :
    ∃ rest, text = (star (oneOf ps)).leading text ++ rest ∧
      EndsGap ((star (oneOf ps)).leading text) rest ∧ ∀ c ∈ rest.head?, isSpace c = false := by
  obtain ⟨r', hrest, hfails, hlast⟩ := (Steps.oneOf h).leading_star text
  refine ⟨r'.rest, hrest, ?_, fun c hc => ?_⟩
  · rcases hlast with hnil | ⟨front, last, hcut, hne, hend⟩
    · rw [hnil]
      nofun
    · intro b hb
      rw [hcut, List.getLast?_append_of_ne_nil front hne] at hb
      exact hend b hb
  · obtain ⟨more, hmore⟩ := List.head?_eq_some_iff.1 hc
    cases hspace : isSpace c with
    | false => rfl
    | true =>
      have hreads : Reads (many true 1 isSpace) r' [c] (r'.past c more) :=
        .many (.past hmore .stay) (List.forall_mem_singleton.2 hspace) (Nat.le_refl 1)
      exact absurd (hreads.oneOf hspaces) (hfails _ _)

/-- The gap in front of the first token of a text reaches as far as there are spaces. -/
theorem exists_trivia (atLineStart : Bool) (source : List Char) :
    ∃ rest, source = trivia atLineStart source ++ rest ∧
      EndsGap (trivia atLineStart source) rest ∧ ∀ c ∈ rest.head?, isSpace c = false := by
  obtain ⟨rest, hrest, hend, hhead⟩ : ∃ rest, source = triviaPattern.leading source ++ rest ∧
      EndsGap (triviaPattern.leading source) rest ∧ ∀ c ∈ rest.head?, isSpace c = false :=
    exists_leading steps_separators (by simp [separators]) source
  have hline : ∀ p ∈ lineComment "-->" :: separators, Steps EndsGap p :=
    List.forall_mem_cons.2 ⟨steps_lineComment "-->" (by decide), steps_separators⟩
  obtain ⟨rest', hrest', hend', hhead'⟩ : ∃ rest', rest = lineTriviaPattern.leading rest ++ rest' ∧
      EndsGap (lineTriviaPattern.leading rest) rest' ∧ ∀ c ∈ rest'.head?, isSpace c = false :=
    exists_leading hline (by simp [separators]) rest
  have hdrop : source.drop (triviaPattern.leading source).length = rest :=
    (congrArg (List.drop _) hrest).trans (List.drop_left' rfl)
  simp only [trivia, hdrop]
  split
  · refine ⟨rest', ?_, (hrest' ▸ hend).append hend', hhead'⟩
    rw [List.append_assoc, ← hrest']
    exact hrest
  · exact ⟨rest, hrest, hend, hhead⟩

/-! ### First tokens -/

/-- The token that a pattern reads, and what follows it. -/
def taken (p : Pattern) (make : String → Token) (source : List Char) : Token × List Char :=
  match p.matchStart? source with
  | some m => (make (String.ofList m.text), source.drop m.length)
  | none => (.invalid, source)

/-- The line feeds in the spelling of a token, which only a string may have. -/
def Token.feeds : Token → Nat
  | string s => Text.lineFeeds s.toList
  | _ => 0

/-- How the first token of a text is found: the text is at its end, a sign or a name is read, or
    the token is neither. -/
inductive FirstToken (source : List Char) : Token → List Char → Prop where
  | stop (atEnd : source = []) : FirstToken source .stop []
  | sign {s : List Char} (found : Token.sign? source = some s) :
      FirstToken source (.sign (String.ofList s)) (source.drop s.length)
  | name {t : Token} {m : Match} (found : namePattern.matchStart? source = some m)
      (token : t = .word (String.ofList m.text) ∨ t = .escapedWord (String.ofList m.text)) :
      FirstToken source t (source.drop m.length)
  | other {t : Token} (n : Nat) (notSign : ∀ s, t ≠ .sign s) (notWord : ∀ s, t ≠ .word s)
      (notStop : t ≠ .stop) (feeds : Text.lineFeeds (source.take n) = t.feeds) :
      FirstToken source t (source.drop n)

theorem FirstToken.invalid : FirstToken source .invalid source :=
  .other 0 (by simp) (by simp) (by simp) rfl

theorem text_of_matchStart? {m : Match} (h : p.matchStart? source = some m) :
    m.text = source.take m.length := by
  obtain ⟨_, _, hsource, _⟩ := reads_of_matchAt h
  rw [Match.text, hsource]
  rfl

/-- A pattern that reads no line feed. -/
theorem lineFeeds_of_matchStart? {m : Match} (hp : p.avoids '\n' = true)
    (h : p.matchStart? source = some m) : Text.lineFeeds (source.take m.length) = 0 := by
  obtain ⟨_, hreads, -⟩ := reads_of_matchAt h
  rw [← text_of_matchStart? h]
  exact List.count_eq_zero.2 (hreads.notMem hp)

theorem firstToken_taken {make : String → Token}
    (h : ∀ s, (∀ u, make s ≠ .sign u) ∧ (∀ u, make s ≠ .word u) ∧ make s ≠ .stop)
    (hfeeds : ∀ m, p.matchStart? source = some m →
      Text.lineFeeds (source.take m.length) = (make (String.ofList m.text)).feeds) :
    FirstToken source (taken p make source).1 (taken p make source).2 := by
  unfold taken
  split
  · obtain ⟨hsign, hword, hstop⟩ := h _
    exact .other _ hsign hword hstop (hfeeds _ ‹_›)
  · exact .invalid

theorem firstToken_first (source : List Char) :
    FirstToken source (Token.first source).1 (Token.first source).2 := by
  cases source with
  | nil => exact .stop rfl
  | cons c rest =>
    by_cases hname : (isNameStart c || c == '\\') = true
    · have heq : Token.first (c :: rest) = taken namePattern (fun s =>
          if s.toList.contains '\\' then .escapedWord s else .word s) (c :: rest) := if_pos hname
      rw [heq, taken]
      split
      · refine .name ‹_› ?_
        dsimp only
        split
        · exact .inr rfl
        · exact .inl rfl
      · exact .invalid
    · by_cases hnumber : (c.isDigit || (c == '.' && rest.head?.any Char.isDigit)) = true
      · let read := taken numberPattern .number (c :: rest)
        have heq : Token.first (c :: rest) =
            if read.2.head?.any isNameChar then (.invalid, c :: rest) else read :=
          (if_neg hname).trans (if_pos hnumber)
        rw [heq]
        split
        · exact .invalid
        · exact firstToken_taken (by simp) fun _ hm => lineFeeds_of_matchStart? (by decide) hm
      · by_cases hstring : (c == '"' || c == '\'') = true
        · have heq : Token.first (c :: rest) = taken stringPattern .string (c :: rest) :=
            ((if_neg hname).trans (if_neg hnumber)).trans (if_pos hstring)
          rw [heq]
          refine firstToken_taken (by simp) fun m hm => ?_
          rw [← text_of_matchStart? hm, Token.feeds, String.toList_ofList]
        · by_cases hprivate : (c == '#') = true
          · have heq : Token.first (c :: rest) =
                taken (seq [lit "#", namePattern]) .privateWord (c :: rest) :=
              ((if_neg hname).trans (if_neg hnumber)).trans
                ((if_neg hstring).trans (if_pos hprivate))
            rw [heq]
            exact firstToken_taken (by simp) fun _ hm => lineFeeds_of_matchStart? (by decide) hm
          · unfold Token.first
            simp only [if_neg hname, if_neg hnumber, if_neg hstring, if_neg hprivate]
            split
            · exact .sign ‹_›
            · exact .invalid

variable {t : Token}

theorem FirstToken.of_eq (h : Token.first source = (t, after)) : FirstToken source t after := by
  have hfirst := firstToken_first source
  rwa [h] at hfirst

theorem isSuffix_first (source : List Char) : (Token.first source).2 <:+ source := by
  rcases hfirst : Token.first source with ⟨t, after⟩
  cases FirstToken.of_eq hfirst with
  | stop => exact List.nil_suffix
  | _ => exact List.drop_suffix _ _

theorem source_eq_nil_of_first (h : Token.first source = (.stop, after)) : source = [] := by
  cases FirstToken.of_eq h with
  | stop atEnd => exact atEnd
  | name _ token => simp at token
  | other _ _ _ notStop _ => exact absurd rfl notStop

/-- A sign is read as it is spelled. -/
theorem source_eq_of_first_sign (h : Token.first source = (.sign w, after)) :
    source = w.toList ++ after := by
  cases FirstToken.of_eq h with
  | name _ token => simp at token
  | other _ notSign _ _ _ => exact absurd rfl (notSign w)
  | @sign s found =>
    have hprefix : s <+: source := by
      obtain ⟨s', hfind, hs⟩ := Option.map_eq_some_iff.1 found
      have hs' : s' <+: source := by
        simpa using List.find?_some hfind
      split at hs
      · rename_i hopt
        have hmark : s' = ['?', '.'] := eq_of_beq (Bool.and_eq_true_iff.1 hopt).1
        rw [← hs]
        exact (show ['?'] <+: s' from hmark ▸ ⟨['.'], rfl⟩).trans hs'
      · exact hs ▸ hs'
    obtain ⟨more, rfl⟩ := hprefix
    rw [String.toList_ofList, List.drop_left' rfl]

theorem lineFeeds_of_sign {s : List Char} (h : Token.sign? source = some s) :
    Text.lineFeeds s = 0 := by
  have hall : ∀ s ∈ signs, Text.lineFeeds s = 0 := by decide
  obtain ⟨s', hfind, hs⟩ := Option.map_eq_some_iff.1 h
  split at hs
  · rw [← hs]
    rfl
  · exact hs ▸ hall s' (List.mem_of_find?_eq_some hfind)

/-- The line feeds of a text are those of its first token and those behind it. -/
theorem lineFeeds_first (h : Token.first source = (t, after)) :
    Text.lineFeeds source = t.feeds + Text.lineFeeds after := by
  have hcut : ∀ {n : Nat}, Text.lineFeeds (source.take n) = t.feeds →
      Text.lineFeeds source = t.feeds + Text.lineFeeds (source.drop n) := fun {n} hfeeds => by
    rw [← hfeeds, ← Text.lineFeeds_append, List.take_append_drop]
  cases FirstToken.of_eq h with
  | stop atEnd =>
    rw [atEnd]
    rfl
  | @sign s found =>
    have hsource := source_eq_of_first_sign h
    rw [String.toList_ofList] at hsource
    refine hcut ?_
    rw [hsource, List.take_left' rfl, lineFeeds_of_sign found]
    rfl
  | @name _ m found token =>
    refine hcut ?_
    rw [lineFeeds_of_matchStart? (by decide +kernel) found]
    rcases token with rfl | rfl <;> rfl
  | other _ _ _ _ feeds => exact hcut feeds

theorem eq_append_of_reads_cat {r' : Reading} (h : Reads (cat p q) r cs r') :
    ∃ r₁ ds es, cs = ds ++ es ∧ Reads p r ds r₁ ∧ Reads q r₁ es r' := by
  cases h with
  | cat first second => exact ⟨_, _, _, rfl, first, second⟩

theorem eq_hexDigit_of_reads {r' : Reading} (h : Reads hexDigit r cs r') :
    ∃ d, isHexDigit d = true ∧ cs = [d] := by
  cases h with
  | one _ mem => exact ⟨_, mem, rfl⟩

theorem escape_of_reads {r' : Reading} (h : Reads unicodeEscape r cs r') : Escape cs := by
  obtain ⟨_, _, _, rfl, hmark, hmore⟩ := eq_append_of_reads_cat h
  cases hmark
  rcases reads_alt hmore with hfour | hbraces
  · obtain ⟨_, _, _, rfl, ha, hmore⟩ := eq_append_of_reads_cat hfour
    obtain ⟨_, _, _, rfl, hb, hmore⟩ := eq_append_of_reads_cat hmore
    obtain ⟨_, _, _, rfl, hc, hd⟩ := eq_append_of_reads_cat hmore
    obtain ⟨a, hexA, rfl⟩ := eq_hexDigit_of_reads ha
    obtain ⟨b, hexB, rfl⟩ := eq_hexDigit_of_reads hb
    obtain ⟨c, hexC, rfl⟩ := eq_hexDigit_of_reads hc
    obtain ⟨d, hexD, rfl⟩ := eq_hexDigit_of_reads hd
    exact .four (by simp [hexA, hexB, hexC, hexD])
  · obtain ⟨_, _, _, rfl, hopen, hmore⟩ := eq_append_of_reads_cat hbraces
    obtain ⟨_, _, _, rfl, hdigits, hclose⟩ := eq_append_of_reads_cat hmore
    cases hopen
    cases hclose
    obtain ⟨-, hex, enough⟩ := exists_of_reads_many hdigits
    exact .braces hex enough

/-- A character of a name can be read at each place, or none. -/
theorem steps_nameChar (set : Char → Bool) :
    Steps (fun _ _ => True) (alt (one set) unicodeEscape) := by
  refine .alt (fun r => ?_) fun r => ?_
  · cases hrest : r.rest with
    | nil =>
      refine .inl fun cs r' hreads => ?_
      obtain ⟨d, _, hpasses⟩ := exists_of_reads_one hreads
      rw [hpasses.rest_eq] at hrest
      cases hrest
    | cons d more =>
      cases hd : set d with
      | true => exact .inr ⟨[d], _, .one (.past hrest .stay) hd, List.cons_ne_nil _ _, trivial⟩
      | false => exact .inl (.one hrest hd)
  · by_cases hread : ∃ cs r', Reads unicodeEscape r cs r'
    · obtain ⟨cs, r', hreads⟩ := hread
      have hescape := escape_of_reads hreads
      have hfirst := hescape.readsFirst (hreads.passes rfl)
      obtain ⟨more, rfl⟩ := hescape.exists_cons
      exact .inr ⟨_, r', hfirst, List.cons_ne_nil _ _, trivial⟩
    · exact .inl fun cs r' hreads => hread ⟨cs, r', hreads⟩

/-- A name reaches as far as it can. -/
theorem isNameChar_of_first_word (h : Token.first source = (.word w, after)) :
    ∀ c ∈ after.head?, isNameChar c = false := by
  have hname : ∃ m, namePattern.matchStart? source = some m ∧ after = source.drop m.length := by
    cases FirstToken.of_eq h with
    | @name _ m found _ => exact ⟨m, found, rfl⟩
    | other _ _ notWord _ _ => exact absurd rfl (notWord w)
  obtain ⟨m, hm, rfl⟩ := hname
  rcases steps_nameChar isNameStart (.atStart source) with hfails | ⟨cs, r₁, hfirst, -⟩
  · have hnone : namePattern.matchStart? source = none :=
      matchAt?_eq_none fun ds r' hreads => by
        obtain ⟨r₁, es, _, hstart, -⟩ := exists_of_reads_cat hreads
        exact hfails es r₁ hstart
    rw [hnone] at hm
    cases hm
  · obtain ⟨ds, r', hmore, hfails, -⟩ := (steps_nameChar isNameChar).exists_repeats r₁
    have hreads : ReadsFirst namePattern (.atStart source) (cs ++ ds) r' := hfirst.cat (.star hmore)
    have hmatch := hreads.matchAt?_eq
    have hsource : source = cs ++ ds ++ r'.rest := hreads.reads.rest_eq
    obtain rfl := Option.some.inj (hm.symm.trans hmatch)
    have hdrop : source.drop (matchOf (.atStart source) (cs ++ ds) r').length = r'.rest :=
      (congrArg (List.drop _) hsource).trans (List.drop_left' rfl)
    intro c hc
    rw [hdrop] at hc
    cases hset : isNameChar c with
    | false => rfl
    | true =>
      obtain ⟨more, hrest⟩ := List.head?_eq_some_iff.1 hc
      exact absurd (.altFirst (.one (.past hrest .stay) hset)) (hfails [c] _)

end CodeSurvey.Ecma
