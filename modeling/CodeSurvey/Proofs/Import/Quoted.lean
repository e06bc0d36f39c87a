import CodeSurvey.Proofs.Import.Written
import CodeSurvey.Proofs.Pattern.First
import CodeSurvey.Proofs.Text.Pieces

/-!
Texts in quotes, one behind another, and where the script patterns read them. Main statement: what
a pattern takes for a text in quotes is one of them, or it is what stands between two of them and
the pattern took a closing quote for an opening one.
-/

namespace CodeSurvey.Import

open Pattern

/-- No quote stands in the text. -/
def Unquoted (s : List Char) : Prop := ∀ c ∈ s, isQuote c = false

instance (s : List Char) : Decidable (Unquoted s) := List.decidableBAll _ s

/-- Texts in quotes with what stands before each of them, and what stands behind the last. -/
def quoted : List (List Char × List Char) → List Char → List Char
  | [], last => last
  | (gap, source) :: more, last => gap ++ '\'' :: (source ++ '\'' :: quoted more last)

/-- No quote stands in the gaps and in the texts. -/
def UnquotedParts (parts : List (List Char × List Char)) : Prop :=
  ∀ part ∈ parts, Unquoted part.1 ∧ Unquoted part.2

variable {q q' : Char} {s u v w x y z before gap source last : List Char}
  {parts more : List (List Char × List Char)} {r r₁ r' : Reading} {cs : List Char}

theorem isQuote_single : isQuote '\'' = true := rfl

theorem Unquoted.notMem (h : Unquoted s) (hq : isQuote q = true) : q ∉ s := by
  intro hmem
  rw [h q hmem] at hq
  exact Bool.false_ne_true hq

theorem quoted_append (parts more : List (List Char × List Char)) (last : List Char) :
    quoted (parts ++ more) last = quoted parts (quoted more last) := by
  induction parts with
  | nil => rfl
  | cons part parts ih => rw [List.cons_append, quoted, quoted, ih]

theorem quoted_eq_append (parts : List (List Char × List Char)) (last : List Char) :
    quoted parts last = quoted parts [] ++ last := by
  induction parts with
  | nil => rfl
  | cons part parts ih => rw [quoted, quoted, ih]; simp

/-! ### Cutting at quotes -/

/-- A quote with `u` before it is the first quote of the text or stands behind that one. -/
theorem first_quote_or_behind (hx : Unquoted x) (hu : Unquoted u) (hq : isQuote q = true)
    (hq' : isQuote q' = true) (h : x ++ q :: y = before ++ u ++ q' :: z) :
    (x = before ++ u ∧ y = z) ∨ ∃ front, before = x ++ q :: front ∧ y = front ++ u ++ q' :: z := by
  induction before generalizing x with
  | nil =>
    obtain ⟨rfl, -, rfl⟩ := Text.eq_of_first isQuote hx hu hq hq' h
    exact .inl ⟨rfl, rfl⟩
  | cons c before ih =>
    cases x with
    | nil =>
      obtain ⟨rfl, rfl⟩ := List.cons.inj h
      exact .inr ⟨before, rfl, rfl⟩
    | cons d x =>
      obtain ⟨rfl, htail⟩ := List.cons.inj h
      rcases ih (fun c hc => hx c (List.mem_cons_of_mem _ hc)) htail with
        ⟨rfl, hy⟩ | ⟨front, rfl, hy⟩
      · exact .inl ⟨rfl, hy⟩
      · exact .inr ⟨front, rfl, hy⟩

/-- What stands between two quotes next to each other is one of the texts in quotes, or it is the
    gap between two of them. -/
theorem quoted_cases (hparts : UnquotedParts parts) (hlast : Unquoted last) (hu : Unquoted u)
    (hs : Unquoted s) (hq : isQuote q = true) (hq' : isQuote q' = true)
    (h : quoted parts last = before ++ u ++ q :: (s ++ q' :: w)) :
    (∃ front, (front ++ u, s) ∈ parts) ∨
      ∃ inner front gap next more ahead behind,
        parts = ahead ++ (gap, front ++ u) :: (s, next) :: more ∧
          before = inner ++ '\'' :: front ∧ w = next ++ '\'' :: behind := by
  induction parts generalizing before with
  | nil =>
    have hmem : q ∈ last := by rw [show last = _ from h]; simp
    exact absurd hmem (hlast.notMem hq)
  | cons part parts ih =>
    obtain ⟨gap, source⟩ := part
    obtain ⟨⟨hgap, hsource⟩, hmore⟩ := List.forall_mem_cons.1 hparts
    -- the quote at hand opens this text, closes it or stands behind it
    rcases first_quote_or_behind hgap hu isQuote_single hq h with
      ⟨hopens, hrest⟩ | ⟨front, rfl, hrest⟩
    · obtain ⟨hs', -, -⟩ := Text.eq_of_first isQuote hsource hs isQuote_single hq' hrest
      refine .inl ⟨before, ?_⟩
      rw [← hopens, ← hs']
      exact List.mem_cons_self ..
    rcases first_quote_or_behind hsource hu isQuote_single hq hrest with
      ⟨hcloses, hbehind⟩ | ⟨behind, rfl, hbehind⟩
    · cases parts with
      | nil =>
        have hmem : q' ∈ last := by rw [show last = _ from hbehind]; simp
        exact absurd hmem (hlast.notMem hq')
      | cons next parts =>
        obtain ⟨hnext, -⟩ := hmore next (List.mem_cons_self ..)
        obtain ⟨hs', -, hw⟩ := Text.eq_of_first isQuote hnext hs isQuote_single hq' hbehind
        refine .inr ⟨gap, front, gap, next.2, parts, [], _, ?_, rfl, hw.symm⟩
        rw [← hcloses, ← hs']
        rfl
    · rcases ih hmore hbehind with
        ⟨front, hmem⟩ | ⟨inner, front, gap', next, more, ahead, last', heq, hbefore, hw⟩
      · exact .inl ⟨front, List.mem_cons_of_mem _ hmem⟩
      · refine .inr ⟨gap ++ '\'' :: (source ++ '\'' :: inner), front, gap', next, more,
          (gap, source) :: ahead, last', by rw [heq]; rfl, ?_, hw⟩
        rw [hbefore]
        simp

/-! ### What the patterns read -/

/-- Ahead of `r` are `front`, a text in quotes and `behind`; the text is the last capture. -/
structure ReadsQuoted (r : Reading) (captures : List Capture) (front s behind : List Char) :
    Prop where
  rest_eq : ∃ q q', isQuote q = true ∧ isQuote q' = true ∧
    r.rest = front ++ q :: (s ++ q' :: behind)
  unquoted : Unquoted s
  ne_nil : s ≠ []
  captures_eq : ∃ rest, captures = ⟨1, s ++ rest, s.length⟩ :: r.captures

theorem ReadsQuoted.group_eq {m : Match} {front behind : List Char}
    (h : ReadsQuoted r m.captures front s behind) : m.group 1 = s :=
  have ⟨_, hcaptures⟩ := h.captures_eq
  Match.group_eq hcaptures

theorem ReadsQuoted.prepend {captures : List Capture} {front behind : List Char}
    (h : ReadsQuoted r₁ captures front s behind) (passes : Passes r u r₁) :
    ReadsQuoted r captures (u ++ front) s behind where
  rest_eq := by
    obtain ⟨q, q', hq, hq', hr₁⟩ := h.rest_eq
    exact ⟨q, q', hq, hq', by rw [passes.rest_eq, hr₁, List.append_assoc]⟩
  unquoted := h.unquoted
  ne_nil := h.ne_nil
  captures_eq := by rw [← passes.captures_eq]; exact h.captures_eq

theorem readsQuoted_quotedText (h : Reads quotedText r cs r') :
    ∃ s, ReadsQuoted r r'.captures [] s r'.rest := by
  obtain ⟨r₁, _, _, hopener, hmore⟩ := exists_of_reads_cat h
  obtain ⟨r₂, s, _, hbody, hcloser⟩ := exists_of_reads_cat hmore
  obtain ⟨r₃, hinner, rfl⟩ := exists_of_reads_group hbody
  obtain ⟨q, hq, hpass⟩ := exists_of_reads_one hopener
  obtain ⟨q', hq', hpass'⟩ := exists_of_reads_one hcloser
  obtain ⟨hpasses, hmem, henough⟩ := exists_of_reads_many hinner
  have hbehind : r₃.rest = q' :: r'.rest := hpass'.rest_eq
  refine ⟨s, ⟨q, q', hq, hq', ?_⟩, fun c hc => by simpa using hmem c hc,
    List.ne_nil_of_length_pos henough, q' :: r'.rest, ?_⟩
  · rw [hpass.rest_eq, hpasses.rest_eq, hbehind]
    rfl
  · rw [hpass'.captures_eq, hpasses.captures_eq, hpass.captures_eq, hpasses.offset_eq,
      hpasses.rest_eq, hbehind, Nat.add_sub_cancel_left]

theorem readsFirst_quotedText (hr : r.rest = q :: (s ++ q' :: z)) (hq : isQuote q = true)
    (hq' : isQuote q' = true) (hs : Unquoted s) (hne : s ≠ []) :
    ∃ r', ReadsFirst quotedText r (q :: (s ++ [q'])) r' ∧ r'.rest = z ∧
      ReadsQuoted r r'.captures [] s z := by
  obtain ⟨r₁, h₁, hr₁⟩ := exists_passes (show r.rest = [q] ++ (s ++ q' :: z) from hr)
  obtain ⟨r₂, hbody, hr₂, hcaptures⟩ : ∃ r₂, ReadsFirst (group 1 (others1 isQuote)) r₁ s r₂ ∧ _ :=
    exists_readsFirst_groupMany hr₁ (fun c hc => by simp [hs c hc]) (List.length_pos_iff.2 hne)
      (by simp [hq'])
  obtain ⟨r₃, h₃, hr₃⟩ := exists_passes (show r₂.rest = [q'] ++ z from hr₂)
  refine ⟨r₃, (ReadsFirst.one h₁ hq).cat (hbody.cat (.one h₃ hq')), hr₃,
    ⟨q, q', hq, hq', hr⟩, hs, hne, q' :: z, ?_⟩
  rw [h₃.captures_eq, hcaptures, h₁.captures_eq]

theorem readsQuoted_callOf {name : String} (h : Reads (callOf name) r cs r') :
    r.afterWord ≠ r.beforeWord ∧ ∃ b b' s b'', Blank b ∧ Blank b' ∧ Blank b'' ∧
      ReadsQuoted r r'.captures (name.toList ++ (b ++ ('(' :: b'))) s (b'' ++ ')' :: r'.rest) := by
  obtain ⟨_, _, _, hedge, hmore⟩ := exists_of_reads_cat h
  obtain ⟨hword, rfl⟩ := edge_of_reads_wordEdge hedge
  obtain ⟨r₁, _, _, hname, hmore⟩ := exists_of_reads_cat hmore
  obtain ⟨r₂, b, _, hblanks, hmore⟩ := exists_of_reads_cat hmore
  obtain ⟨r₃, _, _, hopen, hmore⟩ := exists_of_reads_cat hmore
  obtain ⟨r₄, b', _, hblanks', hmore⟩ := exists_of_reads_cat hmore
  obtain ⟨r₅, _, _, hquoted, hmore⟩ := exists_of_reads_cat hmore
  obtain ⟨r₆, b'', _, hblanks'', hclose⟩ := exists_of_reads_cat hmore
  obtain ⟨hpass, hb, -⟩ := exists_of_reads_many hblanks
  obtain ⟨hpass', hb', -⟩ := exists_of_reads_many hblanks'
  obtain ⟨hpass'', hb'', -⟩ := exists_of_reads_many hblanks''
  obtain ⟨s, hs⟩ := readsQuoted_quotedText hquoted
  refine ⟨hword, b, b', s, b'', hb, hb', hb'', ?_⟩
  have hbehind : r₅.rest = b'' ++ ')' :: r'.rest := by
    rw [hpass''.rest_eq, (passes_of_reads_text hclose).rest_eq]
    rfl
  have hcaptures : r'.captures = r₅.captures := by
    rw [hclose.captures_eq rfl, hpass''.captures_eq]
  rw [hcaptures, ← hbehind]
  have h₃ := (hs.prepend hpass').prepend (passes_of_reads_text hopen)
  simpa [lit] using (h₃.prepend hpass).prepend (passes_of_reads_text hname)

theorem readsQuoted_bareImport (h : Reads bareImport r cs r') :
    ∃ b s, Blank b ∧ b ≠ [] ∧
      ReadsQuoted r r'.captures ("import".toList ++ b) s r'.rest := by
  obtain ⟨_, _, _, hedge, hmore⟩ := exists_of_reads_cat h
  obtain ⟨-, rfl⟩ := edge_of_reads_wordEdge hedge
  obtain ⟨r₁, _, _, hname, hmore⟩ := exists_of_reads_cat hmore
  obtain ⟨r₂, b, _, hblanks, hquoted⟩ := exists_of_reads_cat hmore
  obtain ⟨hpass, hb, hsome⟩ := exists_of_reads_many hblanks
  obtain ⟨s, hs⟩ := readsQuoted_quotedText hquoted
  refine ⟨b, s, hb, List.ne_nil_of_length_pos hsome, ?_⟩
  simpa using (hs.prepend hpass).prepend (passes_of_reads_text hname)

/-- The source of an import or export with the word before it. -/
def fromSource : Pattern := seq [blanks1, lit "from", blanks1, quotedText]

theorem readsQuoted_fromSource (h : Reads fromSource r cs r') :
    ∃ b b' s, Blank b ∧ Blank b' ∧ b ≠ [] ∧ b' ≠ [] ∧
      ReadsQuoted r r'.captures (b ++ ("from".toList ++ b')) s r'.rest := by
  obtain ⟨r₁, b, _, hblanks, hmore⟩ := exists_of_reads_cat h
  obtain ⟨r₂, _, _, hfrom, hmore⟩ := exists_of_reads_cat hmore
  obtain ⟨r₃, b', _, hblanks', hquoted⟩ := exists_of_reads_cat hmore
  obtain ⟨hpass, hb, hsome⟩ := exists_of_reads_many hblanks
  obtain ⟨hpass', hb', hsome'⟩ := exists_of_reads_many hblanks'
  obtain ⟨s, hs⟩ := readsQuoted_quotedText hquoted
  refine ⟨b, b', s, hb, hb', List.ne_nil_of_length_pos hsome, List.ne_nil_of_length_pos hsome', ?_⟩
  simpa using ((hs.prepend hpass').prepend (passes_of_reads_text hfrom)).prepend hpass

/-- Before its source a clause may read anything. -/
theorem exists_fromSource_of_fromClause (h : Reads fromClause r cs r') :
    ∃ us r₁ ds, Passes r us r₁ ∧ Reads fromSource r₁ ds r' := by
  obtain ⟨_, _, _, hedge, hmore⟩ := exists_of_reads_cat h
  obtain ⟨_, _, _, hkeyword, hmore⟩ := exists_of_reads_cat hmore
  obtain ⟨_, _, _, hblanks, hmore⟩ := exists_of_reads_cat hmore
  obtain ⟨r₁, _, ds, hlazy, hsource⟩ := exists_of_reads_cat hmore
  exact ⟨_, r₁, ds, (hedge.passes rfl).trans ((hkeyword.passes rfl).trans
    ((hblanks.passes rfl).trans (hlazy.passes rfl))), hsource⟩

end CodeSurvey.Import
