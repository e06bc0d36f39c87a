import CodeSurvey.Proofs.Pattern.Reads
import Mathlib.Algebra.Ring.Nat

/-!
Matches and replacement, for patterns that read at least one character. Main statement: a text is
its matches with the characters between them, and replacing changes the matches and nothing else.
-/

namespace CodeSurvey.Pattern

variable {p : Pattern} {r : Reading} {m : Match} {change : Match → List Char}
  {text out : List Char} {ms : List Match}

/-- A match is a reading of the pattern at the place where it begins. -/
theorem reads_of_matchAt (h : matchAt? p r = some m) :
    ∃ r', Reads p r m.text r' ∧ m.source = r.rest ∧ m.length = m.text.length ∧
      m.captures = r'.captures := by
  obtain ⟨cs, r', hr', hm⟩ := run_reads p h
  obtain rfl := Option.some.inj hm
  have hlength : r'.offset - r.offset = cs.length := by rw [hr'.offset_eq]; omega
  have htext : r.rest.take (r'.offset - r.offset) = cs := by
    rw [hlength, hr'.rest_eq, List.take_left' rfl]
  refine ⟨r', ?_, rfl, ?_, rfl⟩
  · rw [Match.text, htext]; exact hr'
  · rw [Match.text, htext]; exact hlength

/-- A group at the front of a pattern reads the front of the match, if no group follows, and what
    follows reads the rest. -/
theorem reads_group_of_matchAt {n : Nat} {front more : Pattern} (hmore : more.groupless = true)
    (hm : matchAt? (cat (group n front) more) r = some m) :
    ∃ r₁ r₂ r₃ behind, Reads front r (m.group n) r₁ ∧ Reads more r₂ behind r₃ ∧
      m.text = m.group n ++ behind := by
  obtain ⟨r', hr', _, _, hcaptures⟩ := reads_of_matchAt hm
  generalize htext : m.text = cs at hr'
  cases hr' with
  | @cat _ _ _ _ _ ds _ hfirst hsecond =>
    cases hfirst with
    | @group _ _ _ r₁ _ hfront =>
      have hgroup : m.group n = ds := by
        rw [Match.group, Match.group?, hcaptures, hsecond.captures_eq hmore,
          List.find?_cons_of_pos (by simp)]
        show r.rest.take (r₁.offset - r.offset) = ds
        rw [hfront.offset_eq, Nat.add_sub_cancel_left, hfront.rest_eq, List.take_left' rfl]
      rw [hgroup]
      exact ⟨r₁, _, _, _, hfront, hsecond, rfl⟩

/-- A group holds no character that the groups with its number never read. -/
theorem notMem_group_of_matchAt {n : Nat} {c : Char} (hp : p.groupAvoids n c = true)
    (hr : r.captures = []) (hm : matchAt? p r = some m) : c ∉ m.group n := by
  obtain ⟨r', hreads, _, _, hcaptures⟩ := reads_of_matchAt hm
  unfold Match.group Match.group?
  cases hfind : m.captures.find? (·.number == n) with
  | none => exact List.not_mem_nil
  | some k =>
    have hk : k ∈ r'.captures := hcaptures ▸ List.mem_of_find?_eq_some hfind
    have hnumber : k.number = n := by simpa using List.find?_some hfind
    rcases hreads.notMem_capture hp k hk with hk | hk
    · rw [hr] at hk
      exact absurd hk List.not_mem_nil
    · exact hk hnumber

/-- A text, the matches found in it from left to right and what becomes of it when each match is
    changed. -/
inductive Rewrites (p : Pattern) (change : Match → List Char) :
    List Char → List Match → List Char → Prop where
  | done : Rewrites p change [] [] []
  | between {text out : List Char} {ms : List Match} (c : Char)
      (more : Rewrites p change text ms out) : Rewrites p change (c :: text) ms (c :: out)
  | found {text out : List Char} {ms : List Match} {r : Reading} {m : Match}
      (here : matchAt? p r = some m) (more : Rewrites p change text ms out) :
      Rewrites p change (m.text ++ text) (m :: ms) (change m ++ out)

/-- After skipping what a match has covered, the search goes on behind it. -/
private theorem rewrites_from (hp : 1 ≤ p.width) (before : Option Char) (offset skip : Nat)
    (hskip : skip ≤ text.length) :
    Rewrites p change (text.drop skip) (matchesFrom p before offset skip text)
      (replaceFrom p change before offset skip text) := by
  induction text generalizing before offset skip with
  | nil =>
    obtain rfl := Nat.le_zero.1 hskip
    exact .done
  | cons c rest ih =>
    cases skip with
    | succ skip => exact ih _ _ _ (Nat.le_of_succ_le_succ hskip)
    | zero =>
      rw [matchesFrom, replaceFrom, List.drop_zero]
      cases hm : matchAt? p ⟨before, c :: rest, offset, []⟩ with
      | none => exact .between c (ih _ _ 0 (Nat.zero_le _))
      | some m =>
        obtain ⟨r', hr', _, hlength, _⟩ := reads_of_matchAt hm
        have hrest : c :: rest = m.text ++ r'.rest := hr'.rest_eq
        have hpos : 1 ≤ m.text.length := Nat.le_trans hp hr'.width_le
        have hle : m.text.length ≤ rest.length + 1 := by
          rw [← List.length_cons, hrest, List.length_append]; exact Nat.le_add_right _ _
        have hdrop : c :: rest = m.text ++ rest.drop (m.length - 1) := by
          rw [← List.drop_succ_cons (a := c), hlength, Nat.sub_add_cancel hpos, hrest,
            List.drop_left' rfl]
        have := ih (some c) (offset + 1) (m.length - 1) (by omega)
        rw [hdrop]
        exact .found hm this

/-- Replacing changes the matches and keeps what is between them. -/
theorem rewrites_replace (hp : 1 ≤ p.width) (change : Match → List Char) (text : List Char) :
    Rewrites p change text (p.findAll text) (p.replace change text) :=
  rewrites_from hp none 0 0 (Nat.zero_le _)

theorem Rewrites.exists_matchAt (h : Rewrites p change text ms out) (hm : m ∈ ms) :
    (∃ r, matchAt? p r = some m) ∧ ∀ c ∈ m.text, c ∈ text := by
  induction h with
  | done => exact absurd hm List.not_mem_nil
  | between c _ ih =>
    obtain ⟨hmatch, hsubset⟩ := ih hm
    exact ⟨hmatch, fun d hd => List.mem_cons_of_mem c (hsubset d hd)⟩
  | @found text _ _ r m' here _ ih =>
    rcases List.mem_cons.1 hm with rfl | hm
    · exact ⟨⟨r, here⟩, fun d hd => List.mem_append_left text hd⟩
    · obtain ⟨hmatch, hsubset⟩ := ih hm
      exact ⟨hmatch, fun d hd => List.mem_append_right m'.text (hsubset d hd)⟩

/-- A text without a character that the pattern demands has no match. -/
theorem findAll_eq_nil_of_demands {set : Char → Bool} (hp : 1 ≤ p.width)
    (hdemands : p.demands set = true) (htext : ∀ c ∈ text, set c = false) :
    p.findAll text = [] := by
  refine List.eq_nil_iff_forall_not_mem.2 fun m hm => ?_
  obtain ⟨⟨r, hmatch⟩, hsubset⟩ :=
    (rewrites_replace hp (fun m => m.text) text).exists_matchAt hm
  obtain ⟨_, hreads, _⟩ := reads_of_matchAt hmatch
  obtain ⟨c, hc, hset⟩ := hreads.exists_of_demands hdemands
  rw [htext c (hsubset c hc)] at hset
  exact Bool.false_ne_true hset

/-- If each match is thinned out, so is the text. -/
theorem Rewrites.sublist (h : Rewrites p change text ms out)
    (hchange : ∀ {r m}, matchAt? p r = some m → (change m).Sublist m.text) :
    out.Sublist text := by
  induction h with
  | done => exact List.Sublist.refl _
  | between c _ ih => exact ih.cons_cons c
  | found here _ ih => exact (hchange here).append ih

/-- If each match is thinned out, the text stays as it is if and only if every match does. -/
theorem Rewrites.out_eq_iff (h : Rewrites p change text ms out)
    (hchange : ∀ {r m}, matchAt? p r = some m → (change m).Sublist m.text) :
    out = text ↔ ∀ m ∈ ms, change m = m.text := by
  induction h with
  | done => simp
  | between c _ ih => rw [List.cons_inj_right, ih]
  | @found text out ms r m here more ih =>
    rw [List.forall_mem_cons, ← ih]
    constructor
    · intro heq
      -- neither part can make up for what the other one loses
      have hhere := (hchange here).length_le
      have hmore := (more.sublist hchange).length_le
      have hlength := congrArg List.length heq
      rw [List.length_append, List.length_append] at hlength
      exact List.append_inj heq (by omega)
    · rintro ⟨hhere, hmore⟩
      rw [hhere, hmore]

/-- If no match stays as it is, a text does if and only if it has no match. -/
theorem replace_eq_self_iff (hp : 1 ≤ p.width)
    (hchange : ∀ {r m}, matchAt? p r = some m → (change m).Sublist m.text)
    (hne : ∀ {r m}, matchAt? p r = some m → change m ≠ m.text) :
    p.replace change text = text ↔ p.findAll text = [] := by
  have hrewrites := rewrites_replace hp change text
  refine (hrewrites.out_eq_iff hchange).trans ?_
  constructor
  · intro hsame
    refine List.eq_nil_iff_forall_not_mem.2 fun m hm => ?_
    obtain ⟨⟨r, hmatch⟩, _⟩ := hrewrites.exists_matchAt hm
    exact hne hmatch (hsame m hm)
  · intro hnone m hm
    rw [hnone] at hm
    exact absurd hm List.not_mem_nil

/-- The line feeds that the changed matches lose are those that the text loses. -/
theorem Rewrites.lineFeeds_add {lost : Match → Nat} (h : Rewrites p change text ms out)
    (hchange : ∀ {r m}, matchAt? p r = some m →
      Text.lineFeeds (change m) + lost m = Text.lineFeeds m.text) :
    Text.lineFeeds out + (ms.map lost).sum = Text.lineFeeds text := by
  induction h with
  | done => rfl
  | @between text out _ c _ ih =>
    have hcons : ∀ s, Text.lineFeeds (c :: s) = Text.lineFeeds [c] + Text.lineFeeds s :=
      Text.lineFeeds_append [c]
    rw [hcons out, hcons text]
    omega
  | found here _ ih =>
    have := hchange here
    rw [Text.lineFeeds_append, Text.lineFeeds_append, List.map_cons, List.sum_cons]
    omega

theorem Rewrites.lineFeeds_eq (h : Rewrites p change text ms out)
    (hchange : ∀ {r m}, matchAt? p r = some m →
      Text.lineFeeds (change m) = Text.lineFeeds m.text) :
    Text.lineFeeds out = Text.lineFeeds text := by
  have hsum : Text.lineFeeds out + (ms.map fun _ => 0).sum = Text.lineFeeds text :=
    h.lineFeeds_add fun hm => hchange hm
  rwa [List.map_const', List.sum_replicate_nat, Nat.mul_zero, Nat.add_zero] at hsum

end CodeSurvey.Pattern
