import CodeSurvey.Pattern.Search

/-!
What a pattern reads, as a relation without order or continuation. Main statement: a run that
answers has taken one of these readings. What every reading of a pattern has in common is then read
off the pattern: how short it can be, which characters it leaves alone, whether it remembers
anything.
-/

namespace CodeSurvey.Pattern

/-- Going on from `r` over these characters leads to `r'`. -/
inductive Passes : Reading → List Char → Reading → Prop where
  | stay {r : Reading} : Passes r [] r
  | past {r r' : Reading} {c : Char} {rest chars : List Char} (ahead : r.rest = c :: rest)
      (more : Passes (r.past c rest) chars r') : Passes r (c :: chars) r'

/-- From `r` the pattern can read these characters, which leads to `r'`. -/
inductive Reads : Pattern → Reading → List Char → Reading → Prop where
  | nothing {r : Reading} : Reads nothing r [] r
  | one {set : Char → Bool} {r r' : Reading} {c : Char} (passes : Passes r [c] r')
      (mem : set c = true) : Reads (one set) r [c] r'
  | text {chars : List Char} {r r' : Reading} (passes : Passes r chars r') :
      Reads (text chars) r chars r'
  | cat {p q : Pattern} {r r₁ r₂ : Reading} {cs ds : List Char} (first : Reads p r cs r₁)
      (second : Reads q r₁ ds r₂) : Reads (cat p q) r (cs ++ ds) r₂
  | altFirst {p q : Pattern} {r r' : Reading} {cs : List Char} (first : Reads p r cs r') :
      Reads (alt p q) r cs r'
  | altSecond {p q : Pattern} {r r' : Reading} {cs : List Char} (second : Reads q r cs r') :
      Reads (alt p q) r cs r'
  | many {greedy : Bool} {least : Nat} {set : Char → Bool} {r r' : Reading} {cs : List Char}
      (passes : Passes r cs r') (mem : ∀ c ∈ cs, set c = true) (enough : least ≤ cs.length) :
      Reads (many greedy least set) r cs r'
  | starNone {p : Pattern} {r : Reading} : Reads (star p) r [] r
  | starMore {p : Pattern} {r r₁ r₂ : Reading} {cs ds : List Char} (first : Reads p r cs r₁)
      (more : Reads (star p) r₁ ds r₂) : Reads (star p) r (cs ++ ds) r₂
  | group {n : Nat} {p : Pattern} {r r' : Reading} {cs : List Char} (body : Reads p r cs r') :
      Reads (group n p) r cs
        { r' with captures := ⟨n, r.rest, r'.offset - r.offset⟩ :: r'.captures }
  | ahead {p : Pattern} {r r' : Reading} {cs : List Char} (body : Reads p r cs r') :
      Reads (ahead p) r [] r
  | notAfter {set : Char → Bool} {r : Reading} (clear : r.before.any set = false) :
      Reads (notAfter set) r [] r
  | wordEdge {r : Reading} (edge : r.afterWord ≠ r.beforeWord) : Reads wordEdge r [] r
  | lineStart {r : Reading} (start : r.before.all (· == '\n') = true) : Reads lineStart r [] r
  | lineEnd {r : Reading} (stop : r.rest.head?.all (· == '\n') = true) : Reads lineEnd r [] r
  | textEnd {r : Reading} (stop : (r.rest.isEmpty || r.rest == ['\n']) = true) :
      Reads textEnd r [] r

variable {p : Pattern} {r r' : Reading} {cs : List Char}

/-! ### Runs take readings -/

theorem passes_of_readText {chars : List Char} (h : readText chars r = some r') :
    Passes r chars r' := by
  induction chars generalizing r with
  | nil => obtain rfl := Option.some.inj h; exact .stay
  | cons c more ih =>
    rw [readText] at h
    split at h
    · rename_i d rest hrest
      split at h
      · rename_i hcd
        obtain rfl : c = d := eq_of_beq hcd
        exact .past hrest (ih h)
      · simp at h
    · simp at h

section Run

variable {α : Type} {set : Char → Bool} {next : Reading → Option α} {a : α} {least : Nat}
  {rest : List Char}

/-- What a run of characters of a set leads to. -/
private def RunReaches (set : Char → Bool) (next : Reading → Option α) (least : Nat) (r : Reading)
    (a : α) : Prop :=
  ∃ cs r', Passes r cs r' ∧ (∀ c ∈ cs, set c = true) ∧ least ≤ cs.length ∧ next r' = some a

private theorem RunReaches.stay (h : (if least == 0 then next r else none) = some a) :
    RunReaches set next least r a := by
  split at h
  · rename_i hl
    exact ⟨[], r, .stay, by simp, Nat.le_of_eq (eq_of_beq hl), h⟩
  · simp at h

private theorem RunReaches.past {c : Char} (hrest : r.rest = c :: rest) (hc : set c = true)
    (h : RunReaches set next (least - 1) (r.past c rest) a) : RunReaches set next least r a := by
  obtain ⟨cs, r', hp, hcs, hl, hn⟩ := h
  refine ⟨c :: cs, r', .past hrest hp, ?_, ?_, hn⟩
  · intro d hd
    rcases List.mem_cons.1 hd with rfl | hd
    · exact hc
    · exact hcs d hd
  · rw [List.length_cons]; omega

private theorem runLongest_reaches (hrest : r.rest = rest)
    (h : runLongest set next least rest r = some a) : RunReaches set next least r a := by
  induction rest generalizing least r with
  | nil => exact .stay h
  | cons c more ih =>
    rw [runLongest] at h
    split at h
    · rename_i hc
      split at h
      · rename_i b hb
        obtain rfl := Option.some.inj h
        exact .past hrest hc (ih rfl hb)
      · exact .stay h
    · exact .stay h

private theorem runShortest_reaches (hrest : r.rest = rest)
    (h : runShortest set next least rest r = some a) : RunReaches set next least r a := by
  induction rest generalizing least r with
  | nil => exact .stay h
  | cons c more ih =>
    rw [runShortest] at h
    split at h
    · rename_i b hb
      obtain rfl := Option.some.inj h
      exact .stay hb
    · split at h
      · rename_i hc
        exact .past hrest hc (ih rfl h)
      · simp at h

/-- Repetitions take readings of the body one after another. -/
private theorem runStar_reads {body : Reading → (Reading → Option α) → Option α}
    (hbody : ∀ {r next a}, body r next = some a → ∃ cs r', Reads p r cs r' ∧ next r' = some a)
    {fuel : List Char} (h : runStar body next fuel r = some a) :
    ∃ cs r', Reads (star p) r cs r' ∧ next r' = some a := by
  induction fuel generalizing r with
  | nil => exact ⟨[], r, .starNone, h⟩
  | cons _ fuel ih =>
    rw [runStar] at h
    split at h
    · rename_i b hb
      obtain rfl := Option.some.inj h
      obtain ⟨cs, r₁, hfirst, hmore⟩ := hbody hb
      split at hmore
      · obtain ⟨ds, r₂, hds, hn⟩ := ih hmore
        exact ⟨cs ++ ds, r₂, .starMore hfirst hds, hn⟩
      · simp at hmore
    · exact ⟨[], r, .starNone, h⟩

end Run

/-- A run that answers has taken a reading of the pattern, and the continuation answered there. -/
theorem run_reads (p : Pattern) : ∀ {α : Type} {r : Reading} {next : Reading → Option α} {a : α},
    run p r next = some a → ∃ cs r', Reads p r cs r' ∧ next r' = some a := by
  induction p with
  | nothing => exact fun h => ⟨[], _, .nothing, h⟩
  | one set =>
    intro α r next a h
    rw [run] at h
    split at h
    · rename_i c rest hrest
      split at h
      · rename_i hc
        exact ⟨[c], _, .one (.past hrest .stay) hc, h⟩
      · simp at h
    · simp at h
  | text chars =>
    intro α r next a h
    obtain ⟨r', hr', hn⟩ := Option.bind_eq_some_iff.1 h
    exact ⟨chars, r', .text (passes_of_readText hr'), hn⟩
  | cat p q ihp ihq =>
    intro α r next a h
    obtain ⟨cs, r₁, hfirst, h⟩ := ihp h
    obtain ⟨ds, r₂, hsecond, hn⟩ := ihq h
    exact ⟨cs ++ ds, r₂, .cat hfirst hsecond, hn⟩
  | alt p q ihp ihq =>
    intro α r next a h
    rw [run] at h
    split at h
    · rename_i b hb
      obtain rfl := Option.some.inj h
      obtain ⟨cs, r', hr', hn⟩ := ihp hb
      exact ⟨cs, r', .altFirst hr', hn⟩
    · obtain ⟨cs, r', hr', hn⟩ := ihq h
      exact ⟨cs, r', .altSecond hr', hn⟩
  | many greedy least set =>
    intro α r next a h
    have : RunReaches set next least r a := by
      rw [run] at h
      split at h
      · exact runLongest_reaches rfl h
      · exact runShortest_reaches rfl h
    obtain ⟨cs, r', hp, hcs, hl, hn⟩ := this
    exact ⟨cs, r', .many hp hcs hl, hn⟩
  | star p ih => exact fun h => runStar_reads ih h
  | group n p ih =>
    intro α r next a h
    obtain ⟨cs, r', hr', hn⟩ := ih h
    exact ⟨cs, _, .group hr', hn⟩
  | ahead p ih =>
    intro α r next a h
    rw [run] at h
    split at h
    · rename_i hsome
      obtain ⟨r₀, hr₀⟩ := Option.isSome_iff_exists.1 hsome
      obtain ⟨cs, r', hr', _⟩ := ih hr₀
      exact ⟨[], r, .ahead hr', h⟩
    · simp at h
  | notAfter set =>
    intro α r next a h
    rw [run] at h
    split at h
    · simp at h
    · rename_i hset
      exact ⟨[], r, .notAfter (Bool.eq_false_iff.2 hset), h⟩
  | wordEdge =>
    intro α r next a h
    rw [run] at h
    split at h
    · simp at h
    · rename_i hedge
      exact ⟨[], r, .wordEdge fun he => hedge (beq_iff_eq.2 he), h⟩
  | lineStart =>
    intro α r next a h
    rw [run] at h
    split at h
    · rename_i hstart
      exact ⟨[], r, .lineStart hstart, h⟩
    · simp at h
  | lineEnd =>
    intro α r next a h
    rw [run] at h
    split at h
    · rename_i hstop
      exact ⟨[], r, .lineEnd hstop, h⟩
    · simp at h
  | textEnd =>
    intro α r next a h
    rw [run] at h
    split at h
    · rename_i hstop
      exact ⟨[], r, .textEnd hstop, h⟩
    · simp at h

/-! ### What all readings of a pattern have in common -/

/-- The least number of characters the pattern reads. -/
def width : Pattern → Nat
  | one _ => 1
  | text chars => chars.length
  | cat p q => p.width + q.width
  | alt p q => min p.width q.width
  | many _ least _ => least
  | group _ p => p.width
  | _ => 0

/-- The pattern never reads `c`. -/
def avoids (c : Char) : Pattern → Bool
  | one set => !set c
  | text chars => !chars.contains c
  | cat p q => p.avoids c && q.avoids c
  | alt p q => p.avoids c && q.avoids c
  | many _ _ set => !set c
  | star p => p.avoids c
  | group _ p => p.avoids c
  | _ => true

/-- Some text that every reading of the pattern spells out holds a character of the set. -/
def demands (set : Char → Bool) : Pattern → Bool
  | text chars => chars.any set
  | cat p q => p.demands set || q.demands set
  | alt p q => p.demands set && q.demands set
  | group _ p => p.demands set
  | _ => false

/-- The groups with a number never read `c`. -/
def groupAvoids (n : Nat) (c : Char) : Pattern → Bool
  | cat p q => p.groupAvoids n c && q.groupAvoids n c
  | alt p q => p.groupAvoids n c && q.groupAvoids n c
  | star p => p.groupAvoids n c
  | group k p => (k != n || p.avoids c) && p.groupAvoids n c
  | _ => true

/-- The pattern remembers nothing. -/
def groupless : Pattern → Bool
  | cat p q => p.groupless && q.groupless
  | alt p q => p.groupless && q.groupless
  | star p => p.groupless
  | group _ _ => false
  | _ => true

theorem Passes.rest_eq (h : Passes r cs r') : r.rest = cs ++ r'.rest := by
  induction h with
  | stay => rfl
  | past hrest _ ih => rw [hrest, List.cons_append, ← ih]; rfl

theorem Reading.offset_past (r : Reading) (c : Char) (rest : List Char) :
    (r.past c rest).offset = r.offset + 1 := rfl

theorem Passes.offset_eq (h : Passes r cs r') : r'.offset = r.offset + cs.length := by
  induction h with
  | stay => rfl
  | past _ _ ih => rw [ih, Reading.offset_past, List.length_cons]; omega

theorem Passes.captures_eq (h : Passes r cs r') : r'.captures = r.captures := by
  induction h with
  | stay => rfl
  | past _ _ ih => exact ih

/-- The characters read are the next ones. -/
theorem Reads.rest_eq (h : Reads p r cs r') : r.rest = cs ++ r'.rest := by
  induction h with
  | one hp _ => exact hp.rest_eq
  | text hp => exact hp.rest_eq
  | many hp _ _ => exact hp.rest_eq
  | cat _ _ ih₁ ih₂ => rw [ih₁, ih₂, List.append_assoc]
  | starMore _ _ ih₁ ih₂ => rw [ih₁, ih₂, List.append_assoc]
  | altFirst _ ih => exact ih
  | altSecond _ ih => exact ih
  | group _ ih => exact ih
  | _ => rfl

theorem Reads.offset_eq (h : Reads p r cs r') : r'.offset = r.offset + cs.length := by
  induction h with
  | one hp _ => exact hp.offset_eq
  | text hp => exact hp.offset_eq
  | many hp _ _ => exact hp.offset_eq
  | cat _ _ ih₁ ih₂ => rw [ih₂, ih₁, List.length_append, Nat.add_assoc]
  | starMore _ _ ih₁ ih₂ => rw [ih₂, ih₁, List.length_append, Nat.add_assoc]
  | altFirst _ ih => exact ih
  | altSecond _ ih => exact ih
  | group _ ih => exact ih
  | _ => rfl

/-- No reading is shorter than the width of the pattern. -/
theorem Reads.width_le (h : Reads p r cs r') : p.width ≤ cs.length := by
  induction h with
  | one _ _ => exact Nat.le_refl _
  | text _ => exact Nat.le_refl _
  | many _ _ henough => exact henough
  | cat _ _ ih₁ ih₂ => rw [width, List.length_append]; exact Nat.add_le_add ih₁ ih₂
  | altFirst _ ih => exact Nat.le_trans (Nat.min_le_left _ _) ih
  | altSecond _ ih => exact Nat.le_trans (Nat.min_le_right _ _) ih
  | group _ ih => exact ih
  | _ => exact Nat.zero_le _

/-- A character that the pattern avoids is not read. -/
theorem Reads.notMem {c : Char} (h : Reads p r cs r') (hc : p.avoids c = true) : c ∉ cs := by
  induction h with
  | one _ hmem =>
    rintro hcs
    obtain rfl := List.mem_singleton.1 hcs
    simp [avoids, hmem] at hc
  | text _ => simpa [avoids] using hc
  | many _ hmem _ =>
    intro hcs
    simp [avoids, hmem c hcs] at hc
  | cat _ _ ih₁ ih₂ =>
    obtain ⟨h₁, h₂⟩ := Bool.and_eq_true_iff.1 hc
    exact fun hcs => (List.mem_append.1 hcs).elim (ih₁ h₁) (ih₂ h₂)
  | starMore _ _ ih₁ ih₂ =>
    exact fun hcs => (List.mem_append.1 hcs).elim (ih₁ hc) (ih₂ hc)
  | altFirst _ ih => exact ih (Bool.and_eq_true_iff.1 hc).1
  | altSecond _ ih => exact ih (Bool.and_eq_true_iff.1 hc).2
  | group _ ih => exact ih hc
  | _ => exact List.not_mem_nil

/-- A character that the pattern demands is read. -/
theorem Reads.exists_of_demands {set : Char → Bool} (h : Reads p r cs r')
    (hp : p.demands set = true) : ∃ c ∈ cs, set c = true := by
  induction h with
  | text _ => exact List.any_eq_true.1 hp
  | cat _ _ ih₁ ih₂ =>
    rcases Bool.or_eq_true_iff.1 hp with hp | hp
    · obtain ⟨c, hc, hset⟩ := ih₁ hp
      exact ⟨c, List.mem_append_left _ hc, hset⟩
    · obtain ⟨c, hc, hset⟩ := ih₂ hp
      exact ⟨c, List.mem_append_right _ hc, hset⟩
  | altFirst _ ih => exact ih (Bool.and_eq_true_iff.1 hp).1
  | altSecond _ ih => exact ih (Bool.and_eq_true_iff.1 hp).2
  | group _ ih => exact ih hp
  | _ => exact absurd hp Bool.false_ne_true

/-- Without groups the captures stay. -/
theorem Reads.captures_eq (h : Reads p r cs r') (hp : p.groupless = true) :
    r'.captures = r.captures := by
  induction h with
  | one hpass _ => exact hpass.captures_eq
  | text hpass => exact hpass.captures_eq
  | many hpass _ _ => exact hpass.captures_eq
  | cat _ _ ih₁ ih₂ =>
    obtain ⟨h₁, h₂⟩ := Bool.and_eq_true_iff.1 hp
    rw [ih₂ h₂, ih₁ h₁]
  | starMore _ _ ih₁ ih₂ => rw [ih₂ hp, ih₁ hp]
  | altFirst _ ih => exact ih (Bool.and_eq_true_iff.1 hp).1
  | altSecond _ ih => exact ih (Bool.and_eq_true_iff.1 hp).2
  | group _ _ => simp [groupless] at hp
  | _ => rfl

/-- What a group with a number remembers holds no character that these groups never read. -/
theorem Reads.notMem_capture {n : Nat} {c : Char} (h : Reads p r cs r')
    (hp : p.groupAvoids n c = true) :
    ∀ k ∈ r'.captures, k ∈ r.captures ∨ (k.number = n → c ∉ k.source.take k.length) := by
  induction h with
  | one hpass _ => intro k hk; exact .inl (hpass.captures_eq ▸ hk)
  | text hpass => intro k hk; exact .inl (hpass.captures_eq ▸ hk)
  | many hpass _ _ => intro k hk; exact .inl (hpass.captures_eq ▸ hk)
  | cat _ _ ih₁ ih₂ =>
    obtain ⟨h₁, h₂⟩ := Bool.and_eq_true_iff.1 hp
    intro k hk
    rcases ih₂ h₂ k hk with hk | hk
    · exact ih₁ h₁ k hk
    · exact .inr hk
  | starMore _ _ ih₁ ih₂ =>
    intro k hk
    rcases ih₂ hp k hk with hk | hk
    · exact ih₁ hp k hk
    · exact .inr hk
  | altFirst _ ih => exact ih (Bool.and_eq_true_iff.1 hp).1
  | altSecond _ ih => exact ih (Bool.and_eq_true_iff.1 hp).2
  | @group m p r r' cs body ih =>
    obtain ⟨hgroup, hinner⟩ := Bool.and_eq_true_iff.1 hp
    intro k hk
    rcases List.mem_cons.1 hk with rfl | hk
    · refine .inr fun hnumber => ?_
      obtain rfl : m = n := hnumber
      have havoids : p.avoids c = true := by simpa using hgroup
      have htake : r.rest.take (r'.offset - r.offset) = cs := by
        rw [body.offset_eq, Nat.add_sub_cancel_left, body.rest_eq, List.take_left' rfl]
      show c ∉ r.rest.take (r'.offset - r.offset)
      rw [htake]
      exact body.notMem havoids
    · exact ih hinner k hk
  | _ => exact fun k hk => .inl hk

/-- What a group remembers began somewhere in the text ahead. -/
theorem Reads.source_suffix (h : Reads p r cs r') :
    ∀ k ∈ r'.captures, k ∈ r.captures ∨ k.source <:+ r.rest := by
  induction h with
  | one hpass _ => intro k hk; exact .inl (hpass.captures_eq ▸ hk)
  | text hpass => intro k hk; exact .inl (hpass.captures_eq ▸ hk)
  | many hpass _ _ => intro k hk; exact .inl (hpass.captures_eq ▸ hk)
  | cat hfirst _ ih₁ ih₂ =>
    intro k hk
    rcases ih₂ k hk with hk | hk
    · exact ih₁ k hk
    · exact .inr (hk.trans ⟨_, hfirst.rest_eq.symm⟩)
  | starMore hfirst _ ih₁ ih₂ =>
    intro k hk
    rcases ih₂ k hk with hk | hk
    · exact ih₁ k hk
    · exact .inr (hk.trans ⟨_, hfirst.rest_eq.symm⟩)
  | altFirst _ ih => exact ih
  | altSecond _ ih => exact ih
  | group _ ih =>
    intro k hk
    rcases List.mem_cons.1 hk with rfl | hk
    · exact .inr (List.suffix_refl _)
    · exact ih k hk
  | _ => exact fun k hk => .inl hk

end CodeSurvey.Pattern
