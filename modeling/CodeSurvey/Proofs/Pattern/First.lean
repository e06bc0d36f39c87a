import CodeSurvey.Proofs.Pattern.Reads

/-!
What a pattern reads first and what a search finds. Of the readings that a pattern has at a place a
run offers one before all others; it is put together from the parts of the pattern, so a run on a
text that is known in part need not be carried out. Main statement: a scan that lists the places
where the pattern fails and its first readings elsewhere is what searching and replacing do.
-/

namespace CodeSurvey.Pattern

variable {p q : Pattern} {r r₁ r₂ r' : Reading} {set : Char → Bool} {c : Char}
  {cs ds us rest chars : List Char} {least : Nat}

/-! ### Places ahead -/

/-- The characters ahead can be passed. -/
theorem exists_passes (h : r.rest = cs ++ rest) : ∃ r', Passes r cs r' ∧ r'.rest = rest := by
  induction cs generalizing r with
  | nil => exact ⟨r, .stay, h⟩
  | cons c more ih =>
    obtain ⟨r', hpasses, hrest⟩ := ih (r := r.past c (more ++ rest)) rfl
    exact ⟨r', .past h hpasses, hrest⟩

theorem Passes.trans (first : Passes r cs r₁) (second : Passes r₁ ds r₂) :
    Passes r (cs ++ ds) r₂ := by
  induction first with
  | stay => exact second
  | past ahead _ ih => exact .past ahead (ih second)

/-- The place behind given characters is the only one. -/
theorem Passes.unique (h₁ : Passes r cs r₁) (h₂ : Passes r cs r₂) : r₁ = r₂ := by
  induction h₁ with
  | stay => cases h₂; rfl
  | past ahead _ ih =>
    cases h₂ with
    | past ahead' more' =>
      obtain ⟨-, rfl⟩ := List.cons.inj (ahead.symm.trans ahead')
      exact ih more'

theorem Passes.split (h : Passes r (cs ++ ds) r₂) : ∃ r₁, Passes r cs r₁ ∧ Passes r₁ ds r₂ := by
  have hrest : r.rest = cs ++ (ds ++ r₂.rest) := by rw [h.rest_eq, List.append_assoc]
  obtain ⟨r₁, h₁, hrest₁⟩ := exists_passes hrest
  obtain ⟨r₃, h₃, -⟩ := exists_passes hrest₁
  rw [(h₁.trans h₃).unique h] at h₃
  exact ⟨r₁, h₁, h₃⟩

/-- The last character passed stands just before the place. -/
theorem Passes.before_eq (h : Passes r (cs ++ [c]) r') : r'.before = some c := by
  obtain ⟨r₁, -, h₁⟩ := h.split
  cases h₁ with
  | past _ more =>
    cases more
    rfl

theorem Passes.afterWord_eq (h : Passes r (cs ++ [c]) r') : r'.afterWord = Text.isWordChar c := by
  rw [Reading.afterWord, h.before_eq]
  rfl

/-! ### Readings by the form of the pattern -/

theorem passes_of_reads_text (h : Reads (text chars) r cs r') : Passes r chars r' := by
  cases h with
  | text passes => exact passes

theorem exists_of_reads_one (h : Reads (one set) r cs r') :
    ∃ c, set c = true ∧ Passes r [c] r' := by
  cases h with
  | one passes mem => exact ⟨_, mem, passes⟩

theorem exists_of_reads_many {greedy : Bool} (h : Reads (many greedy least set) r cs r') :
    Passes r cs r' ∧ (∀ c ∈ cs, set c = true) ∧ least ≤ cs.length := by
  cases h with
  | many passes mem enough => exact ⟨passes, mem, enough⟩

theorem exists_of_reads_cat (h : Reads (cat p q) r cs r') :
    ∃ r₁ ds es, Reads p r ds r₁ ∧ Reads q r₁ es r' := by
  cases h with
  | cat first second => exact ⟨_, _, _, first, second⟩

theorem reads_alt (h : Reads (alt p q) r cs r') : Reads p r cs r' ∨ Reads q r cs r' := by
  cases h with
  | altFirst first => exact .inl first
  | altSecond second => exact .inr second

theorem exists_of_reads_group {n : Nat} (h : Reads (group n p) r cs r') :
    ∃ r₁, Reads p r cs r₁ ∧
      r' = { r₁ with captures := ⟨n, r.rest, r₁.offset - r.offset⟩ :: r₁.captures } := by
  cases h with
  | group body => exact ⟨_, body, rfl⟩

theorem edge_of_reads_wordEdge (h : Reads wordEdge r cs r') :
    r.afterWord ≠ r.beforeWord ∧ r' = r := by
  cases h with
  | wordEdge edge => exact ⟨edge, rfl⟩

/-- Reading without groups is passing over what is read. -/
theorem Reads.passes (h : Reads p r cs r') (hp : p.groupless = true) : Passes r cs r' := by
  induction h with
  | one passes _ => exact passes
  | text passes => exact passes
  | many passes _ _ => exact passes
  | cat _ _ ih₁ ih₂ =>
    obtain ⟨h₁, h₂⟩ := Bool.and_eq_true_iff.1 hp
    exact (ih₁ h₁).trans (ih₂ h₂)
  | starMore _ _ ih₁ ih₂ => exact (ih₁ hp).trans (ih₂ hp)
  | altFirst _ ih => exact ih (Bool.and_eq_true_iff.1 hp).1
  | altSecond _ ih => exact ih (Bool.and_eq_true_iff.1 hp).2
  | group _ _ => simp [groupless] at hp
  | _ => exact .stay

/-! ### What is read first -/

/-- The pattern reads nothing at the place. -/
def Fails (p : Pattern) (r : Reading) : Prop := ∀ cs r', ¬ Reads p r cs r'

theorem Fails.run_eq {α : Type} (h : Fails p r) (next : Reading → Option α) :
    run p r next = none := by
  cases hrun : run p r next with
  | none => rfl
  | some a =>
    obtain ⟨cs, r', hreads, -⟩ := run_reads p hrun
    exact absurd hreads (h cs r')

theorem Fails.text (h : ¬ chars <+: r.rest) : Fails (text chars) r := fun _ _ hreads =>
  h ⟨_, (passes_of_reads_text hreads).rest_eq.symm⟩

theorem Fails.one (hr : r.rest = c :: rest) (hc : set c = false) : Fails (one set) r := by
  intro cs r' hreads
  obtain ⟨d, hd, hpasses⟩ := exists_of_reads_one hreads
  obtain rfl : d = c := List.head_eq_of_cons_eq (hpasses.rest_eq.symm.trans hr)
  rw [hc] at hd
  cases hd

theorem Fails.alt (hp : Fails p r) (hq : Fails q r) : Fails (alt p q) r :=
  fun _ _ hreads => (reads_alt hreads).elim (hp _ _) (hq _ _)

/-- The first character of a mark is not ahead. -/
theorem Fails.mark {mark : String} (hmark : mark.toList.head? = some c) (hrest : c ∉ r.rest.head?) :
    Fails (cat (lit mark) q) r := by
  intro es s hreads
  obtain ⟨s₁, _, _, htext, -⟩ := exists_of_reads_cat hreads
  obtain ⟨more, hcons⟩ := List.head?_eq_some_iff.1 hmark
  have hahead := (passes_of_reads_text htext).rest_eq
  rw [hcons] at hahead
  exact hrest (by rw [hahead]; rfl)

/-- A character that the pattern demands is not ahead. -/
theorem Fails.of_demands (hp : p.demands set = true) (h : ∀ c ∈ r.rest, set c = false) :
    Fails p r := by
  intro cs r' hreads
  obtain ⟨c, hc, hset⟩ := hreads.exists_of_demands hp
  rw [h c (hreads.rest_eq ▸ List.mem_append_left _ hc)] at hset
  exact Bool.false_ne_true hset

/-- Within a line nothing is read that has to begin one. -/
theorem Fails.lineStart (hr : r.before = some c) (hc : c ≠ '\n') : Fails (cat lineStart q) r := by
  intro cs r' hreads
  obtain ⟨r₁, ds, es, hstart, -⟩ := exists_of_reads_cat hreads
  cases hstart with
  | lineStart start =>
    rw [hr] at start
    exact hc (eq_of_beq start)

theorem Fails.catSecond (h : Fails q r) (hp : ∀ cs r', Reads p r cs r' → r' = r) :
    Fails (cat p q) r := by
  intro cs r' hreads
  obtain ⟨r₁, ds, es, hfirst, hsecond⟩ := exists_of_reads_cat hreads
  obtain rfl := hp _ _ hfirst
  exact h _ _ hsecond

/-- Behind the blanks ahead a text does not begin. -/
theorem Fails.blanksText (h : ¬ chars <+: r.rest.dropWhile Text.isBlank)
    (hc : chars.head?.map Text.isBlank = some false) :
    Fails (cat blanks (cat (.text chars) q)) r := by
  intro cs r' hreads
  obtain ⟨r₁, ds, es, hblanks, hsecond⟩ := exists_of_reads_cat hreads
  obtain ⟨hpasses, hds, -⟩ := exists_of_reads_many hblanks
  obtain ⟨r₂, es₁, es₂, htext, -⟩ := exists_of_reads_cat hsecond
  obtain ⟨c, hhead, hblank⟩ := Option.map_eq_some_iff.1 hc
  obtain ⟨more, rfl⟩ := List.head?_eq_some_iff.1 hhead
  have hrest := (passes_of_reads_text htext).rest_eq
  refine h ⟨r₂.rest, ?_⟩
  rw [hpasses.rest_eq, List.dropWhile_append_of_pos hds, hrest, List.cons_append,
    List.dropWhile_cons_of_neg (by rw [hblank]; exact Bool.false_ne_true)]

/-- Among its readings at `r` the pattern offers this one first. -/
structure ReadsFirst (p : Pattern) (r : Reading) (cs : List Char) (r' : Reading) : Prop where
  reads : Reads p r cs r'
  run_eq : ∀ {α : Type} (next : Reading → Option α), (next r').isSome → run p r next = next r'

theorem readText_of_passes (h : Passes r chars r') : readText chars r = some r' := by
  induction h with
  | stay => rfl
  | past ahead _ ih => rw [readText, ahead]; simpa using ih

theorem ReadsFirst.one (passes : Passes r [c] r') (mem : set c = true) :
    ReadsFirst (one set) r [c] r' where
  reads := .one passes mem
  run_eq next _ := by
    cases passes with
    | past ahead more =>
      cases more
      rw [run, ahead]
      exact if_pos mem

theorem ReadsFirst.text (passes : Passes r chars r') : ReadsFirst (text chars) r chars r' where
  reads := .text passes
  run_eq next _ := by rw [run, readText_of_passes passes]; rfl

theorem ReadsFirst.cat (first : ReadsFirst p r cs r₁) (second : ReadsFirst q r₁ ds r₂) :
    ReadsFirst (cat p q) r (cs ++ ds) r₂ where
  reads := .cat first.reads second.reads
  run_eq next h := by
    have hq := second.run_eq next h
    rw [run, first.run_eq _ (hq ▸ h), hq]

theorem ReadsFirst.altFirst (first : ReadsFirst p r cs r') : ReadsFirst (alt p q) r cs r' where
  reads := .altFirst first.reads
  run_eq next h := by
    obtain ⟨a, ha⟩ := Option.isSome_iff_exists.1 h
    rw [run, first.run_eq next h, ha]

/-- The second pattern is read where the first one cannot be. -/
theorem ReadsFirst.altSecond (fails : Fails p r) (second : ReadsFirst q r cs r') :
    ReadsFirst (alt p q) r cs r' where
  reads := .altSecond second.reads
  run_eq next h := by
    rw [run, fails.run_eq]
    exact second.run_eq next h

theorem ReadsFirst.nothing : ReadsFirst nothing r [] r where
  reads := .nothing
  run_eq _ _ := rfl

/-- A pattern that may be left out is left out where it cannot be read. -/
theorem ReadsFirst.maybeNot (fails : Fails p r) : ReadsFirst (maybe p) r [] r :=
  .altSecond fails .nothing

/-- A text that may be left out is read where it stands. -/
theorem exists_readsFirst_maybe (hcs : cs = chars ∨ cs = []) (hr : r.rest = cs ++ rest)
    (hrest : ¬ chars <+: rest) :
    ∃ r', ReadsFirst (maybe (text chars)) r cs r' ∧ Passes r cs r' ∧ r'.rest = rest := by
  obtain ⟨r', hpasses, hr'⟩ := exists_passes hr
  refine ⟨r', ?_, hpasses, hr'⟩
  rcases hcs with rfl | rfl
  · exact .altFirst (.text hpasses)
  · cases hpasses
    exact .maybeNot (.text (hr'.symm ▸ hrest))

/-- The place with a capture that began at `r`. -/
def Reading.remember (n : Nat) (r r' : Reading) : Reading :=
  { r' with captures := ⟨n, r.rest, r'.offset - r.offset⟩ :: r'.captures }

theorem Passes.captures_remember {n : Nat} (passes : Passes r cs r₁) :
    (r.remember n r₁).captures = ⟨n, cs ++ r₁.rest, cs.length⟩ :: r.captures := by
  rw [Reading.remember, passes.offset_eq, Nat.add_sub_cancel_left, passes.rest_eq,
    passes.captures_eq]

theorem ReadsFirst.group {n : Nat} (body : ReadsFirst p r cs r') :
    ReadsFirst (group n p) r cs (r.remember n r') where
  reads := .group body.reads
  run_eq next h := by
    rw [run, body.run_eq _ h]
    rfl

theorem ReadsFirst.wordEdge (edge : r.afterWord ≠ r.beforeWord) :
    ReadsFirst wordEdge r [] r where
  reads := .wordEdge edge
  run_eq next _ := by rw [run]; exact if_neg fun h => edge (eq_of_beq h)

theorem ReadsFirst.lineStart (start : r.before.all (· == '\n') = true) :
    ReadsFirst lineStart r [] r where
  reads := .lineStart start
  run_eq next _ := by rw [run]; exact if_pos start

theorem ReadsFirst.textEnd (stop : r.rest = []) : ReadsFirst textEnd r [] r where
  reads := .textEnd (by rw [stop]; rfl)
  run_eq next _ := by rw [run, stop]; rfl

theorem stops_of_rest (h : r.rest = c :: rest) (hc : set c = false) :
    ∀ d ∈ r.rest.head?, set d = false := by
  intro d hd
  rw [h] at hd
  obtain rfl := Option.some.inj hd
  exact hc

/-- The longest run is the one that no further character of the set follows. -/
theorem ReadsFirst.manyLongest (passes : Passes r cs r') (mem : ∀ c ∈ cs, set c = true)
    (enough : least ≤ cs.length) (stop : ∀ c ∈ r'.rest.head?, set c = false) :
    ReadsFirst (many true least set) r cs r' where
  reads := .many passes mem enough
  run_eq next h := by
    show runLongest set next least r.rest r = next r'
    induction passes generalizing least with
    | @stay r =>
      obtain rfl : least = 0 := Nat.le_zero.1 enough
      cases hrest : r.rest with
      | nil => rfl
      | cons d more =>
        have hd : set d = false := stop d (by rw [hrest]; rfl)
        rw [runLongest, hd]
        rfl
    | @past r r' c rest cs ahead more ih =>
      obtain ⟨hc, hcs⟩ := List.forall_mem_cons.1 mem
      have hmore : runLongest set next (least - 1) rest (r.past c rest) = next r' :=
        ih hcs (by rw [List.length_cons] at enough; omega) stop h
      obtain ⟨a, ha⟩ := Option.isSome_iff_exists.1 h
      rw [ahead, runLongest, if_pos hc, hmore, ha]

/-- A longest run is remembered where it stands. -/
theorem exists_readsFirst_groupMany {n : Nat} (hr : r.rest = cs ++ rest)
    (mem : ∀ c ∈ cs, set c = true) (enough : least ≤ cs.length)
    (stop : ∀ c ∈ rest.head?, set c = false) :
    ∃ r', ReadsFirst (.group n (many true least set)) r cs r' ∧ r'.rest = rest ∧
      r'.captures = ⟨n, cs ++ rest, cs.length⟩ :: r.captures := by
  obtain ⟨r', hpasses, rfl⟩ := exists_passes hr
  exact ⟨r.remember n r', (ReadsFirst.manyLongest hpasses mem enough stop).group, rfl,
    hpasses.captures_remember⟩

theorem ReadsFirst.someBlanks (passes : Passes r cs r') (blank : ∀ c ∈ cs, Text.isBlank c = true)
    (hr : r'.rest = c :: rest) (hc : Text.isBlank c = false) : ReadsFirst blanks r cs r' :=
  .manyLongest passes blank (Nat.zero_le _) (stops_of_rest hr hc)

theorem ReadsFirst.noBlanks (hr : r.rest = c :: rest) (hc : Text.isBlank c = false) :
    ReadsFirst blanks r [] r :=
  .someBlanks .stay (by simp) hr hc

theorem ReadsFirst.oneBlank (passes : Passes r [' '] r') (hr : r'.rest = c :: rest)
    (hc : Text.isBlank c = false) : ReadsFirst blanks1 r [' '] r' :=
  .manyLongest passes (List.forall_mem_singleton.2 rfl) (Nat.le_refl _) (stops_of_rest hr hc)

/-- A run of characters of a set may begin one character earlier. -/
theorem reads_past_of_many (ahead : r.rest = c :: rest) (mem : set c = true)
    (h : Reads (cat (many false 0 set) q) (r.past c rest) cs r') :
    Reads (cat (many false 0 set) q) r (c :: cs) r' := by
  cases h with
  | cat run second =>
    cases run with
    | many passes hmem _ =>
      exact .cat (.many (.past ahead passes) (List.forall_mem_cons.2 ⟨mem, hmem⟩) (Nat.zero_le _))
        second

/-- A shortest run ends at once where what follows can be read. -/
theorem ReadsFirst.shortestNow (second : ReadsFirst q r ds r₂) :
    ReadsFirst (.cat (many false 0 set) q) r ds r₂ where
  reads := .cat (.many .stay (by simp) (Nat.zero_le _)) second.reads
  run_eq next h := by
    show runShortest set (fun s => run q s next) 0 r.rest r = next r₂
    have hq := second.run_eq next h
    obtain ⟨a, ha⟩ := Option.isSome_iff_exists.1 h
    cases hrest : r.rest with
    | nil => rw [runShortest]; exact hq
    | cons d more => simp only [runShortest, beq_self_eq_true, if_true, hq, ha]

/-- A shortest run goes on over places where what follows cannot be read. -/
theorem ReadsFirst.shortestLater (passes : Passes r cs r₁) (mem : ∀ c ∈ cs, set c = true)
    (early : ∀ ls s, ls ≠ [] → ls <:+ cs → Passes s ls r₁ → Fails q s)
    (later : ReadsFirst (.cat (many false 0 set) q) r₁ ds r₂) :
    ReadsFirst (.cat (many false 0 set) q) r (cs ++ ds) r₂ := by
  induction passes with
  | stay => exact later
  | @past r r₁ c rest cs ahead passes ih =>
    obtain ⟨hc, hcs⟩ := List.forall_mem_cons.1 mem
    have hmore := ih hcs
      (fun ls s hne hls => early ls s hne (hls.trans (List.suffix_cons c cs))) later
    refine ⟨reads_past_of_many ahead hc hmore.reads, fun next h => ?_⟩
    have hhere : run q r next = none :=
      (early _ r (List.cons_ne_nil c cs) (List.suffix_refl _) (.past ahead passes)).run_eq next
    have hlater := hmore.run_eq next h
    show runShortest set (fun s => run q s next) 0 r.rest r = next r₂
    simp only [ahead, runShortest, beq_self_eq_true, if_true, hhere, hc]
    exact hlater

/-- First readings of a pattern one after another, up to a place where it fails. -/
inductive Repeats (p : Pattern) : Reading → List Char → Reading → Prop where
  | done {r : Reading} (fails : Fails p r) : Repeats p r [] r
  | more {r r₁ r₂ : Reading} {cs ds : List Char} (first : ReadsFirst p r cs r₁)
      (nonempty : cs ≠ []) (rest : Repeats p r₁ ds r₂) : Repeats p r (cs ++ ds) r₂

theorem Repeats.reads (h : Repeats p r cs r') : Reads (star p) r cs r' := by
  induction h with
  | done _ => exact .starNone
  | more first _ _ ih => exact .starMore first.reads ih

/-- Each repetition uses up a character, so there are enough of them. -/
theorem Repeats.runStar_eq {α : Type} {next : Reading → Option α} {fuel : List Char}
    (h : Repeats p r cs r') (hnext : (next r').isSome) (hfuel : cs.length ≤ fuel.length) :
    runStar (fun s next => run p s next) next fuel r = next r' := by
  induction h generalizing fuel with
  | @done r fails =>
    cases fuel with
    | nil => rfl
    | cons _ fuel =>
      rw [runStar]
      simp only [fails.run_eq]
  | @more r r₁ r₂ cs ds first nonempty _ ih =>
    have hpos := List.length_pos_iff.2 nonempty
    rw [List.length_append] at hfuel
    cases fuel with
    | nil =>
      rw [List.length_nil] at hfuel
      omega
    | cons _ fuel =>
      have hoffset : r.offset < r₁.offset := by
        rw [first.reads.offset_eq]
        omega
      have hmore : runStar (fun s next => run p s next) next fuel r₁ = next r₂ :=
        ih hnext (by rw [List.length_cons] at hfuel; omega)
      obtain ⟨a, ha⟩ := Option.isSome_iff_exists.1 hnext
      have hfirst := first.run_eq
        (fun s => if r.offset < s.offset then runStar (fun s next => run p s next) next fuel s
          else none) (by rw [if_pos hoffset, hmore, ha]; rfl)
      rw [if_pos hoffset, hmore, ha] at hfirst
      simp only [runStar, hfirst, ha]

theorem ReadsFirst.star (h : Repeats p r cs r') : ReadsFirst (star p) r cs r' where
  reads := h.reads
  run_eq next hnext := by
    rw [run]
    refine h.runStar_eq hnext ?_
    rw [h.reads.rest_eq, List.length_append]
    exact Nat.le_add_right ..

/-! ### What a search finds -/

/-- The match of a reading. -/
def matchOf (r : Reading) (cs : List Char) (r' : Reading) : Match :=
  ⟨r.offset, cs.length, r.rest, r'.captures⟩

theorem matchAt?_eq_none (h : Fails p r) : matchAt? p r = none := h.run_eq _

theorem ReadsFirst.matchAt?_eq (h : ReadsFirst p r cs r') :
    matchAt? p r = some (matchOf r cs r') := by
  rw [matchAt?, h.run_eq _ rfl, h.reads.offset_eq, Nat.add_sub_cancel_left]
  rfl

theorem ReadsFirst.leading_eq (h : ReadsFirst p (.atStart (cs ++ rest)) cs r') :
    p.leading (cs ++ rest) = cs := by
  rw [leading, matchStart?, h.matchAt?_eq]
  exact List.take_left' rfl

theorem Match.group_of_find? {m : Match} {n : Nat} {s t : List Char}
    (h : m.captures.find? (·.number == n) = some ⟨n, s ++ t, s.length⟩) : m.group n = s := by
  rw [group, group?, h]
  exact List.take_left' rfl

theorem Match.group_eq {m : Match} {n : Nat} {s t : List Char} {captures : List Capture}
    (h : m.captures = ⟨n, s ++ t, s.length⟩ :: captures) : m.group n = s :=
  m.group_of_find? (by rw [h, List.find?_cons_of_pos (by simp)])

/-- Going through the text ahead of a place: the matches and what becomes of the text when each of
    them is changed. -/
inductive Scans (p : Pattern) (change : Match → List Char) :
    Reading → List Match → List Char → Prop where
  | done {r : Reading} (ahead : r.rest = []) : Scans p change r [] []
  | miss {r : Reading} {c : Char} {rest out : List Char} {ms : List Match}
      (ahead : r.rest = c :: rest) (fails : Fails p r)
      (more : Scans p change (r.past c rest) ms out) : Scans p change r ms (c :: out)
  | hit {r r₁ r' : Reading} {cs out : List Char} {ms : List Match}
      (first : ReadsFirst p r cs r') (nonempty : cs ≠ []) (passes : Passes r cs r₁)
      (more : Scans p change r₁ ms out) :
      Scans p change r (matchOf r cs r' :: ms) (change (matchOf r cs r') ++ out)

variable {change : Match → List Char} {ms : List Match} {out : List Char}

/-- Where nothing is skipped, the search asks for a match that starts at the place. -/
theorem matchesFrom_place {c : Char} {rest : List Char} (hr : r.captures = [])
    (ahead : r.rest = c :: rest) :
    matchesFrom p r.before r.offset 0 r.rest =
      match matchAt? p r with
      | some m => m :: matchesFrom p (some c) (r.offset + 1) (m.length - 1) rest
      | none => matchesFrom p (some c) (r.offset + 1) 0 rest := by
  obtain ⟨before, _, offset, _⟩ := r
  obtain rfl := hr
  obtain rfl := ahead
  rfl

theorem replaceFrom_place {c : Char} {rest : List Char} (hr : r.captures = [])
    (ahead : r.rest = c :: rest) :
    replaceFrom p change r.before r.offset 0 r.rest =
      match matchAt? p r with
      | some m => change m ++ replaceFrom p change (some c) (r.offset + 1) (m.length - 1) rest
      | none => c :: replaceFrom p change (some c) (r.offset + 1) 0 rest := by
  obtain ⟨before, _, offset, _⟩ := r
  obtain rfl := hr
  obtain rfl := ahead
  rfl

/-- What a match has covered is skipped. -/
theorem Passes.skip (p : Pattern) (change : Match → List Char) (passes : Passes r cs r') :
    matchesFrom p r.before r.offset cs.length r.rest = matchesFrom p r'.before r'.offset 0 r'.rest ∧
      replaceFrom p change r.before r.offset cs.length r.rest =
        replaceFrom p change r'.before r'.offset 0 r'.rest := by
  induction passes with
  | stay => exact ⟨rfl, rfl⟩
  | past ahead _ ih =>
    rw [ahead]
    exact ih

theorem Scans.from_eq (h : Scans p change r ms out) (hr : r.captures = []) :
    matchesFrom p r.before r.offset 0 r.rest = ms ∧
      replaceFrom p change r.before r.offset 0 r.rest = out := by
  induction h with
  | done ahead =>
    rw [ahead]
    exact ⟨rfl, rfl⟩
  | @miss r c rest out ms ahead fails more ih =>
    obtain ⟨hms, hout⟩ := ih hr
    rw [matchesFrom_place hr ahead, replaceFrom_place hr ahead, matchAt?_eq_none fails]
    exact ⟨hms, congrArg (c :: ·) hout⟩
  | @hit r r₁ r' cs out ms first nonempty passes more ih =>
    obtain ⟨hms, hout⟩ := ih (passes.captures_eq.trans hr)
    cases passes with
    | stay => exact absurd rfl nonempty
    | @past _ _ c rest cs ahead hpasses =>
      obtain ⟨hskip, hskip'⟩ := hpasses.skip p change
      rw [matchesFrom_place hr ahead, replaceFrom_place hr ahead, first.matchAt?_eq]
      exact ⟨congrArg _ (hskip.trans hms), congrArg _ (hskip'.trans hout)⟩

theorem Scans.findAll_eq {text : List Char} (h : Scans p change (.atStart text) ms out) :
    p.findAll text = ms := (h.from_eq rfl).1

theorem Scans.replace_eq {text : List Char} (h : Scans p change (.atStart text) ms out) :
    p.replace change text = out := (h.from_eq rfl).2

/-- Characters where the pattern fails stay as they are. -/
theorem Scans.misses (passes : Passes r us r')
    (fails : ∀ ls s, ls ≠ [] → ls <:+ us → Passes s ls r' → Fails p s)
    (more : Scans p change r' ms out) : Scans p change r ms (us ++ out) := by
  induction passes with
  | stay => exact more
  | @past r r' c rest cs ahead passes ih =>
    have hmore := ih (fun ls s hne hls => fails ls s hne (hls.trans (List.suffix_cons c cs))) more
    exact .miss ahead
      (fails _ r (List.cons_ne_nil c cs) (List.suffix_refl _) (.past ahead passes)) hmore

/-- Where the pattern fails everywhere nothing is found and nothing changes. -/
theorem Scans.none (fails : ∀ us s, Passes r us s → Fails p s) : Scans p change r [] r.rest := by
  generalize hrest : r.rest = rest
  induction rest generalizing r with
  | nil => exact .done hrest
  | cons c rest ih =>
    exact .miss hrest (fails [] r .stay) (ih (fun us s h => fails (c :: us) s (.past hrest h)) rfl)

/-! ### Where matches are found -/

variable {m : Match} {skip : Nat} {text : List Char}

private theorem exists_place_of_mem (hr : r.captures = [])
    (hm : m ∈ matchesFrom p r.before r.offset skip r.rest) :
    ∃ cs s, Passes r cs s ∧ matchAt? p s = some m := by
  generalize hrest : r.rest = rest at hm
  induction rest generalizing r skip with
  | nil => exact absurd hm List.not_mem_nil
  | cons c rest ih =>
    have hlater : ∀ {skip}, m ∈ matchesFrom p (some c) (r.offset + 1) skip rest →
        ∃ cs s, Passes r cs s ∧ matchAt? p s = some m := fun hm =>
      have ⟨cs, s, hpasses, hmatch⟩ := ih (r := r.past c rest) hr rfl hm
      ⟨c :: cs, s, .past hrest hpasses, hmatch⟩
    cases skip with
    | succ skip => exact hlater hm
    | zero =>
      rw [matchesFrom] at hm
      split at hm
      · rename_i m' hmatch
        rcases List.mem_cons.1 hm with rfl | hm
        · exact ⟨[], r, .stay, by rw [← hmatch, ← hrest, ← hr]⟩
        · exact hlater hm
      · exact hlater hm

/-- A match is found at some place of the text. -/
theorem exists_place_of_mem_findAll (hm : m ∈ p.findAll text) :
    ∃ cs s, Passes (.atStart text) cs s ∧ matchAt? p s = some m :=
  exists_place_of_mem (r := .atStart text) rfl hm

private theorem matchesFrom_ne_nil (hr : r.captures = []) (passes : Passes r cs r')
    (hmatch : matchAt? p r' = some m) (hne : r'.rest ≠ []) :
    matchesFrom p r.before r.offset 0 r.rest ≠ [] := by
  induction passes with
  | stay =>
    obtain ⟨c, rest, ahead⟩ := List.exists_cons_of_ne_nil hne
    rw [matchesFrom_place hr ahead, hmatch]
    exact List.cons_ne_nil _ _
  | past ahead _ ih =>
    rw [matchesFrom_place hr ahead]
    split
    · exact List.cons_ne_nil _ _
    · exact ih hr hmatch hne

/-- If the pattern matches somewhere, something is found. -/
theorem findAll_ne_nil (passes : Passes (.atStart text) cs r') (hmatch : matchAt? p r' = some m)
    (hne : r'.rest ≠ []) : p.findAll text ≠ [] := matchesFrom_ne_nil rfl passes hmatch hne

private theorem mem_matchesFrom (hr : r.captures = []) (passes : Passes r cs r')
    (hskip : skip ≤ cs.length) (hmatch : matchAt? p r' = some m) (hne : r'.rest ≠ [])
    (apart : ∀ ds s m', Passes s ds r' → ds ≠ [] → matchAt? p s = some m' →
      m'.length ≤ ds.length) :
    m ∈ matchesFrom p r.before r.offset skip r.rest := by
  induction passes generalizing skip with
  | stay =>
    obtain rfl := Nat.le_zero.1 hskip
    obtain ⟨c, rest, ahead⟩ := List.exists_cons_of_ne_nil hne
    rw [matchesFrom_place hr ahead, hmatch]
    exact List.mem_cons_self
  | @past r r' c rest cs ahead passes ih =>
    have hlater : ∀ {skip}, skip ≤ cs.length →
        m ∈ matchesFrom p (some c) (r.offset + 1) skip rest := fun hskip =>
      ih hr hskip hmatch hne apart
    cases skip with
    | succ skip =>
      rw [ahead]
      exact hlater (Nat.le_of_succ_le_succ hskip)
    | zero =>
      rw [matchesFrom_place hr ahead]
      split
      · rename_i m' hmatch'
        have hlength := apart (c :: cs) r m' (.past ahead passes) (List.cons_ne_nil _ _) hmatch'
        rw [List.length_cons] at hlength
        exact List.mem_cons_of_mem _ (hlater (by omega))
      · exact hlater (Nat.zero_le _)

/-- A match that no earlier one reaches into is found. -/
theorem mem_findAll (passes : Passes (.atStart text) cs r') (hmatch : matchAt? p r' = some m)
    (hne : r'.rest ≠ []) (apart : ∀ ds s m', Passes s ds r' → ds ≠ [] →
      matchAt? p s = some m' → m'.length ≤ ds.length) : m ∈ p.findAll text :=
  mem_matchesFrom rfl passes (Nat.zero_le _) hmatch hne apart

/-- A pattern that fails at every place is found nowhere. -/
theorem findAll_eq_nil (fails : ∀ cs s, Passes (.atStart text) cs s → Fails p s) :
    p.findAll text = [] := by
  refine List.eq_nil_iff_forall_not_mem.2 fun m hm => ?_
  obtain ⟨cs, s, hpasses, hmatch⟩ := exists_place_of_mem_findAll hm
  rw [matchAt?_eq_none (fails cs s hpasses)] at hmatch
  simp at hmatch

/-- What a group has read is a part of the text. -/
theorem group_infix_of_mem_findAll (hm : m ∈ p.findAll text) (n : Nat) : m.group n <:+: text := by
  obtain ⟨cs, s, hpasses, hmatch⟩ := exists_place_of_mem_findAll hm
  obtain ⟨cs', r', hreads, hm'⟩ := run_reads p hmatch
  obtain rfl := Option.some.inj hm'
  have hrest : s.rest <:+ text := ⟨cs, hpasses.rest_eq.symm⟩
  unfold Match.group Match.group?
  cases hfind : r'.captures.find? (·.number == n) with
  | none => exact List.nil_infix
  | some k =>
    have hk : k.source <:+ s.rest := by
      rcases hreads.source_suffix k (List.mem_of_find?_eq_some hfind) with hk | hk
      · rw [hpasses.captures_eq] at hk
        exact absurd hk List.not_mem_nil
      · exact hk
    exact (List.take_prefix _ _).isInfix.trans (hk.trans hrest).isInfix

end CodeSurvey.Pattern
