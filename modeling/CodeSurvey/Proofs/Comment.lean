import CodeSurvey.Comment
import CodeSurvey.Proofs.Pattern.First
import CodeSurvey.Proofs.Text.Pieces

/-!
What is left of a text when its comments are removed. Main statements: a block comment reaches to
the first closer behind its opener, an opener without a closer opens nothing; no double slash is
left, and a text without one stays as it is.
-/

namespace CodeSurvey.Comment

open Pattern

variable {text rest after : List Char} {r r' : Reading}

/-! ### Block comments -/

/-- What stands behind the first block closer. -/
def behindCloser? : List Char → Option (List Char)
  | '*' :: '/' :: rest => some rest
  | _ :: rest => behindCloser? rest
  | [] => none

theorem length_lt_of_behindCloser? (h : behindCloser? text = some after) :
    after.length < text.length := by
  fun_induction behindCloser? text with
  | case1 rest =>
    obtain rfl := Option.some.inj h
    simp only [List.length_cons]
    omega
  | case2 c rest _ ih => exact Nat.lt_succ_of_lt (ih h)
  | case3 => simp at h

/-- The text without block comments, cut out from the left. -/
def withoutBlocks : List Char → List Char
  | '/' :: '*' :: rest =>
    match _ : behindCloser? rest with
    | some after => withoutBlocks after
    | none => '/' :: withoutBlocks ('*' :: rest)
  | c :: rest => c :: withoutBlocks rest
  | [] => []
termination_by text => text.length
decreasing_by
  · have := length_lt_of_behindCloser? (by assumption)
    simp only [List.length_cons]
    omega
  all_goals simp

/-- The inside of a block comment holds no closer. -/
theorem exists_inside_of_behindCloser? (h : behindCloser? text = some after) :
    ∃ inside, text = inside ++ '*' :: '/' :: after ∧
      ∀ ls, ls ≠ [] → ls <:+ inside → ∀ rest, ls ++ '*' :: '/' :: after ≠ '*' :: '/' :: rest := by
  fun_induction behindCloser? text with
  | case1 rest =>
    obtain rfl := Option.some.inj h
    exact ⟨[], rfl, fun ls hne hls => absurd (List.suffix_nil.1 hls) hne⟩
  | case2 d rest hno ih =>
    obtain ⟨inside, rfl, hinside⟩ := ih h
    refine ⟨d :: inside, rfl, fun ls hne hls rest hrest => ?_⟩
    rcases List.suffix_cons_iff.1 hls with rfl | hls
    · obtain ⟨rfl, hcloser⟩ := List.cons.inj hrest
      exact hno rest rfl hcloser
    · exact hinside ls hne hls rest hrest
  | case3 => simp at h

theorem behindCloser?_ne_none (inside after : List Char) :
    behindCloser? (inside ++ '*' :: '/' :: after) ≠ none := by
  induction inside with
  | nil => simp [behindCloser?]
  | cons c inside ih =>
    rw [List.cons_append]
    generalize inside ++ '*' :: '/' :: after = rest at ih
    rw [behindCloser?.eq_def]
    split
    · simp
    · rename_i heq
      obtain ⟨-, rfl⟩ := List.cons.inj heq
      exact ih
    · simp at *

theorem rest_of_reads_block {cs : List Char} (h : Reads block r cs r') :
    ∃ inside, r.rest = '/' :: '*' :: (inside ++ '*' :: '/' :: r'.rest) := by
  obtain ⟨r₁, _, _, hopener, hmore⟩ := exists_of_reads_cat h
  obtain ⟨r₂, inside, _, hlazy, hcloser⟩ := exists_of_reads_cat hmore
  refine ⟨inside, ?_⟩
  rw [(passes_of_reads_text hopener).rest_eq, hlazy.rest_eq, (passes_of_reads_text hcloser).rest_eq]
  rfl

/-- A block comment ends with the first closer behind its opener. -/
theorem readsFirst_block (hr : r.rest = '/' :: '*' :: rest) (h : behindCloser? rest = some after) :
    ∃ cs r₁ r', ReadsFirst block r ('/' :: cs) r₁ ∧ Passes r ('/' :: cs) r' ∧ r'.rest = after := by
  obtain ⟨inside, rfl, hinside⟩ := exists_inside_of_behindCloser? h
  obtain ⟨r₁, h₁, hr₁⟩ := exists_passes (show r.rest = "/*".toList ++ _ from hr)
  obtain ⟨r₂, h₂, hr₂⟩ := exists_passes hr₁
  obtain ⟨r₃, h₃, hr₃⟩ := exists_passes (show r₂.rest = "*/".toList ++ _ from hr₂)
  refine ⟨_, r₃, r₃, (ReadsFirst.text h₁).cat (.shortestLater h₂ (fun _ _ => rfl) ?_
    (.shortestNow (.text h₃))), h₁.trans (h₂.trans h₃), hr₃⟩
  intro ls s hne hls hpasses cs r' hreads
  have hrest : s.rest = ls ++ '*' :: '/' :: after := by rw [hpasses.rest_eq, hr₂]
  exact hinside ls hne hls _ (hrest.symm.trans (passes_of_reads_text hreads).rest_eq)

theorem dropKind_block (code : List Char) : dropKind block code = withoutBlocks code := by
  suffices h : ∀ text r, r.rest = text →
      ∃ ms, Scans block (fun _ => []) r ms (withoutBlocks text) by
    obtain ⟨ms, hms⟩ := h code (.atStart code) rfl
    exact hms.replace_eq
  intro text
  fun_induction withoutBlocks text with
  | case1 rest after hcloser ih =>
    intro r hr
    obtain ⟨cs, r₁, r', hfirst, hpasses, hr'⟩ := readsFirst_block hr hcloser
    obtain ⟨ms, hms⟩ := ih r' hr'
    exact ⟨_, .hit hfirst (List.cons_ne_nil _ _) hpasses hms⟩
  | case2 rest hcloser ih =>
    intro r hr
    obtain ⟨ms, hms⟩ := ih (r.past '/' ('*' :: rest)) rfl
    refine ⟨ms, .miss hr (fun cs r' hreads => ?_) hms⟩
    obtain ⟨inside, hrest⟩ := rest_of_reads_block hreads
    rw [hr] at hrest
    rw [(List.cons.inj (List.cons.inj hrest).2).2] at hcloser
    exact behindCloser?_ne_none inside _ hcloser
  | case3 c rest hno ih =>
    intro r hr
    obtain ⟨ms, hms⟩ := ih (r.past c rest) rfl
    refine ⟨ms, .miss hr (fun cs r' hreads => ?_) hms⟩
    obtain ⟨inside, hrest⟩ := rest_of_reads_block hreads
    obtain ⟨hc, hrest⟩ := List.cons.inj (hr.symm.trans hrest)
    exact hno _ hc hrest
  | case4 => exact fun r hr => ⟨[], .done hr⟩

/-- Without an opener nothing is removed. -/
theorem withoutBlocks_eq_self (h : ¬ ['/', '*'] <:+: text) : withoutBlocks text = text := by
  fun_induction withoutBlocks text with
  | case1 rest _ _ _ => exact absurd ⟨[], rest, rfl⟩ h
  | case2 rest _ _ => exact absurd ⟨[], rest, rfl⟩ h
  | case3 c rest _ ih => rw [ih fun hopener => h (hopener.trans (List.suffix_cons _ _).isInfix)]
  | case4 => rfl

/-! ### Double slashes -/

/-- The text without double-slash comments. -/
def withoutSlashLines : List Char → List Char
  | '/' :: '/' :: rest => withoutSlashLines (rest.dropWhile (· != '\n'))
  | c :: rest => c :: withoutSlashLines rest
  | [] => []
termination_by text => text.length
decreasing_by
  · have := (List.dropWhile_sublist (· != '\n') (l := rest)).length_le
    simp only [List.length_cons]
    omega
  · simp

theorem rest_of_reads_slashLine {cs : List Char} (h : Reads slashLine r cs r') :
    ∃ rest, r.rest = '/' :: '/' :: rest := by
  obtain ⟨r₁, _, _, hopener, -⟩ := exists_of_reads_cat h
  exact ⟨r₁.rest, (passes_of_reads_text hopener).rest_eq⟩

/-- A comment ends before the next line feed. -/
theorem readsFirst_slashLine (hr : r.rest = '/' :: '/' :: rest) :
    ∃ cs r', ReadsFirst slashLine r ('/' :: cs) r' ∧ Passes r ('/' :: cs) r' ∧
      r'.rest = rest.dropWhile (· != '\n') := by
  obtain ⟨r₁, h₁, hr₁⟩ := exists_passes (show r.rest = "//".toList ++ _ from hr)
  obtain ⟨r₂, h₂, hr₂⟩ := exists_passes
    (hr₁.trans (List.takeWhile_append_dropWhile (p := (· != '\n'))).symm)
  refine ⟨_, r₂, (ReadsFirst.text h₁).cat (.manyLongest h₂ ?_ (Nat.zero_le _) ?_), h₁.trans h₂, hr₂⟩
  · exact List.all_eq_true.1 List.all_takeWhile
  · intro c hc
    rw [hr₂] at hc
    have := List.head?_dropWhile_not (· != '\n') rest
    rw [Option.mem_def.1 hc] at this
    exact this

theorem dropKind_slashLine (code : List Char) :
    dropKind slashLine code = withoutSlashLines code := by
  suffices h : ∀ text r, r.rest = text →
      ∃ ms, Scans slashLine (fun _ => []) r ms (withoutSlashLines text) by
    obtain ⟨ms, hms⟩ := h code (.atStart code) rfl
    exact hms.replace_eq
  intro text
  fun_induction withoutSlashLines text with
  | case1 rest ih =>
    intro r hr
    obtain ⟨cs, r', hfirst, hpasses, hr'⟩ := readsFirst_slashLine hr
    obtain ⟨ms, hms⟩ := ih r' hr'
    exact ⟨_, .hit hfirst (List.cons_ne_nil _ _) hpasses hms⟩
  | case2 c rest hno ih =>
    intro r hr
    obtain ⟨ms, hms⟩ := ih (r.past c rest) rfl
    refine ⟨ms, .miss hr (fun cs r' hreads => ?_) hms⟩
    obtain ⟨more, hrest⟩ := rest_of_reads_slashLine hreads
    obtain ⟨hc, hrest⟩ := List.cons.inj (hr.symm.trans hrest)
    exact hno _ hc hrest
  | case3 => exact fun r hr => ⟨[], .done hr⟩

/-- No double-slash comment is open where the text ends: on its last line there is no double
    slash. -/
def Uncommented (text : List Char) : Prop :=
  ∀ line, line <:+ text → '\n' ∉ line → ¬ ['/', '/'] <:+: line

theorem Uncommented.of_suffix (h : Uncommented text) (hs : rest <:+ text) : Uncommented rest :=
  fun line hline => h line (hline.trans hs)

/-- A comment in such a text ends in it. -/
theorem Uncommented.behind_comment (h : Uncommented ('/' :: '/' :: rest)) :
    rest.dropWhile (· != '\n') ≠ [] ∧
      (rest.dropWhile (· != '\n')).getLast? = ('/' :: '/' :: rest).getLast? ∧
      rest.dropWhile (· != '\n') <:+ '/' :: '/' :: rest := by
  have hmem : '\n' ∈ rest := by
    by_contra hmem
    exact h _ List.suffix_rfl (by simpa using hmem) ⟨[], rest, rfl⟩
  have hne : rest.dropWhile (· != '\n') ≠ [] := by
    intro hnil
    have hall := List.takeWhile_append_dropWhile (p := (· != '\n')) (l := rest)
    rw [hnil, List.append_nil] at hall
    rw [← hall] at hmem
    exact absurd (List.all_eq_true.1 List.all_takeWhile _ hmem) (by decide)
  have hsuffix : rest.dropWhile (· != '\n') <:+ '/' :: '/' :: rest :=
    (List.dropWhile_suffix _).trans ⟨['/', '/'], rfl⟩
  refine ⟨hne, ?_, hsuffix⟩
  obtain ⟨front, hfront⟩ := hsuffix
  rw [← hfront, List.getLast?_append_of_ne_nil front hne]

/-- Where no comment is open the comments in front and those behind are removed on their own,
    unless two slashes meet. -/
theorem withoutSlashLines_append (h : Uncommented text)
    (hmeet : text.getLast? = some '/' → rest.head? ≠ some '/') :
    withoutSlashLines (text ++ rest) = withoutSlashLines text ++ withoutSlashLines rest := by
  fun_induction withoutSlashLines text with
  | case1 more ih =>
    obtain ⟨hne, hlast, hsuffix⟩ := h.behind_comment
    rw [List.cons_append, List.cons_append, withoutSlashLines, List.dropWhile_append,
      if_neg (by simpa using hne)]
    exact ih (h.of_suffix hsuffix) (hlast ▸ hmeet)
  | case2 c more hno ih =>
    rw [List.cons_append, withoutSlashLines, ih (h.of_suffix (List.suffix_cons c more)),
      List.cons_append]
    · intro hmore
      exact hmeet (by rw [List.getLast?_cons, hmore]; rfl)
    · rintro behind rfl hbehind
      cases more with
      | nil => exact hmeet rfl (by rw [show rest = '/' :: behind from hbehind]; rfl)
      | cons d more => exact hno more rfl (by rw [(List.cons.inj hbehind).1])
  | case3 => rfl

theorem getLast?_withoutSlashLines (h : Uncommented text) :
    (withoutSlashLines text).getLast? = text.getLast? := by
  fun_induction withoutSlashLines text with
  | case1 more ih =>
    obtain ⟨-, hlast, hsuffix⟩ := h.behind_comment
    rw [ih (h.of_suffix hsuffix), hlast]
  | case2 c more hno ih =>
    rw [List.getLast?_cons, List.getLast?_cons, ih (h.of_suffix (List.suffix_cons c more))]
  | case3 => rfl

/-! ### No double slash is left -/

/-- What is left begins with a slash only if the text did. -/
theorem head?_of_withoutBlocks (h : (withoutBlocks text).head? = some '/') :
    text.head? = some '/' := by
  unfold withoutBlocks at h
  split at h
  · rfl
  · exact h
  · exact h

theorem head?_of_withoutSlashLines (h : (withoutSlashLines text).head? = some '/') :
    text.head? = some '/' := by
  unfold withoutSlashLines at h
  split at h
  · rfl
  · exact h
  · exact h

/-- Cutting out block comments brings no two slashes together. -/
theorem not_infix_withoutBlocks (h : ¬ ['/', '/'] <:+: text) :
    ¬ ['/', '/'] <:+: withoutBlocks text := by
  fun_induction withoutBlocks text with
  | case1 rest after hcloser ih =>
    obtain ⟨inside, rfl, -⟩ := exists_inside_of_behindCloser? hcloser
    refine ih fun hslashes => h (hslashes.trans ⟨'/' :: '*' :: (inside ++ ['*', '/']), [], ?_⟩)
    simp
  | case2 rest hcloser ih =>
    have hrest : ¬ ['/', '/'] <:+: '*' :: rest := fun hslashes =>
      h (hslashes.trans (List.suffix_cons _ _).isInfix)
    exact Text.not_infix_cons (ih hrest) fun _ hhead => by simpa using head?_of_withoutBlocks hhead
  | case3 c rest hno ih =>
    have hrest : ¬ ['/', '/'] <:+: rest := fun hslashes =>
      h (hslashes.trans (List.suffix_cons _ _).isInfix)
    refine Text.not_infix_cons (ih hrest) fun hc hhead => h ?_
    obtain ⟨more, hmore⟩ := List.head?_eq_some_iff.1 (head?_of_withoutBlocks hhead)
    exact ⟨[], more, by rw [hc, hmore]; rfl⟩
  | case4 => exact h

theorem not_infix_withoutSlashLines (text : List Char) :
    ¬ ['/', '/'] <:+: withoutSlashLines text := by
  fun_induction withoutSlashLines text with
  | case1 rest ih => exact ih
  | case2 c rest hno ih =>
    refine Text.not_infix_cons ih fun hc hhead => ?_
    obtain ⟨more, hmore⟩ := List.head?_eq_some_iff.1 (head?_of_withoutSlashLines hhead)
    exact hno more hc hmore
  | case3 => simp

/-- Without a double slash nothing is removed. -/
theorem withoutSlashLines_eq_self (h : ¬ ['/', '/'] <:+: text) : withoutSlashLines text = text := by
  fun_induction withoutSlashLines text with
  | case1 rest _ => exact absurd ⟨[], rest, rfl⟩ h
  | case2 c rest _ ih => rw [ih fun hslashes => h (hslashes.trans (List.suffix_cons _ _).isInfix)]
  | case3 => rfl

end CodeSurvey.Comment
