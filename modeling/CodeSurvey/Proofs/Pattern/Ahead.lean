import CodeSurvey.Proofs.Pattern.First

/-!
What a pattern leaves of the text ahead of it, wherever that text stands: the rest behind some of
its readings, and the rest and the captures behind its first one.
-/

namespace CodeSurvey.Pattern

variable {p q : Pattern} {r r' : Reading} {set : Char → Bool} {least n : Nat} {c : Char}
  {cs ds t u rest : List Char} {caps more : List Capture} {w : String}

/-! ### Some reading -/

/-- Some reading of a text leaves this rest of it. -/
def Leaves (p : Pattern) (text rest : List Char) : Prop :=
  ∃ r cs r', r.rest = text ∧ Reads p r cs r' ∧ r'.rest = rest

namespace Leaves

theorem lit_inv (h : Leaves (lit w) t rest) : t = w.toList ++ rest := by
  obtain ⟨r, cs, r', rfl, hreads, rfl⟩ := h
  exact (passes_of_reads_text hreads).rest_eq

theorem many_inv {greedy : Bool} (h : Leaves (many greedy least set) t rest) :
    ∃ cs, t = cs ++ rest ∧ (∀ c ∈ cs, set c = true) ∧ least ≤ cs.length := by
  obtain ⟨r, cs, r', rfl, hreads, rfl⟩ := h
  obtain ⟨hpasses, hall, henough⟩ := exists_of_reads_many hreads
  exact ⟨cs, hpasses.rest_eq, hall, henough⟩

theorem cat_inv (h : Leaves (cat p q) t rest) : ∃ u, Leaves p t u ∧ Leaves q u rest := by
  obtain ⟨r, cs, r', rfl, hreads, rfl⟩ := h
  obtain ⟨r₁, _, _, hfirst, hsecond⟩ := exists_of_reads_cat hreads
  exact ⟨r₁.rest, ⟨r, _, r₁, rfl, hfirst, rfl⟩, ⟨r₁, _, r', rfl, hsecond, rfl⟩⟩

theorem alt_inv (h : Leaves (alt p q) t rest) : Leaves p t rest ∨ Leaves q t rest := by
  obtain ⟨r, cs, r', rfl, hreads, rfl⟩ := h
  rcases reads_alt hreads with hfirst | hsecond
  · exact .inl ⟨r, cs, r', rfl, hfirst, rfl⟩
  · exact .inr ⟨r, cs, r', rfl, hsecond, rfl⟩

theorem maybe_inv (h : Leaves (maybe p) t rest) : Leaves p t rest ∨ rest = t := by
  refine h.alt_inv.imp_right fun hnothing => ?_
  obtain ⟨r, cs, r', rfl, hreads, rfl⟩ := hnothing
  cases hreads
  rfl

theorem group_inv (h : Leaves (group n p) t rest) : Leaves p t rest := by
  obtain ⟨r, cs, r', rfl, hreads, rfl⟩ := h
  obtain ⟨r₁, hbody, rfl⟩ := exists_of_reads_group hreads
  exact ⟨r, cs, r₁, rfl, hbody, rfl⟩

end Leaves

theorem fails_of_leaves (h : ∀ rest, ¬ Leaves p r.rest rest) : Fails p r :=
  fun cs r' hreads => h r'.rest ⟨r, cs, r', rfl, hreads, rfl⟩

/-! ### The first reading -/

/-- The first reading of a text leaves this rest of it and makes these captures. -/
def Leads (p : Pattern) (text rest : List Char) (caps : List Capture) : Prop :=
  ∀ r : Reading, r.rest = text →
    ∃ cs r', ReadsFirst p r cs r' ∧ r'.rest = rest ∧ r'.captures = caps ++ r.captures

namespace Leads

theorem lit (w : String) (rest : List Char) : Leads (lit w) (w.toList ++ rest) rest [] := by
  intro r hr
  obtain ⟨r', hpasses, hrest⟩ := exists_passes hr
  exact ⟨_, r', .text hpasses, hrest, hpasses.captures_eq⟩

theorem many (hcs : ∀ c ∈ cs, set c = true) (enough : least ≤ cs.length)
    (stop : ∀ c ∈ rest.head?, set c = false) :
    Leads (many true least set) (cs ++ rest) rest [] := by
  intro r hr
  obtain ⟨r', hpasses, hrest⟩ := exists_passes hr
  exact ⟨_, r', .manyLongest hpasses hcs enough (hrest ▸ stop), hrest, hpasses.captures_eq⟩

theorem cat (first : Leads p t u caps) (second : Leads q u rest more) :
    Leads (cat p q) t rest (more ++ caps) := by
  intro r hr
  obtain ⟨cs, r₁, hfirst, hu, hcaps⟩ := first r hr
  obtain ⟨ds, r₂, hsecond, hrest, hmore⟩ := second r₁ hu
  exact ⟨_, r₂, .cat hfirst hsecond, hrest, by rw [hmore, hcaps, List.append_assoc]⟩

/-- A run of one character is given back to what follows, which cannot do without it. -/
theorem giveBack (mem : set c = true) (stop : ∀ d ∈ t.head?, set d = false)
    (fails : ∀ rest, ¬ Leaves q t rest) (second : Leads q (c :: t) rest caps) :
    Leads (.cat (.many true 0 set) q) (c :: t) rest caps := by
  intro r hr
  obtain ⟨ds, r₂, hsecond, hrest, hcaps⟩ := second r hr
  refine ⟨ds, r₂, ⟨.cat (.many .stay nofun (Nat.zero_le _)) hsecond.reads, ?_⟩, hrest, hcaps⟩
  intro α next hnext
  have hlater : run q (r.past c t) next = none := (fails_of_leaves fails).run_eq next
  have hrun : runLongest set (fun s => run q s next) 0 t (r.past c t) = none := by
    cases t with
    | nil => exact hlater
    | cons d t =>
      rw [runLongest, stop d rfl, if_neg Bool.false_ne_true]
      exact hlater
  show runLongest set (fun s => run q s next) 0 r.rest r = next r₂
  rw [hr, runLongest, mem, if_pos rfl, hrun]
  exact hsecond.run_eq next hnext

theorem altFirst (first : Leads p t rest caps) : Leads (alt p q) t rest caps := by
  intro r hr
  obtain ⟨cs, r', hfirst, hrest, hcaps⟩ := first r hr
  exact ⟨cs, r', .altFirst hfirst, hrest, hcaps⟩

theorem altSecond (fails : ∀ rest, ¬ Leaves p t rest) (second : Leads q t rest caps) :
    Leads (alt p q) t rest caps := by
  intro r hr
  obtain ⟨cs, r', hsecond, hrest, hcaps⟩ := second r hr
  exact ⟨cs, r', .altSecond (fails_of_leaves (hr ▸ fails)) hsecond, hrest, hcaps⟩

theorem maybeNot (fails : ∀ rest, ¬ Leaves p t rest) : Leads (maybe p) t t [] :=
  altSecond fails fun r hr => ⟨[], r, .nothing, hr, rfl⟩

theorem group (body : Leads p (cs ++ rest) rest []) :
    Leads (group n p) (cs ++ rest) rest [⟨n, cs ++ rest, cs.length⟩] := by
  intro r hr
  obtain ⟨ds, r', hbody, hrest, hcaps⟩ := body r hr
  have hds : ds = cs := by
    have heq := hbody.reads.rest_eq
    rw [hr, hrest] at heq
    exact (List.append_cancel_right heq).symm
  refine ⟨ds, r.remember n r', hbody.group, hrest, ?_⟩
  rw [Reading.remember, hbody.reads.offset_eq, Nat.add_sub_cancel_left, hcaps, hr, hds]
  rfl

end Leads

/-- The match at the start of a text. -/
theorem Leads.matchStart? (h : Leads p t rest caps) :
    ∃ m, p.matchStart? t = some m ∧ m.captures = caps := by
  obtain ⟨cs, r', hfirst, -, hcaps⟩ := h (.atStart t) rfl
  exact ⟨_, hfirst.matchAt?_eq, hcaps.trans (List.append_nil caps)⟩

theorem leaves_of_matchStart? {m : Match} (h : p.matchStart? t = some m) :
    ∃ rest, Leaves p t rest := by
  obtain ⟨cs, r', hreads, -⟩ := run_reads p h
  exact ⟨_, .atStart t, cs, r', rfl, hreads, rfl⟩

theorem matchStart?_eq_none (h : ∀ rest, ¬ Leaves p t rest) : p.matchStart? t = none := by
  cases hmatch : p.matchStart? t with
  | none => rfl
  | some m =>
    obtain ⟨rest, hleaves⟩ := leaves_of_matchStart? hmatch
    exact absurd hleaves (h rest)

/-! ### Somewhere in a text -/

theorem occursIn_of_leads (h : Leads p (c :: t) rest caps) (u : List Char) :
    p.occursIn (u ++ c :: t) = true := by
  have hfrom : ∀ before offset, (firstFrom p before offset (u ++ c :: t)).isSome = true := by
    induction u with
    | nil =>
      intro before offset
      obtain ⟨cs, r', hfirst, -⟩ := h ⟨before, c :: t, offset, []⟩ rfl
      rw [List.nil_append, firstFrom, hfirst.matchAt?_eq]
      rfl
    | cons d u ih =>
      intro before offset
      rw [List.cons_append, firstFrom]
      split
      · rfl
      · exact ih _ _
  exact hfrom none 0

theorem occursIn_eq_false (h : ∀ u, u <:+ t → ∀ rest, ¬ Leaves p u rest) :
    p.occursIn t = false := by
  have hfrom : ∀ before offset, firstFrom p before offset t = none := by
    induction t with
    | nil => exact fun _ _ => rfl
    | cons c t ih =>
      intro before offset
      have hhere : matchAt? p ⟨before, c :: t, offset, []⟩ = none :=
        matchAt?_eq_none (fails_of_leaves (h _ (List.suffix_refl _)))
      rw [firstFrom, hhere]
      exact ih (fun u hu => h u (hu.trans (List.suffix_cons c t))) _ _
  rw [occursIn, first?, hfrom]
  rfl

end CodeSurvey.Pattern
