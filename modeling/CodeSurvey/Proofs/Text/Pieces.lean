import CodeSurvey.Text.Basic
import Mathlib.Algebra.Ring.Nat
import Mathlib.Data.List.Basic

/-!
Splitting against joining, and texts without blanks at their ends. Main statements: pieces that hold
no separator are read back from the text they are joined to; trimming keeps exactly the texts
without blanks at their ends, and a list of them without empty ones is such a text again, whatever
stands between its pieces.
-/

namespace CodeSurvey.Text

variable {sep : Char} {ps : List (List Char)}

/-- A separator ends the pieces of what stands before it. -/
theorem pieces_append (sep : Char) (s t : List Char) :
    pieces sep (s ++ sep :: t) = pieces sep s ++ pieces sep t := by
  induction s with
  | nil => simp [pieces]
  | cons c rest ih =>
    obtain ⟨piece, more, hrest⟩ := List.exists_cons_of_ne_nil (pieces_ne_nil sep rest)
    rw [List.cons_append, pieces, pieces, ih, hrest]
    split <;> rfl

/-- The first piece reaches up to the first separator. -/
theorem pieces_of_first {s : List Char} (h : sep ∉ s) (t : List Char) :
    pieces sep (s ++ sep :: t) = s :: pieces sep t := by
  rw [pieces_append, pieces_of_notMem h]
  rfl

/-- What stands before the first separator belongs to the first piece. -/
theorem pieces_append_of_notMem {s t piece : List Char} {more : List (List Char)} (h : sep ∉ s)
    (ht : pieces sep t = piece :: more) : pieces sep (s ++ t) = (s ++ piece) :: more := by
  induction s with
  | nil => exact ht
  | cons c s ih =>
    have hs : sep ∉ s := fun hsep => h (List.mem_cons_of_mem c hsep)
    have hc : ¬ (c == sep) = true := fun heq => h (eq_of_beq heq ▸ List.mem_cons_self ..)
    rw [List.cons_append, pieces, if_neg hc, ih hs]
    rfl

theorem join_cons_cons (sep p q : List Char) (more : List (List Char)) :
    join sep (p :: q :: more) = p ++ sep ++ join sep (q :: more) := rfl

/-- What the first piece begins with stands in front of the joined text. -/
theorem join_append_left (sep s t : List Char) (more : List (List Char)) :
    join sep ((s ++ t) :: more) = s ++ join sep (t :: more) := by
  cases more with
  | nil => rfl
  | cons q more => simp only [join_cons_cons, List.append_assoc]

/-- In front of a further piece every piece is ended by a separator. -/
theorem join_append_cons (sep : List Char) (ls : List (List Char)) (p : List Char)
    (more : List (List Char)) :
    join sep (ls ++ p :: more) = (ls.flatMap fun l => l ++ sep) ++ join sep (p :: more) := by
  induction ls with
  | nil => rfl
  | cons l ls ih =>
    obtain ⟨q, qs, hq⟩ : ∃ q qs, ls ++ p :: more = q :: qs :=
      List.exists_cons_of_ne_nil (by simp)
    rw [List.cons_append, hq, join_cons_cons, ← hq, ih, List.flatMap_cons,
      List.append_assoc (l ++ sep)]

/-- Every piece but the first stands behind a separator. -/
theorem join_cons_eq_flatMap (sep p : List Char) (more : List (List Char)) :
    join sep (p :: more) = p ++ more.flatMap (sep ++ ·) := by
  induction more generalizing p with
  | nil => simp [join]
  | cons q more ih => rw [join_cons_cons, ih, List.flatMap_cons, List.append_assoc,
      List.append_assoc]

theorem join_append (sep : List Char) (hps : ps ≠ []) {qs : List (List Char)} (hqs : qs ≠ []) :
    join sep (ps ++ qs) = join sep ps ++ sep ++ join sep qs := by
  induction ps with
  | nil => exact absurd rfl hps
  | cons p more ih =>
    cases more with
    | nil =>
      obtain ⟨q, qs, rfl⟩ := List.exists_cons_of_ne_nil hqs
      exact join_cons_cons sep p q qs
    | cons r more =>
      rw [List.cons_append, List.cons_append, join_cons_cons, join_cons_cons, ← List.cons_append,
        ih (List.cons_ne_nil r more), List.append_assoc, List.append_assoc, List.append_assoc,
        List.append_assoc, List.append_assoc]

theorem pieces_join (hne : ps ≠ []) (h : ∀ p ∈ ps, sep ∉ p) : pieces sep (join [sep] ps) = ps := by
  induction ps with
  | nil => exact absurd rfl hne
  | cons p more ih =>
    have hp := h p (List.mem_cons_self ..)
    cases more with
    | nil => exact pieces_of_notMem hp
    | cons q more =>
      have hmore := ih (List.cons_ne_nil q more) fun r hr => h r (List.mem_cons_of_mem p hr)
      rw [join_cons_cons, List.append_assoc, List.singleton_append, pieces_of_first hp, hmore]

theorem swap_append (a b : Char) (s t : List Char) : swap a b (s ++ t) = swap a b s ++ swap a b t :=
  List.map_append

/-- Replacing the separator joins the same pieces with another one. -/
theorem swap_join_separator (b : Char) (h : ∀ p ∈ ps, sep ∉ p) :
    swap sep b (join [sep] ps) = join [b] ps := by
  induction ps with
  | nil => rfl
  | cons p more ih =>
    obtain ⟨hp, hmore⟩ := List.forall_mem_cons.1 h
    cases more with
    | nil => exact swap_of_notMem hp
    | cons q more =>
      have hsep : swap sep b [sep] = [b] := by simp [swap]
      rw [join_cons_cons, join_cons_cons, swap_append, swap_append, swap_of_notMem hp, hsep,
        ih hmore]

/-- With a separator of two characters the second one belongs to the piece behind it. -/
theorem join_pair (a b : Char) (p : List Char) (more : List (List Char)) :
    join [a, b] (p :: more) = join [a] (p :: more.map (b :: ·)) := by
  induction more generalizing p with
  | nil => rfl
  | cons q more ih =>
    rw [join_cons_cons, ih, List.map_cons, join_cons_cons,
      ← List.singleton_append (l := q), join_append_left]
    simp

/-- A joined text holds the separators of its pieces and one between any two. -/
theorem count_join (sep : Char) (hne : ps ≠ []) :
    (join [sep] ps).count sep + 1 = (ps.map fun p => p.count sep).sum + ps.length := by
  induction ps with
  | nil => exact absurd rfl hne
  | cons p more ih =>
    cases more with
    | nil => simp [join]
    | cons q more =>
      have hmore := ih (List.cons_ne_nil q more)
      rw [join_cons_cons, List.count_append, List.count_append, List.count_singleton_self,
        List.map_cons, List.sum_cons, List.length_cons]
      omega

/-- Exactly the separators between the pieces are there if no piece holds one. -/
theorem count_join_eq_iff (sep : Char) (hne : ps ≠ []) :
    (join [sep] ps).count sep + 1 = ps.length ↔ ∀ p ∈ ps, sep ∉ p := by
  rw [count_join sep hne, Nat.add_eq_right, List.sum_eq_zero_iff_forall_eq_nat]
  simp only [List.forall_mem_map, List.count_eq_zero]

/-! ### Two characters in a row -/

section Pair

variable {a b c : Char} {s t : List Char}

/-- A character in front of a text begins no pair unless the text goes on with the second one. -/
theorem not_infix_cons (h : ¬ [a, b] <:+: s) (hc : c = a → s.head? ≠ some b) :
    ¬ [a, b] <:+: c :: s := by
  intro hpair
  rcases List.infix_cons_iff.1 hpair with ⟨more, heq⟩ | hrest
  · obtain ⟨rfl, rfl⟩ := List.cons.inj heq
    exact hc rfl rfl
  · exact h hrest

theorem not_infix_of_notMem (h : a ∉ s) : ¬ [a, b] <:+: s := fun hpair =>
  h (hpair.subset (List.mem_cons_self ..))

/-- No pair reaches across the place between two texts unless the second one begins with its end. -/
theorem not_infix_append (hs : ¬ [a, b] <:+: s) (ht : ¬ [a, b] <:+: t) (hhead : t.head? ≠ some b) :
    ¬ [a, b] <:+: s ++ t := by
  induction s with
  | nil => exact ht
  | cons d s ih =>
    refine not_infix_cons (ih fun hpair => hs (hpair.trans (List.suffix_cons d s).isInfix))
      fun hd hfirst => ?_
    cases s with
    | nil => exact hhead hfirst
    | cons e s =>
      obtain rfl := Option.some.inj hfirst
      exact hs ⟨[], s, by rw [hd]; rfl⟩

/-- No pair reaches across another character. -/
theorem not_infix_append_cons (hs : ¬ [a, b] <:+: s) (ha : c ≠ a) (hb : c ≠ b)
    (ht : ¬ [a, b] <:+: t) : ¬ [a, b] <:+: s ++ c :: t :=
  not_infix_append hs (not_infix_cons ht fun hc => absurd hc ha) fun hc => hb (Option.some.inj hc)

/-- No pair reaches across a separator. -/
theorem not_infix_join (h : ∀ p ∈ ps, ¬ [a, b] <:+: p) (ha : sep ≠ a) (hb : sep ≠ b) :
    ¬ [a, b] <:+: join [sep] ps := by
  induction ps with
  | nil => simp [join]
  | cons p more ih =>
    obtain ⟨hp, hmore⟩ := List.forall_mem_cons.1 h
    cases more with
    | nil => exact hp
    | cons q more =>
      rw [join_cons_cons, List.append_assoc]
      exact not_infix_append_cons hp ha hb (ih hmore)

end Pair

/-! ### Separators of two characters -/

section PairSeparator

variable {a b c : Char} {s p : List Char} {more : List (List Char)}

/-- A character that begins no separator belongs to the first piece. -/
theorem piecesPair_cons (hc : c ≠ a) (h : piecesPair a b s = p :: more) :
    piecesPair a b (c :: s) = (c :: p) :: more := by
  cases s with
  | nil =>
    obtain ⟨rfl, rfl⟩ := List.cons.inj h
    rfl
  | cons d rest =>
    have hpair : ¬ (c == a && d == b) = true := by simp [hc]
    rw [piecesPair, if_neg hpair, h]

theorem piecesPair_of_notMem (h : a ∉ s) : piecesPair a b s = [s] := by
  induction s with
  | nil => rfl
  | cons c s ih =>
    have hc := List.ne_of_not_mem_cons h
    exact piecesPair_cons hc.symm (ih (List.not_mem_of_not_mem_cons h))

theorem piecesPair_of_first (h : a ∉ s) (t : List Char) :
    piecesPair a b (s ++ a :: b :: t) = s :: piecesPair a b t := by
  induction s with
  | nil => simp [piecesPair]
  | cons c s ih =>
    have hc := List.ne_of_not_mem_cons h
    exact piecesPair_cons hc.symm (ih (List.not_mem_of_not_mem_cons h))

theorem piecesPair_join (hne : ps ≠ []) (h : ∀ p ∈ ps, a ∉ p) :
    piecesPair a b (join [a, b] ps) = ps := by
  induction ps with
  | nil => exact absurd rfl hne
  | cons p more ih =>
    obtain ⟨hp, hmore⟩ := List.forall_mem_cons.1 h
    cases more with
    | nil => exact piecesPair_of_notMem hp
    | cons q more =>
      have hrest := ih (List.cons_ne_nil q more) hmore
      rw [join_cons_cons, List.append_assoc]
      exact (piecesPair_of_first hp _).trans (congrArg (p :: ·) hrest)

end PairSeparator

/-! ### Cutting at the first or the last character of a set -/

section Cut

variable (set : Char → Bool) {c d : Char} {s t u v : List Char}

/-- Two texts that agree do so up to their first characters of a set. -/
theorem eq_of_first (hs : ∀ e ∈ s, set e = false) (ht : ∀ e ∈ t, set e = false)
    (hc : set c = true) (hd : set d = true) (h : s ++ c :: u = t ++ d :: v) :
    s = t ∧ c = d ∧ u = v := by
  induction s generalizing t with
  | nil =>
    cases t with
    | nil => exact ⟨rfl, List.cons.inj h⟩
    | cons e t =>
      obtain ⟨rfl, -⟩ := List.cons.inj h
      rw [ht c (List.mem_cons_self ..)] at hc
      exact absurd hc Bool.false_ne_true
  | cons e s ih =>
    cases t with
    | nil =>
      obtain ⟨rfl, -⟩ := List.cons.inj h
      rw [hs e (List.mem_cons_self ..)] at hd
      exact absurd hd Bool.false_ne_true
    | cons f t =>
      obtain ⟨rfl, hmore⟩ := List.cons.inj h
      obtain ⟨rfl, hrest⟩ := ih (List.forall_mem_cons.1 hs).2 (List.forall_mem_cons.1 ht).2 hmore
      exact ⟨rfl, hrest⟩

/-- Two texts that agree do so down to their last characters of a set. -/
theorem eq_of_last (hu : ∀ e ∈ u, set e = false) (hv : ∀ e ∈ v, set e = false)
    (hc : set c = true) (hd : set d = true) (h : s ++ c :: u = t ++ d :: v) :
    s = t ∧ c = d ∧ u = v := by
  have hreverse : u.reverse ++ c :: s.reverse = v.reverse ++ d :: t.reverse := by
    simpa using congrArg List.reverse h
  obtain ⟨huv, hcd, hst⟩ := eq_of_first set (fun e he => hu e (List.mem_reverse.1 he))
    (fun e he => hv e (List.mem_reverse.1 he)) hc hd hreverse
  exact ⟨List.reverse_inj.1 hst, hcd, List.reverse_inj.1 huv⟩

end Cut

/-! ### Texts without blanks at their ends -/

variable {s : List Char}

theorem dropWhile_eq_self_iff {set : Char → Bool} :
    s.dropWhile set = s ↔ ∀ c ∈ s.head?, set c = false := by
  cases s with
  | nil => simp
  | cons c rest =>
    cases hc : set c with
    | false => simp [hc]
    | true =>
      have hlength := (List.dropWhile_sublist set (l := rest)).length_le
      refine iff_of_false (fun heq => ?_) fun h => ?_
      · rw [List.dropWhile_cons_of_pos hc] at heq
        have := congrArg List.length heq
        rw [List.length_cons] at this
        omega
      · rw [h c rfl] at hc
        exact Bool.false_ne_true hc

theorem trim_cons_of_blank {c : Char} (hc : isBlank c = true) (s : List Char) :
    trim (c :: s) = trim s := by
  rw [trim, trimLeft, List.dropWhile_cons_of_pos hc, trim, trimLeft]

/-- Trimming keeps a text if and only if it neither begins nor ends with a blank. -/
theorem trim_eq_self_iff : trim s = s ↔
    (∀ c ∈ s.head?, isBlank c = false) ∧ ∀ c ∈ s.getLast?, isBlank c = false := by
  have hright : trimRight s = s ↔ ∀ c ∈ s.getLast?, isBlank c = false := by
    rw [trimRight, List.reverse_eq_iff, dropWhile_eq_self_iff, List.head?_reverse]
  rw [← dropWhile_eq_self_iff, ← hright]
  constructor
  · intro h
    have hlength : s.length ≤ (trimLeft s).length := by
      have hreverse : (trimLeft s).reverse.length = (trimLeft s).length := List.length_reverse
      rw [← hreverse, ← congrArg List.length h, trim, trimRight, List.length_reverse]
      exact (List.dropWhile_sublist _).length_le
    have hleft : trimLeft s = s := (List.dropWhile_suffix isBlank).eq_of_length_le hlength
    exact ⟨hleft, by rwa [trim, hleft] at h⟩
  · rintro ⟨hleft, hright⟩
    rw [trim, trimLeft, hleft, hright]

/-- Joined texts begin and end as the first and the last one do. -/
theorem exists_ends_join (sep : List Char) (hne : ps ≠ []) (h : ∀ p ∈ ps, p ≠ []) :
    ∃ first ∈ ps, ∃ last ∈ ps, (join sep ps).head? = first.head? ∧
      (join sep ps).getLast? = last.getLast? := by
  induction ps with
  | nil => exact absurd rfl hne
  | cons p more ih =>
    obtain ⟨hp, hmore⟩ := List.forall_mem_cons.1 h
    cases more with
    | nil => exact ⟨p, by simp, p, by simp, rfl, rfl⟩
    | cons q more =>
      obtain ⟨-, -, last, hlast, -, heq⟩ := ih (List.cons_ne_nil q more) hmore
      have hlast' := hmore last hlast
      refine ⟨p, List.mem_cons_self .., last, List.mem_cons_of_mem p hlast, ?_, ?_⟩
      · obtain ⟨c, rest, rfl⟩ := List.exists_cons_of_ne_nil hp
        rfl
      · show (p ++ sep ++ join sep (q :: more)).getLast? = last.getLast?
        rw [List.getLast?_append, heq, List.getLast?_eq_some_getLast hlast', Option.some_or]

theorem trim_join (sep : List Char) (hps : ∀ p ∈ ps, p ≠ [] ∧ trim p = p) :
    trim (join sep ps) = join sep ps := by
  cases ps with
  | nil => rfl
  | cons p more =>
    obtain ⟨first, hfirst, last, hlast, hhead, hend⟩ :=
      exists_ends_join sep (List.cons_ne_nil p more) fun q hq => (hps q hq).1
    rw [trim_eq_self_iff, hhead, hend]
    exact ⟨(trim_eq_self_iff.1 (hps first hfirst).2).1, (trim_eq_self_iff.1 (hps last hlast).2).2⟩

/-- The texts of a list with commas and spaces between them are told apart again. -/
theorem map_trim_pieces (hne : ps ≠ []) (h : ∀ p ∈ ps, ',' ∉ p ∧ trim p = p) :
    (pieces ',' (join [',', ' '] ps)).map trim = ps := by
  obtain ⟨p, more, rfl⟩ := List.exists_cons_of_ne_nil hne
  obtain ⟨hp, hmore⟩ := List.forall_mem_cons.1 h
  have hpieces : ∀ q ∈ p :: more.map (' ' :: ·), ',' ∉ q := by
    refine List.forall_mem_cons.2 ⟨hp.1, List.forall_mem_map.2 fun q hq => ?_⟩
    exact List.not_mem_cons_of_ne_of_not_mem (by decide) (hmore q hq).1
  have htrim : more.map (fun q => trim (' ' :: q)) = more := by
    rw [List.map_congr_left (g := id), List.map_id]
    intro q hq
    rw [trim_cons_of_blank (by decide), (hmore q hq).2, id]
  rw [join_pair, pieces_join (List.cons_ne_nil _ _) hpieces, List.map_cons, hp.2, List.map_map]
  exact congrArg _ htrim

end CodeSurvey.Text
