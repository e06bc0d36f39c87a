import CodeSurvey.Path
import CodeSurvey.Proofs.Text.Pieces
import Mathlib.Data.List.TakeWhile

/-!
Paths written as their components. Main statements: the directory of a path is what is written by
all components but the last; a path below another one is written by the components of both; in the
normal form each double dot takes back the component before it.
-/

namespace CodeSurvey.Path

open Text

variable {c d name : List Char} {cs dirs rest : List (List Char)}

/-- The component is neither empty nor is a slash in it; the two dots are such components. -/
def IsComponent (c : List Char) : Prop := c ≠ [] ∧ '/' ∉ c

/-- The component is the name of something: it is not one of the two dots, and no backslash, which
    separates components in some texts, is in it. -/
structure IsEntryName (c : List Char) : Prop where
  isComponent : IsComponent c
  ne_dot : c ≠ ['.']
  ne_dots : c ≠ ['.', '.']
  no_backslash : '\\' ∉ c

instance (c : List Char) : Decidable (IsComponent c) := inferInstanceAs (Decidable (_ ∧ _))

instance (c : List Char) : Decidable (IsEntryName c) :=
  decidable_of_iff (IsComponent c ∧ c ≠ ['.'] ∧ c ≠ ['.', '.'] ∧ '\\' ∉ c)
    ⟨fun ⟨h, hdot, hdots, hback⟩ => ⟨h, hdot, hdots, hback⟩,
      fun ⟨h, hdot, hdots, hback⟩ => ⟨h, hdot, hdots, hback⟩⟩

/-! ### Writing components -/

theorem components_join (hne : cs ≠ []) (h : ∀ c ∈ cs, IsComponent c) :
    components (join ['/'] cs) = cs :=
  pieces_join hne fun c hc => (h c hc).2

/-- What is written with components neither begins nor ends with a slash. -/
theorem join_ends_ne_slash (hne : cs ≠ []) (h : ∀ c ∈ cs, IsComponent c) :
    (join ['/'] cs).head? ≠ some '/' ∧ (join ['/'] cs).getLast? ≠ some '/' ∧
      join ['/'] cs ≠ [] := by
  obtain ⟨first, hfirst, last, hlast, hhead, hend⟩ :=
    exists_ends_join ['/'] hne fun c hc => (h c hc).1
  refine ⟨fun hslash => ?_, fun hslash => ?_, fun hnil => ?_⟩
  · rw [hhead] at hslash
    exact (h first hfirst).2 (List.mem_of_head? hslash)
  · rw [hend] at hslash
    exact (h last hlast).2 (List.mem_of_getLast? hslash)
  · rw [hnil] at hhead
    exact (h first hfirst).1 (List.head?_eq_none_iff.1 hhead.symm)

/-- There is nothing to change where a backslash separates components like a slash. -/
theorem swap_join (h : ∀ c ∈ cs, '\\' ∉ c) : swap '\\' '/' (join ['/'] cs) = join ['/'] cs := by
  refine swap_of_notMem fun hback => ?_
  rcases mem_join hback with hslash | ⟨c, hc, hback⟩
  · exact absurd hslash (by decide)
  · exact h c hc hback

/-- The part up to the last slash is what stands before a last component. -/
theorem head_append_slash (h : '/' ∉ name) (s : List Char) :
    head (s ++ '/' :: name) = s ++ ['/'] := by
  have hname : ∀ c ∈ name.reverse, (c != '/') = true := by
    intro c hc
    rw [bne_iff_ne]
    rintro rfl
    exact h (List.mem_reverse.1 hc)
  rw [head, List.reverse_append, List.reverse_cons, List.append_assoc,
    List.dropWhile_append_of_pos hname]
  simp

theorem head_of_notMem (h : '/' ∉ name) : head name = [] := by
  rw [head, List.reverse_eq_nil_iff, List.dropWhile_eq_nil_iff]
  intro c hc
  rw [bne_iff_ne]
  rintro rfl
  exact h (List.mem_reverse.1 hc)

theorem dropTrailing_concat {c : Char} {s : List Char} (h : s.getLast? ≠ some c) :
    dropTrailing c (s ++ [c]) = s := by
  rw [dropTrailing, List.reverse_append, List.reverse_singleton, List.singleton_append,
    List.dropWhile_cons_of_pos (p := (· == c)) (beq_self_eq_true c), List.reverse_eq_iff,
    dropWhile_eq_self_iff, List.head?_reverse]
  intro d hd
  rw [beq_eq_false_iff_ne]
  rintro rfl
  exact h hd

theorem directory_join (hdirs : ∀ c ∈ dirs, IsComponent c) (hname : IsComponent name) :
    directory (join ['/'] (dirs ++ [name])) = join ['/'] dirs := by
  by_cases hnil : dirs = []
  · subst hnil
    show directory name = []
    rw [directory, head_of_notMem hname.2]
    rfl
  · obtain ⟨hfirst, hlast, hjoin⟩ := join_ends_ne_slash hnil hdirs
    have hhead : head (join ['/'] (dirs ++ [name])) = join ['/'] dirs ++ ['/'] := by
      rw [join_concat _ hnil, List.append_assoc, List.singleton_append,
        head_append_slash hname.2]
    have hall : ¬ (join ['/'] dirs ++ ['/']).all (· == '/') = true := by
      intro hall
      obtain ⟨c, more, hc⟩ := List.exists_cons_of_ne_nil hjoin
      rw [hc] at hall hfirst
      exact hfirst (congrArg some (eq_of_beq (List.all_eq_true.1 hall c (by simp))))
    rw [directory, hhead, if_neg hall, dropTrailing_concat hlast]

theorem baseName_join (hne : dirs ≠ []) (h : '/' ∉ name) :
    baseName (join ['/'] (dirs ++ [name])) = name := by
  rw [join_concat _ hne, List.append_assoc, List.singleton_append]
  have hparts := head_append_baseName (join ['/'] dirs ++ '/' :: name)
  rw [head_append_slash h, List.append_assoc, List.singleton_append] at hparts
  exact (List.cons.inj (List.append_cancel_left hparts)).2

/-- A name that holds no dot is left when the extension is taken off. -/
theorem stem_append_extension {extension : List Char} (hne : name ≠ []) (hname : '.' ∉ name)
    (h : '.' ∉ extension) : stem (name ++ '.' :: extension) = name := by
  obtain ⟨c, rest, rfl⟩ := List.exists_cons_of_ne_nil hne
  have hc : ¬ (c == '.') = true := fun heq => hname (eq_of_beq heq ▸ List.mem_cons_self ..)
  have hextension : ∀ d ∈ extension.reverse, (d != '.') = true := by
    intro d hd
    rw [bne_iff_ne]
    rintro rfl
    exact h (List.mem_reverse.1 hd)
  rw [stem, List.cons_append, List.takeWhile_cons_of_neg (p := (· == '.')) hc,
    List.dropWhile_cons_of_neg (p := (· == '.')) hc, if_pos (by simp), ← List.cons_append,
    List.reverse_append, List.reverse_cons, List.append_assoc,
    List.dropWhile_append_of_pos hextension]
  simp

theorem fileName_join (hdirs : ∀ c ∈ dirs, IsComponent c) (hname : IsComponent name)
    (hdot : name ≠ ['.']) : fileName (join ['/'] (dirs ++ [name])) = name := by
  have hall : ∀ c ∈ dirs ++ [name], IsComponent c :=
    List.forall_mem_append.2 ⟨hdirs, List.forall_mem_singleton.2 hname⟩
  have hkept : [name].filter (fun c => c != [] && c != ['.']) = [name] := by
    simp [hname.1, hdot]
  rw [fileName, components_join (by simp) hall, List.filter_append, hkept, List.getLast?_concat]
  rfl

theorem isPrefixOf_slash {s : List Char} : ['/'].isPrefixOf s = true ↔ s.head? = some '/' := by
  cases s with
  | nil => simp
  | cons c s => simp [eq_comm (a := c)]

theorem isSuffixOf_slash {s : List Char} : ['/'].isSuffixOf s = true ↔ s.getLast? = some '/' := by
  rw [List.isSuffixOf, List.reverse_singleton, isPrefixOf_slash, List.head?_reverse]

theorem append_ne_nil (base : List Char) {p : List Char} (h : p ≠ []) : append base p ≠ [] := by
  unfold append
  split
  · exact h
  · split <;> simp [h]

/-- A path below another one is written by the components of both. -/
theorem append_join (hdirs : ∀ c ∈ dirs, IsComponent c) (hne : rest ≠ [])
    (hrest : ∀ c ∈ rest, IsComponent c) :
    append (join ['/'] dirs) (join ['/'] rest) = join ['/'] (dirs ++ rest) := by
  have hrelative := mt isPrefixOf_slash.1 (join_ends_ne_slash hne hrest).1
  by_cases hnil : dirs = []
  · subst hnil
    exact append_nil_left _
  · obtain ⟨-, hlast, hjoin⟩ := join_ends_ne_slash hnil hdirs
    have hopen : ¬ ((join ['/'] dirs).isEmpty || ['/'].isSuffixOf (join ['/'] dirs)) = true := by
      rw [Bool.or_eq_true, List.isEmpty_iff, isSuffixOf_slash, not_or]
      exact ⟨hjoin, hlast⟩
    rw [append, if_neg hrelative, if_neg hopen, join_append _ hnil hne, List.append_assoc,
      List.singleton_append]

/-! ### The normal form -/

theorem normaliseStep_name (absolute : Bool) (kept : List (List Char)) (h : IsEntryName c) :
    normaliseStep absolute kept c = c :: kept := by
  simp [normaliseStep, h.isComponent.1, h.ne_dot, h.ne_dots]

theorem normaliseStep_dots (absolute : Bool) (kept : List (List Char)) (h : IsEntryName c) :
    normaliseStep absolute (c :: kept) ['.', '.'] = kept := by
  simp [normaliseStep, h.ne_dots]

/-- Names are kept. -/
theorem foldl_normaliseStep_names (absolute : Bool) (kept : List (List Char))
    (h : ∀ c ∈ cs, IsEntryName c) :
    cs.foldl (normaliseStep absolute) kept = cs.reverse ++ kept := by
  induction cs generalizing kept with
  | nil => rfl
  | cons c cs ih =>
    obtain ⟨hc, hcs⟩ := List.forall_mem_cons.1 h
    rw [List.foldl_cons, normaliseStep_name absolute kept hc, ih _ hcs, List.reverse_cons,
      List.append_assoc, List.singleton_append]

/-- As many double dots as there are names before them take back these names. -/
theorem foldl_normaliseStep_dots (absolute : Bool) (kept : List (List Char))
    (h : ∀ c ∈ cs, IsEntryName c) :
    (List.replicate cs.length ['.', '.']).foldl (normaliseStep absolute) (cs ++ kept) = kept := by
  induction cs with
  | nil => rfl
  | cons c cs ih =>
    obtain ⟨hc, hcs⟩ := List.forall_mem_cons.1 h
    rw [List.length_cons, List.replicate_succ, List.foldl_cons, List.cons_append,
      normaliseStep_dots absolute _ hc]
    exact ih hcs

theorem rootSlashes_of_relative {p : List Char} (h : p.head? ≠ some '/') : rootSlashes p = [] := by
  cases p with
  | nil => rfl
  | cons c p =>
    have hc : ¬ (c == '/') = true := fun hslash => h (congrArg some (eq_of_beq hslash))
    rw [rootSlashes, List.takeWhile_cons_of_neg (p := (· == '/')) hc]

/-- The normal form of a relative path is written with the components that are kept. -/
theorem normalise_join (hne : cs ≠ []) (hcs : ∀ c ∈ cs, IsComponent c) (hrest : rest ≠ [])
    (hkept : cs.foldl (normaliseStep false) [] = rest.reverse)
    (hnames : ∀ c ∈ rest, IsComponent c) : normalise (join ['/'] cs) = join ['/'] rest := by
  have hroot := rootSlashes_of_relative (join_ends_ne_slash hne hcs).1
  -- there is something to write, so no single dot stands for it
  have hjoin := (join_ends_ne_slash hrest hnames).2.2
  simp only [normalise, hroot, components_join hne hcs, List.isEmpty_nil, Bool.not_true, hkept,
    List.reverse_reverse, List.nil_append]

end CodeSurvey.Path
