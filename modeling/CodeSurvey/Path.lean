import CodeSurvey.Text.Basic

/-!
Paths written with slashes: taking a path apart, joining paths, and the normal form without empty,
single-dot and avoidable double-dot components. Nothing here looks at a file system.
-/

namespace CodeSurvey.Path

open Text

/-- The components of a path: its pieces between slashes. -/
def components (p : List Char) : List (List Char) := pieces '/' p

/-- The part up to the last slash, the slash included. -/
def head (p : List Char) : List Char := (p.reverse.dropWhile (· != '/')).reverse

/-- The part after the last slash. -/
def baseName (p : List Char) : List Char := (p.reverse.takeWhile (· != '/')).reverse

theorem head_append_baseName (p : List Char) : head p ++ baseName p = p := by
  simp [head, baseName, ← List.reverse_append, List.takeWhile_append_dropWhile]

theorem baseName_no_slash (p : List Char) : '/' ∉ baseName p := by
  intro h
  have := List.all_eq_true.1 (List.all_takeWhile (p := (· != '/')) (l := p.reverse)) '/'
    (List.mem_reverse.1 h)
  simp at this

/-- The directory of a path: what is before its last slash, without slashes at the end unless it
    has nothing else. -/
def directory (p : List Char) : List Char :=
  let h := head p
  if h.all (· == '/') then h else dropTrailing '/' h

/-- A path below another one; an absolute path stands for itself. -/
def append (base p : List Char) : List Char :=
  if ['/'].isPrefixOf p then p
  else if base.isEmpty || ['/'].isSuffixOf base then base ++ p
  else base ++ '/' :: p

theorem append_absolute (base p : List Char) : append base ('/' :: p) = '/' :: p := by
  simp [append]

theorem append_nil_left (p : List Char) : append [] p = p := by simp [append]

/-- Putting a path below another one brings no new character but a slash. -/
theorem mem_append {c : Char} {base p : List Char} (h : c ∈ append base p) :
    c ∈ base ∨ c ∈ p ∨ c = '/' := by
  unfold append at h
  split at h
  · exact .inr (.inl h)
  · split at h <;> grind

/-- One step of normalisation on the components kept so far, last first: an empty or single-dot
    component is dropped, a double dot takes back the component before it. At the top a double dot
    stays, unless the path is absolute. -/
def normaliseStep (absolute : Bool) (kept : List (List Char)) (c : List Char) : List (List Char) :=
  if c == [] || c == ['.'] then kept
  else if c != ['.', '.'] then c :: kept
  else match kept with
    | [] => if absolute then [] else [c]
    | last :: more => if last == ['.', '.'] then c :: kept else more

/-- The slashes that a normalised path starts with: two if the path has exactly two, one if it has
    one or at least three. -/
def rootSlashes (p : List Char) : List Char :=
  match p.takeWhile (· == '/') with
  | [] => []
  | ['/', '/'] => ['/', '/']
  | _ => ['/']

theorem eq_slash_of_mem_rootSlashes {c : Char} {p : List Char} (h : c ∈ rootSlashes p) :
    c = '/' := by
  unfold rootSlashes at h
  split at h <;> simp_all

/-- The normal form of a path; a path that comes to nothing is a single dot. -/
def normalise (p : List Char) : List Char :=
  let root := rootSlashes p
  let kept := (components p).foldl (normaliseStep (!root.isEmpty)) []
  match root ++ join ['/'] kept.reverse with
  | [] => ['.']
  | q => q

/-- A path without empty and single-dot components; what is left of nothing is a single dot.
    Unlike in the normal form a double dot stays. -/
def tidy (p : List Char) : List Char :=
  match rootSlashes p ++ join ['/'] ((components p).filter fun c => c != [] && c != ['.']) with
  | [] => ['.']
  | q => q

/-- Tidying a path brings no new character but a slash or a dot. -/
theorem mem_tidy {c : Char} {p : List Char} (h : c ∈ tidy p) : c ∈ p ∨ c = '/' ∨ c = '.' := by
  unfold tidy at h
  split at h
  · exact .inr (.inr (List.mem_singleton.1 h))
  · rcases List.mem_append.1 h with h | h
    · exact .inr (.inl (eq_slash_of_mem_rootSlashes h))
    · rcases mem_join h with h | ⟨q, hq, hc⟩
      · exact .inr (.inl (List.mem_singleton.1 h))
      · exact .inl (mem_of_mem_pieces (List.mem_filter.1 hq).1 hc)

/-- A file name without its last extension; dots at the start begin no extension. -/
def stem (name : List Char) : List Char :=
  let dots := name.takeWhile (· == '.')
  let rest := name.dropWhile (· == '.')
  if rest.contains '.' then dots ++ ((rest.reverse.dropWhile (· != '.')).drop 1).reverse else name

/-- The last component of a path that is neither empty nor a single dot. -/
def fileName (p : List Char) : List Char :=
  ((components p).filter fun c => c != [] && c != ['.']).getLast?.getD []

/-- The extension of a file name with its dot: from the last dot on, if there is something before
    and after that dot. -/
def extension (name : List Char) : List Char :=
  let last := (name.reverse.takeWhile (· != '.')).reverse
  if last.isEmpty || name.length ≤ last.length + 1 then [] else '.' :: last

end CodeSurvey.Path
