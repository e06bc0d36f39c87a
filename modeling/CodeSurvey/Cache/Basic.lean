/-!
A cache of bounded size that forgets what was touched longest ago. A touch is a `put`, or a `get`
that finds its key. The entries are kept in the order of their last touch, the latest first, so the
cache after `put` is the new entry in front of the others, cut to the capacity. Main statements: a
`put` value is found and the capacity kept, and no operation gives a key two entries.
-/

namespace CodeSurvey

/-- Why there is no such cache. -/
inductive CacheError where
  | capacityTooSmall
  deriving DecidableEq, Repr

/-- The words for an error. -/
def CacheError.message : CacheError → String
  | capacityTooSmall => "capacity must be at least 1"

/-- A cache. -/
structure Cache (κ ν : Type) where
  capacity : Nat
  capacity_pos : 0 < capacity
  /-- The entries, the one touched last in front. -/
  entries : List (κ × ν)
  hits : Nat
  misses : Nat

namespace Cache

variable {κ ν : Type} [BEq κ]

/-- The capacity of a cache unless another one is asked for. -/
def defaultCapacity : Nat := 256

/-- The empty cache of a capacity. -/
def empty (capacity : Nat) (h : 0 < capacity) : Cache κ ν := ⟨capacity, h, [], 0, 0⟩

/-- The empty cache of a capacity, which has to be at least 1. -/
def ofCapacity (capacity : Int) : Except CacheError (Cache κ ν) :=
  if h : 0 < capacity.toNat then .ok (empty capacity.toNat h) else .error .capacityTooSmall

/-- The entries of all other keys. -/
def without (key : κ) (entries : List (κ × ν)) : List (κ × ν) := entries.filter (!·.1 == key)

theorem notMem_keys_without [LawfulBEq κ] (key : κ) (entries : List (κ × ν)) :
    key ∉ (without key entries).map (·.1) := by simp [without]

theorem nodup_keys_without {key : κ} {entries : List (κ × ν)}
    (h : (entries.map (·.1)).Nodup) : ((without key entries).map (·.1)).Nodup :=
  (List.filter_sublist.map _).nodup h

/-- The value under a key, without touching it. -/
def peek? (c : Cache κ ν) (key : κ) : Option ν := c.entries.lookup key

/-- A value that is found stands in an entry. -/
theorem mem_of_peek? [LawfulBEq κ] {c : Cache κ ν} {key : κ} {value : ν}
    (h : c.peek? key = some value) : (key, value) ∈ c.entries := by
  obtain ⟨front, behind, hentries, _⟩ := List.lookup_eq_some_iff.1 h
  rw [hentries]; simp

/-- The key is held. -/
def contains (c : Cache κ ν) (key : κ) : Bool := (c.peek? key).isSome

/-- The number of entries. -/
def size (c : Cache κ ν) : Nat := c.entries.length

/-- The value under a key, which is touched if it is held. -/
def get (c : Cache κ ν) (key : κ) : Option ν × Cache κ ν :=
  match c.peek? key with
  | some value =>
    (some value, { c with entries := (key, value) :: without key c.entries, hits := c.hits + 1 })
  | none => (none, { c with misses := c.misses + 1 })

theorem get_fst (c : Cache κ ν) (key : κ) : (c.get key).1 = c.peek? key := by
  unfold get; split <;> simp_all

theorem get_counts (c : Cache κ ν) (key : κ) :
    (c.get key).2.hits + (c.get key).2.misses = c.hits + c.misses + 1 := by
  unfold get; split <;> simp <;> omega

/-- A `get` brings no new entry. -/
theorem mem_of_mem_get [LawfulBEq κ] {c : Cache κ ν} {key : κ} {e : κ × ν}
    (h : e ∈ (c.get key).2.entries) : e ∈ c.entries := by
  unfold get at h
  split at h
  · rename_i value hvalue
    rcases List.mem_cons.1 h with rfl | h
    · exact mem_of_peek? hvalue
    · exact (List.mem_filter.1 h).1
  · exact h

/-- No key has two entries after a `get` if none had before. -/
theorem nodup_keys_get [LawfulBEq κ] (c : Cache κ ν) (key : κ)
    (h : (c.entries.map (·.1)).Nodup) : ((c.get key).2.entries.map (·.1)).Nodup := by
  unfold get
  split
  · exact List.nodup_cons.2 ⟨notMem_keys_without key c.entries, nodup_keys_without h⟩
  · exact h

/-- Puts a value under a key; the key touched longest ago goes if there are too many. -/
def put (c : Cache κ ν) (key : κ) (value : ν) : Cache κ ν :=
  { c with entries := ((key, value) :: without key c.entries).take c.capacity }

theorem size_put_le (c : Cache κ ν) (key : κ) (value : ν) :
    (c.put key value).size ≤ c.capacity := by
  simp only [size, put, List.length_take]; omega

theorem peek?_put_self [LawfulBEq κ] (c : Cache κ ν) (key : κ) (value : ν) :
    (c.put key value).peek? key = some value := by
  obtain ⟨n, hn⟩ := Nat.exists_eq_succ_of_ne_zero (Nat.ne_of_gt c.capacity_pos)
  simp [peek?, put, hn]

/-- A `put` brings no other entry than its own. -/
theorem mem_of_mem_put {c : Cache κ ν} {key : κ} {value : ν} {e : κ × ν}
    (h : e ∈ (c.put key value).entries) : e = (key, value) ∨ e ∈ c.entries :=
  (List.mem_cons.1 (List.mem_of_mem_take h)).imp_right fun h => (List.mem_filter.1 h).1

/-- No key has two entries after a `put` if none had before. -/
theorem nodup_keys_put [LawfulBEq κ] (c : Cache κ ν) (key : κ) (value : ν)
    (h : (c.entries.map (·.1)).Nodup) : ((c.put key value).entries.map (·.1)).Nodup := by
  refine ((List.take_sublist _ _).map _).nodup ?_
  exact List.nodup_cons.2 ⟨notMem_keys_without key c.entries, nodup_keys_without h⟩

/-- Forgets everything, the counts too. -/
def clear (c : Cache κ ν) : Cache κ ν := { c with entries := [], hits := 0, misses := 0 }

end Cache

end CodeSurvey
