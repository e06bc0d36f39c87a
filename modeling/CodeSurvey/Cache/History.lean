import CodeSurvey.Cache.Basic

/-!
The history of a cache: which operations were carried out and what each came to. What a history says
about a key (whether it was put, what was put last, which other keys were touched later) is read off
the events alone, without looking at a cache.
-/

namespace CodeSurvey.Cache

variable {κ ν : Type}

/-- An operation on a cache. -/
inductive Operation (κ ν : Type) where
  | put (key : κ) (value : ν)
  | get (key : κ)
  | contains (key : κ)
  | size
  | clear

/-- An operation and what it came to. -/
inductive Event (κ ν : Type) where
  | put (key : κ) (value : ν)
  | got (key : κ) (found : Option ν)
  | looked (key : κ) (held : Bool)
  | measured (size : Nat)
  | cleared
  deriving DecidableEq

/-- What has happened, the latest event first. -/
abbrev History (κ ν : Type) := List (Event κ ν)

namespace Event

/-- The key that an event touches: one that is put, or one that is looked up and found. -/
def touched? : Event κ ν → Option κ
  | put key _ | got key (some _) => some key
  | _ => none

/-- What an event puts under a key. -/
def putUnder? [BEq κ] (key : κ) : Event κ ν → Option ν
  | put other value => if other == key then some value else none
  | _ => none

/-- The event is a `get`. -/
def isGet : Event κ ν → Bool
  | got .. => true
  | _ => false

/-- The event forgets everything. -/
def isClear : Event κ ν → Bool
  | cleared => true
  | _ => false

end Event

namespace History

/-- The events since everything was forgotten last. -/
def sinceClear (h : History κ ν) : History κ ν := h.takeWhile (!·.isClear)

/-- The keys that were touched, once for each touch, the one touched last in front. -/
def touched (h : History κ ν) : List κ := h.filterMap Event.touched?

/-- The key was put since everything was forgotten last. -/
def WasPut (key : κ) (h : History κ ν) : Prop := ∃ value, Event.put key value ∈ sinceClear h

/-- What was put under a key last. -/
def lastPut? [BEq κ] (key : κ) (h : History κ ν) : Option ν := h.findSome? (·.putUnder? key)

/-- The number of `get`s since everything was forgotten last. -/
def gets (h : History κ ν) : Nat := (sinceClear h).countP Event.isGet

end History

variable [BEq κ]

/-- Carries an operation out. -/
def step (c : Cache κ ν) : Operation κ ν → Event κ ν × Cache κ ν
  | .put key value => (.put key value, c.put key value)
  | .get key => (.got key (c.get key).1, (c.get key).2)
  | .contains key => (.looked key (c.contains key), c)
  | .size => (.measured c.size, c)
  | .clear => (.cleared, c.clear)

/-- Carries operations out one after another, on a cache with a history. -/
def run (c : Cache κ ν) (h : History κ ν) : List (Operation κ ν) → Cache κ ν × History κ ν
  | [] => (c, h)
  | operation :: more => run (c.step operation).2 ((c.step operation).1 :: h) more

end CodeSurvey.Cache
