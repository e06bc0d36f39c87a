import CodeSurvey.Calendar
import CodeSurvey.Number.Double

/-!
Values of plan and configuration files. A map is a list of pairs in the order in which its keys were
first put; keys are the same if they are the same text, the same number, truth values counting as
one and zero, or otherwise equal. Whether two values are equal in every part can be decided.
-/

namespace CodeSurvey

/-- A value. -/
inductive Data where
  | null
  | bool (b : Bool)
  | int (n : Int)
  | float (x : Double)
  | text (s : String)
  | date (d : Calendar.Date)
  | time (t : Calendar.Time)
  | moment (m : Calendar.Moment)
  | bytes (b : List UInt8)
  | list (items : List Data)
  | set (items : List Data)
  | map (entries : List (Data × Data))
  deriving Inhabited

namespace Data

/-- The value can be a key: no list, set or map can. -/
def isKey : Data → Bool
  | list _ | set _ | map _ => false
  | _ => true

/-- The whole number that a value counts as. -/
def asInt? : Data → Option Int
  | int n => some n
  | bool b => some (if b then 1 else 0)
  | _ => none

/-- The same key. -/
def sameKey (a b : Data) : Bool :=
  match a.asInt?, b.asInt? with
  | some m, some n => m == n
  | some m, none => match b with | float x => x.equalsInt m | _ => false
  | none, some n => match a with | float x => x.equalsInt n | _ => false
  | none, none =>
    match a, b with
    | null, null => true
    | float x, float y => x.same y || (x == .nan && y == .nan)
    | text s, text t => s == t
    | date d, date e => d == e
    | time d, time e => d == e
    | moment d, moment e => d.same e
    | bytes x, bytes y => x == y
    | _, _ => false

/-- Puts a value under a key, in the place of the value under the same key if there is one. -/
def put (entries : List (Data × Data)) (key value : Data) : List (Data × Data) :=
  match entries with
  | [] => [(key, value)]
  | e :: more => if e.1.sameKey key then (e.1, value) :: more else e :: put more key value

/-- The word for the type of a value. -/
def kindName : Data → String
  | null => "NoneType"
  | bool _ => "bool"
  | int _ => "int"
  | float _ => "float"
  | text _ => "str"
  | date _ => "datetime.date"
  | time _ => "datetime.time"
  | moment _ => "datetime.datetime"
  | bytes _ => "bytes"
  | list _ => "list"
  | set _ => "set"
  | map _ => "dict"

/-- The value under a name. -/
def get? (entries : List (Data × Data)) (name : String) : Option Data :=
  (entries.find? fun e => match e.1 with | text s => s == name | _ => false).map (·.2)

theorem sameKey_text {k : Data} {name : String} :
    k.sameKey (.text name) = true ↔ k = .text name := by
  cases k <;> simp [sameKey, asInt?]

theorem text_sameKey {k : Data} {name : String} :
    (text name).sameKey k = true ↔ k = .text name := by
  rw [eq_comm (a := k)]
  cases k <;> simp [sameKey, asInt?]

theorem get?_cons_self (name : String) (value : Data) (more : List (Data × Data)) :
    get? ((.text name, value) :: more) name = some value := by simp [get?]

theorem get?_cons_of_ne {k : Data} {name : String} (h : k ≠ .text name) (value : Data)
    (more : List (Data × Data)) : get? ((k, value) :: more) name = get? more name := by
  cases k <;> simp_all [get?]

/-- A value that is put under a name is found under it. -/
theorem get?_put_self (entries : List (Data × Data)) (name : String) (value : Data) :
    get? (put entries (.text name) value) name = some value := by
  induction entries with
  | nil => exact get?_cons_self name value []
  | cons e more ih =>
    obtain ⟨k, v⟩ := e
    rw [put]
    split
    · rename_i h
      obtain rfl := sameKey_text.1 h
      exact get?_cons_self name value more
    · rename_i h
      rw [get?_cons_of_ne fun hk => h (sameKey_text.2 hk)]
      exact ih

/-- Under any other name nothing changes. -/
theorem get?_put_of_ne (entries : List (Data × Data)) {key : Data} {name : String}
    (h : key ≠ .text name) (value : Data) :
    get? (put entries key value) name = get? entries name := by
  induction entries with
  | nil => exact get?_cons_of_ne h value []
  | cons e more ih =>
    obtain ⟨k, v⟩ := e
    rw [put]
    split
    · rename_i hsame
      have hk : k ≠ .text name := by
        rintro rfl
        exact h (text_sameKey.1 hsame)
      rw [get?_cons_of_ne hk, get?_cons_of_ne hk]
    · by_cases hk : k = .text name
      · rw [hk, get?_cons_self, get?_cons_self]
      · rw [get?_cons_of_ne hk, get?_cons_of_ne hk, ih]

/-- The value counts as missing where one is asked for: it is null, false, zero or empty. -/
def isMissing : Data → Bool
  | .null => true
  | .bool b => !b
  | .int n => n == 0
  | .float x => x.equalsInt 0
  | .text s => s == ""
  | .bytes b => b.isEmpty
  | .list items | .set items => items.isEmpty
  | .map entries => entries.isEmpty
  | .date _ | .time _ | .moment _ => false

mutual

/-- How deep values lie in a value. -/
def depth : Data → Nat
  | list items | set items => depthOfItems items + 1
  | map entries => depthOfEntries entries + 1
  | _ => 0

/-- The greatest depth of some values. -/
def depthOfItems : List Data → Nat
  | [] => 0
  | item :: more => max (depth item) (depthOfItems more)

/-- The greatest depth of the values of some entries. -/
def depthOfEntries : List (Data × Data) → Nat
  | [] => 0
  | (_, value) :: more => max (depth value) (depthOfEntries more)

end

/-! ### Equality -/

mutual

/-- The values are the same. -/
def beq : Data → Data → Bool
  | .null, .null => true
  | .bool a, .bool b => a == b
  | .int a, .int b => a == b
  | .float a, .float b => decide (a = b)
  | .text a, .text b => a == b
  | .date a, .date b => decide (a = b)
  | .time a, .time b => decide (a = b)
  | .moment a, .moment b => decide (a = b)
  | .bytes a, .bytes b => a == b
  | .list as, .list bs => beqItems as bs
  | .set as, .set bs => beqItems as bs
  | .map as, .map bs => beqEntries as bs
  | _, _ => false

/-- The values are the same, one by one. -/
def beqItems : List Data → List Data → Bool
  | [], [] => true
  | a :: as, b :: bs => beq a b && beqItems as bs
  | _, _ => false

/-- The entries are the same, one by one. -/
def beqEntries : List (Data × Data) → List (Data × Data) → Bool
  | [], [] => true
  | (k, a) :: as, (l, b) :: bs => beq k l && beq a b && beqEntries as bs
  | _, _ => false

end

mutual

theorem beq_iff (a b : Data) : beq a b = true ↔ a = b := by
  cases a <;> cases b <;> simp [beq, beqItems_iff, beqEntries_iff]

theorem beqItems_iff (as bs : List Data) : beqItems as bs = true ↔ as = bs := by
  match as, bs with
  | [], [] | [], _ :: _ | _ :: _, [] => simp [beqItems]
  | a :: as, b :: bs => simp [beqItems, beq_iff a b, beqItems_iff as bs]

theorem beqEntries_iff (as bs : List (Data × Data)) : beqEntries as bs = true ↔ as = bs := by
  match as, bs with
  | [], [] | [], _ :: _ | _ :: _, [] => simp [beqEntries]
  | (k, a) :: as, (l, b) :: bs =>
    simp [beqEntries, beq_iff k l, beq_iff a b, beqEntries_iff as bs, and_assoc]

end

instance : DecidableEq Data := fun a b => decidable_of_iff (beq a b = true) (beq_iff a b)

end Data

end CodeSurvey
