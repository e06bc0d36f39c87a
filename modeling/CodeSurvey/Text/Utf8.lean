import CodeSurvey.Text.Basic

/-!
UTF-8. Decoding reads the octets one by one; between two characters nothing is pending, and inside
a character it is known how many octets are still owed and which values the next one may have. The
first octet that cannot go on, or the end of the octets inside a character, is an error that tells
the octets concerned. Main statements: the octets of a text are read as that text, so no two texts
have the same octets.
-/

namespace CodeSurvey.Text.Utf8

/-- What is wrong with the octets of a character. -/
inductive Fault where
  /-- No character starts with this octet. -/
  | startByte
  /-- An octet does not go on the character. -/
  | continuationByte
  /-- The text ends inside the character. -/
  | cut
  deriving DecidableEq, Repr

/-- A stretch of octets that is no character. -/
structure DecodeError where
  /-- The first octet of the stretch. -/
  byte : UInt8
  start : Nat
  length : Nat
  fault : Fault
  deriving DecidableEq, Repr

/-- The words for a fault. -/
def Fault.message : Fault → String
  | startByte => "invalid start byte"
  | continuationByte => "invalid continuation byte"
  | cut => "unexpected end of data"

/-- An octet as two hexadecimal digits. -/
def hexByte (b : UInt8) : String :=
  let digit := fun (n : Nat) => if n < 10 then Char.ofNat (48 + n) else Char.ofNat (87 + n)
  String.ofList [digit (b.toNat / 16), digit (b.toNat % 16)]

/-- The words for an error. -/
def DecodeError.message (e : DecodeError) : String :=
  let place :=
    if e.length == 1 then "byte 0x" ++ hexByte e.byte ++ " in position " ++ toString e.start
    else "bytes in position " ++ toString e.start ++ "-" ++ toString (e.start + e.length - 1)
  "'utf-8' codec can't decode " ++ place ++ ": " ++ e.fault.message

/-- A character of which some octets have been read. -/
structure Pending where
  first : UInt8
  start : Nat
  seen : Nat
  /-- How many octets are still owed. -/
  owed : Nat
  /-- The bits read so far. -/
  bits : Nat
  /-- The least and the greatest value the next octet may have. -/
  low : Nat
  high : Nat

/-- The character that an octet begins: itself, or the octets it calls for. -/
def begin? (start : Nat) (b : UInt8) : Option (Char ⊕ Pending) :=
  let n := b.toNat
  let pending := fun (owed bits low high : Nat) =>
    some (Sum.inr { first := b, start, seen := 1, owed, bits, low, high })
  if n < 0x80 then some (.inl (Char.ofNat n))
  else if n < 0xC2 then none
  else if n < 0xE0 then pending 1 (n % 0x20) 0x80 0xBF
  else if n == 0xE0 then pending 2 0 0xA0 0xBF
  else if n == 0xED then pending 2 0xD 0x80 0x9F
  else if n < 0xF0 then pending 2 (n % 0x10) 0x80 0xBF
  else if n == 0xF0 then pending 3 0 0x90 0xBF
  else if n < 0xF4 then pending 3 (n % 8) 0x80 0xBF
  else if n == 0xF4 then pending 3 4 0x80 0x8F
  else none

/-- The characters of the octets from an offset on, after those of a pending character. -/
def decodeFrom (offset : Nat) (pending : Option Pending) :
    List UInt8 → Except DecodeError (List Char)
  | [] =>
    match pending with
    | none => .ok []
    | some p => .error ⟨p.first, p.start, p.seen, .cut⟩
  | b :: rest =>
    match pending with
    | none =>
      match begin? offset b with
      | none => .error ⟨b, offset, 1, .startByte⟩
      | some (.inl c) => (decodeFrom (offset + 1) none rest).map (c :: ·)
      | some (.inr p) => decodeFrom (offset + 1) (some p) rest
    | some p =>
      if b.toNat < p.low || p.high < b.toNat then
        .error ⟨p.first, p.start, p.seen, .continuationByte⟩
      else
        let bits := p.bits * 0x40 + b.toNat % 0x40
        if p.owed == 1 then (decodeFrom (offset + 1) none rest).map (Char.ofNat bits :: ·)
        else
          decodeFrom (offset + 1)
            (some { p with seen := p.seen + 1, owed := p.owed - 1, bits, low := 0x80,
                           high := 0xBF }) rest

/-- The characters that octets spell. -/
def decode (bytes : List UInt8) : Except DecodeError (List Char) := decodeFrom 0 none bytes

/-- The octets of a character. -/
def encodeChar (c : Char) : List UInt8 :=
  let n := c.toNat
  let tail := fun (n : Nat) => UInt8.ofNat (0x80 + n % 0x40)
  if n < 0x80 then [UInt8.ofNat n]
  else if n < 0x800 then [UInt8.ofNat (0xC0 + n / 0x40), tail n]
  else if n < 0x10000 then [UInt8.ofNat (0xE0 + n / 0x1000), tail (n / 0x40), tail n]
  else [UInt8.ofNat (0xF0 + n / 0x40000), tail (n / 0x1000), tail (n / 0x40), tail n]

/-- The octets of a text. -/
def encode (s : List Char) : List UInt8 := s.flatMap encodeChar

/-! ### Reading back -/

theorem toNat_octet {n : Nat} (h : n < 0x100) : (UInt8.ofNat n).toNat = n := by
  simp only [UInt8.toNat_ofNat']; omega

theorem begin?_one {n : Nat} (h : n < 0x80) (start : Nat) :
    begin? start (UInt8.ofNat n) = some (.inl (Char.ofNat n)) := by
  simp [begin?, toNat_octet (show n < 0x100 by omega), h]

theorem begin?_two {n : Nat} (h : 2 ≤ n ∧ n < 0x20) (start : Nat) :
    begin? start (UInt8.ofNat (0xC0 + n)) =
      some (.inr ⟨UInt8.ofNat (0xC0 + n), start, 1, 1, n, 0x80, 0xBF⟩) := by
  simp only [begin?, toNat_octet (show 0xC0 + n < 0x100 by omega)]
  rw [if_neg (by omega), if_neg (by omega), if_pos (by omega), show (0xC0 + n) % 0x20 = n by omega]

theorem begin?_three {n : Nat} (h : n < 0x10) (start : Nat) :
    begin? start (UInt8.ofNat (0xE0 + n)) =
      some (.inr ⟨UInt8.ofNat (0xE0 + n), start, 1, 2, n, if n = 0 then 0xA0 else 0x80,
        if n = 0xD then 0x9F else 0xBF⟩) := by
  simp only [begin?, toNat_octet (show 0xE0 + n < 0x100 by omega)]
  rw [if_neg (by omega), if_neg (by omega), if_neg (by omega)]
  by_cases h0 : n = 0
  · subst h0; simp
  · by_cases hd : n = 0xD
    · subst hd; simp
    · rw [if_neg (by simp; omega), if_neg (by simp; omega), if_pos (by omega), if_neg h0, if_neg hd,
        show (0xE0 + n) % 0x10 = n by omega]

theorem begin?_four {n : Nat} (h : n ≤ 4) (start : Nat) :
    begin? start (UInt8.ofNat (0xF0 + n)) =
      some (.inr ⟨UInt8.ofNat (0xF0 + n), start, 1, 3, n, if n = 0 then 0x90 else 0x80,
        if n = 4 then 0x8F else 0xBF⟩) := by
  match n, h with
  | 0, _ | 1, _ | 2, _ | 3, _ | 4, _ => rfl

/-- An octet that goes on a character is taken with its six bits. -/
theorem decodeFrom_octet {p : Pending} {n : Nat} (h : n < 0x40) (low : p.low ≤ 0x80 + n)
    (high : 0x80 + n ≤ p.high) (offset : Nat) (rest : List UInt8) :
    decodeFrom offset (some p) (UInt8.ofNat (0x80 + n) :: rest) =
      if p.owed == 1 then
        (decodeFrom (offset + 1) none rest).map (Char.ofNat (p.bits * 0x40 + n) :: ·)
      else
        decodeFrom (offset + 1)
          (some ⟨p.first, p.start, p.seen + 1, p.owed - 1, p.bits * 0x40 + n, 0x80, 0xBF⟩)
          rest := by
  simp only [decodeFrom, toNat_octet (show 0x80 + n < 0x100 by omega)]
  rw [if_neg (by simp; omega), show (0x80 + n) % 0x40 = n by omega]

/-- The octets of a character are read as that character. -/
theorem decodeFrom_encodeChar (offset : Nat) (c : Char) (rest : List UInt8) :
    decodeFrom offset none (encodeChar c ++ rest) =
      (decodeFrom (offset + (encodeChar c).length) none rest).map (c :: ·) := by
  have valid : c.toNat < 0xD800 ∨ 0xDFFF < c.toNat ∧ c.toNat < 0x110000 := c.valid
  have hc : ∀ n, n = c.toNat → Char.ofNat n = c := fun n h => by rw [h, Char.ofNat_toNat]
  unfold encodeChar
  simp only
  split
  · simp only [List.cons_append, List.nil_append, decodeFrom, begin?_one ‹_›, List.length_cons,
      List.length_nil, Char.ofNat_toNat]
  · split
    · simp only [List.cons_append, List.nil_append, List.length_cons, List.length_nil]
      rw [decodeFrom]
      simp only [begin?_two (show 2 ≤ c.toNat / 0x40 ∧ c.toNat / 0x40 < 0x20 by omega)]
      rw [decodeFrom_octet (by omega) (by simp) (by simp; omega)]
      simp only [beq_self_eq_true, if_true]
      rw [hc _ (by omega)]
    · split
      · simp only [List.cons_append, List.nil_append, List.length_cons, List.length_nil]
        rw [decodeFrom]
        simp only [begin?_three (show c.toNat / 0x1000 < 0x10 by omega)]
        rw [decodeFrom_octet (by omega) (by grind) (by grind)]
        rw [if_neg (by simp), decodeFrom_octet (by omega) (by simp) (by simp; omega)]
        simp only [beq_self_eq_true, if_true, Nat.add_one_sub_one]
        rw [hc _ (by omega)]
      · simp only [List.cons_append, List.nil_append, List.length_cons, List.length_nil]
        rw [decodeFrom]
        simp only [begin?_four (show c.toNat / 0x40000 ≤ 4 by omega)]
        rw [decodeFrom_octet (by omega) (by grind) (by grind)]
        rw [if_neg (by simp), decodeFrom_octet (by omega) (by simp) (by simp; omega)]
        rw [if_neg (by simp), decodeFrom_octet (by omega) (by simp) (by simp; omega)]
        simp only [beq_self_eq_true, if_true, Nat.reduceSub]
        rw [hc _ (by omega)]

/-- What is written is read back. -/
theorem decode_encode (s : List Char) : decode (encode s) = .ok s := by
  suffices h : ∀ offset, decodeFrom offset none (encode s) = .ok s from h 0
  induction s with
  | nil => intro offset; rfl
  | cons c rest ih =>
    intro offset
    rw [encode, List.flatMap_cons, ← encode, decodeFrom_encodeChar, ih]
    rfl

theorem encode_injective {s t : List Char} (h : encode s = encode t) : s = t := by
  have := decode_encode s
  rw [h, decode_encode] at this
  exact (Except.ok.inj this).symm

end CodeSurvey.Text.Utf8
