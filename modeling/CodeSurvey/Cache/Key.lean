import CodeSurvey.Text.Utf8

/-!
Keys of cached results. A result is known by its kind and by everything it is made from: path,
language and text. The key is the digest of these four, each closed by a zero octet.

The digest of a list of octets has 160 bits and is written in hexadecimal. The octets are filled up
to whole blocks of 64, the last eight octets being their number of bits; each block stirs a state of
five words in eighty rounds.
-/

namespace CodeSurvey.Digest

/-- The state between two blocks. -/
structure State where
  a : UInt32
  b : UInt32
  c : UInt32
  d : UInt32
  e : UInt32
  deriving DecidableEq, Repr

/-- The state before the first block. -/
def State.initial : State := ⟨0x67452301, 0xEFCDAB89, 0x98BADCFE, 0x10325476, 0xC3D2E1F0⟩

/-- Turns a word left. -/
def turnLeft (x : UInt32) (n : UInt32) : UInt32 := (x <<< n) ||| (x >>> (32 - n))

/-- The four octets of a word, the highest first. -/
def wordBytes (x : UInt32) : List UInt8 :=
  [(x >>> 24).toUInt8, (x >>> 16).toUInt8, (x >>> 8).toUInt8, x.toUInt8]

/-- The octets of a number in so many places, the highest first. -/
def numberBytes : Nat → Nat → List UInt8
  | 0, _ => []
  | places + 1, n => UInt8.ofNat (n / 256 ^ places % 256) :: numberBytes places n

/-- The octets with an end mark, zeros and the number of their bits behind them. -/
def padded (bytes : List UInt8) : List UInt8 :=
  let zeros := (119 - bytes.length % 64) % 64
  bytes ++ 0x80 :: List.replicate zeros 0 ++ numberBytes 8 (8 * bytes.length)

/-- Words of four octets. -/
def words : List UInt8 → List UInt32
  | p :: q :: r :: s :: more =>
    ((p.toUInt32 <<< 24) ||| (q.toUInt32 <<< 16) ||| (r.toUInt32 <<< 8) ||| s.toUInt32) ::
      words more
  | _ => []

/-- Adds so many words to the words of a block, which are listed the last first: each is made from
    those 3, 8, 14 and 16 places before it. -/
def schedule : Nat → List UInt32 → List UInt32
  | 0, made => made
  | n + 1, made =>
    let word := fun (back : Nat) => made.getD (back - 1) 0
    schedule n (turnLeft (word 3 ^^^ word 8 ^^^ word 14 ^^^ word 16) 1 :: made)

/-- How a round mixes three words of the state, and its constant. -/
def mix (round : Nat) (b c d : UInt32) : UInt32 × UInt32 :=
  if round < 20 then ((b &&& c) ||| (~~~b &&& d), 0x5A827999)
  else if round < 40 then (b ^^^ c ^^^ d, 0x6ED9EBA1)
  else if round < 60 then ((b &&& c) ||| (b &&& d) ||| (c &&& d), 0x8F1BBCDC)
  else (b ^^^ c ^^^ d, 0xCA62C1D6)

/-- The rounds from a number on, one for each word. -/
def rounds (round : Nat) (s : State) : List UInt32 → State
  | [] => s
  | word :: more =>
    let (mixed, constant) := mix round s.b s.c s.d
    rounds (round + 1)
      ⟨turnLeft s.a 5 + mixed + s.e + constant + word, s.a, turnLeft s.b 30, s.c, s.d⟩ more

/-- Stirs a block into the state. -/
def stir (s : State) (block : List UInt32) : State :=
  let t := rounds 0 s (schedule 64 block.reverse).reverse
  ⟨s.a + t.a, s.b + t.b, s.c + t.c, s.d + t.d, s.e + t.e⟩

/-- Stirs so many blocks of sixteen words into the state. -/
def stirAll : Nat → State → List UInt32 → State
  | 0, s, _ => s
  | blocks + 1, s, ws => stirAll blocks (stir s (ws.take 16)) (ws.drop 16)

/-- The digest of octets. -/
def digest (bytes : List UInt8) : List UInt8 :=
  let ws := words (padded bytes)
  let s := stirAll (ws.length / 16) .initial ws
  [s.a, s.b, s.c, s.d, s.e].flatMap wordBytes

/-- The digest of octets in hexadecimal. -/
def hexDigest (bytes : List UInt8) : String := String.join ((digest bytes).map Text.Utf8.hexByte)

end CodeSurvey.Digest

namespace CodeSurvey.Cache

/-- What a result is made from. -/
structure Input where
  /-- The kind of the result. -/
  kind : String
  path : String
  language : Option String
  content : List Char
  deriving DecidableEq, Repr

/-- The octets that are digested; no language counts like an empty one. -/
def Input.bytes (i : Input) : List UInt8 :=
  [i.kind.toList, i.path.toList, (i.language.getD "").toList, i.content].flatMap fun part =>
    Text.Utf8.encode part ++ [0]

/-- The key of a result. -/
def Input.key (i : Input) : String := Digest.hexDigest i.bytes

end CodeSurvey.Cache
