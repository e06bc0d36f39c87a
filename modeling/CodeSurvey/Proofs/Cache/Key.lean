import CodeSurvey.Cache.Key
import CodeSurvey.Proofs.Text.Pieces
import CodeSurvey.Text.Utf8
import Mathlib.Data.List.Basic

/-!
What the digested octets tell about an input. The zero octet that closes a part is the octet of the
NUL character and of no other, so the parts can be told apart if none of them but the last holds
one. Main statements: two such inputs with the same octets agree in all four parts; an input is told
apart from every other one if and only if no part of it, the last included, holds a NUL character.
-/

namespace CodeSurvey

namespace Text.Utf8

/-- Only the NUL character has a zero among its octets. -/
theorem zero_mem_encodeChar {c : Char} (h : 0 ∈ encodeChar c) : c = '\x00' := by
  have hne : ∀ n, 0 < n → n < 0x100 → (0 : UInt8) ≠ UInt8.ofNat n := by
    intro n hpos hlt heq
    have := congrArg UInt8.toNat heq
    rw [toNat_octet hlt] at this
    exact absurd this (Nat.ne_of_lt hpos)
  have hvalid : c.toNat < 0x110000 := by
    have : c.toNat < 0xD800 ∨ 0xDFFF < c.toNat ∧ c.toNat < 0x110000 := c.valid
    omega
  unfold encodeChar at h
  simp only at h
  split at h
  · rename_i hsmall
    have hzero : c.toNat = 0 := by
      by_contra hpos
      exact hne _ (Nat.pos_of_ne_zero hpos) (by omega) (List.mem_singleton.1 h)
    rw [← Char.ofNat_toNat c, hzero]
  · exfalso
    split at h
    · simp only [List.mem_cons, List.not_mem_nil, or_false] at h
      rcases h with h | h <;> exact hne _ (by omega) (by omega) h
    · split at h
      · simp only [List.mem_cons, List.not_mem_nil, or_false] at h
        rcases h with h | h | h <;> exact hne _ (by omega) (by omega) h
      · simp only [List.mem_cons, List.not_mem_nil, or_false] at h
        rcases h with h | h | h | h <;> exact hne _ (by omega) (by omega) h

theorem zero_notMem_encode {s : List Char} (h : '\x00' ∉ s) : 0 ∉ encode s := by
  intro hmem
  obtain ⟨c, hc, hzero⟩ := List.mem_flatMap.1 hmem
  exact h (zero_mem_encodeChar hzero ▸ hc)

end Text.Utf8

namespace Cache

open Text

/-- The text holds no NUL character. -/
def NulFree (s : String) : Prop := '\x00' ∉ s.toList

instance (s : String) : Decidable (NulFree s) := inferInstanceAs (Decidable ('\x00' ∉ s.toList))

/-- No part of an input but its content holds a NUL character. -/
def Input.Separated (i : Input) : Prop :=
  NulFree i.kind ∧ NulFree i.path ∧ NulFree (i.language.getD "")

instance (i : Input) : Decidable i.Separated :=
  inferInstanceAs (Decidable (NulFree i.kind ∧ NulFree i.path ∧ NulFree (i.language.getD "")))

theorem Input.bytes_eq (i : Input) : i.bytes =
    Utf8.encode i.kind.toList ++ 0 :: (Utf8.encode i.path.toList ++
      0 :: (Utf8.encode (i.language.getD "").toList ++ 0 :: (Utf8.encode i.content ++ [0]))) := by
  simp [bytes]

/-- The octets up to the first zero are those of the first part. -/
theorem closed_inj {s t : String} {more rest : List UInt8} (hs : NulFree s) (ht : NulFree t)
    (h : Utf8.encode s.toList ++ 0 :: more = Utf8.encode t.toList ++ 0 :: rest) :
    s = t ∧ more = rest := by
  have hfront : ∀ (u : String) (tail : List UInt8), NulFree u →
      (Utf8.encode u.toList ++ 0 :: tail).takeWhile (· ≠ 0) = Utf8.encode u.toList := by
    intro u tail hu
    have hall : ∀ b ∈ Utf8.encode u.toList, decide (b ≠ 0) = true := by
      intro b hb
      exact decide_eq_true fun hzero => Utf8.zero_notMem_encode hu (hzero ▸ hb)
    rw [List.takeWhile_append_of_pos hall]
    simp
  have hbytes : Utf8.encode s.toList = Utf8.encode t.toList := by
    rw [← hfront s more hs, h, hfront t rest ht]
  rw [hbytes] at h
  exact ⟨String.toList_inj.1 (Utf8.encode_injective hbytes),
    (List.cons.inj (List.append_cancel_left h)).2⟩

/-- Inputs with the same octets agree in all four parts. -/
theorem Input.parts_eq {i j : Input} (hi : i.Separated) (hj : j.Separated)
    (h : i.bytes = j.bytes) :
    i.kind = j.kind ∧ i.path = j.path ∧ i.language.getD "" = j.language.getD "" ∧
      i.content = j.content := by
  rw [bytes_eq, bytes_eq] at h
  obtain ⟨hkind, h⟩ := closed_inj hi.1 hj.1 h
  obtain ⟨hpath, h⟩ := closed_inj hi.2.1 hj.2.1 h
  obtain ⟨hlanguage, h⟩ := closed_inj hi.2.2 hj.2.2 h
  exact ⟨hkind, hpath, hlanguage, Utf8.encode_injective (List.append_cancel_right h)⟩

/-! ### Which inputs are told apart -/

/-- The parts of an input as texts. -/
def Input.parts (i : Input) : List (List Char) :=
  [i.kind.toList, i.path.toList, (i.language.getD "").toList, i.content]

/-- The input with given parts. -/
def Input.ofParts (kind path language content : List Char) : Input :=
  ⟨.ofList kind, .ofList path, some (.ofList language), content⟩

@[simp] theorem Input.parts_ofParts (kind path language content : List Char) :
    (ofParts kind path language content).parts = [kind, path, language, content] := by
  simp [parts, ofParts]

/-- The octets are those of the parts with a NUL character between any two, closed once more. -/
theorem Input.bytes_eq_encode (i : Input) :
    i.bytes = Utf8.encode (join ['\x00'] i.parts) ++ [0] := by
  have happend : ∀ s t : List Char,
      Utf8.encode (s ++ ['\x00'] ++ t) = Utf8.encode s ++ 0 :: Utf8.encode t := by
    intro s t
    rw [Utf8.encode, List.flatMap_append, List.flatMap_append, List.append_assoc]
    rfl
  rw [bytes_eq, parts, join_cons_cons, join_cons_cons, join_cons_cons, join, happend, happend,
    happend]
  simp

/-- Two inputs have the same octets if and only if they read the same with NUL characters between
    their parts. -/
theorem Input.bytes_eq_iff {i j : Input} :
    i.bytes = j.bytes ↔ join ['\x00'] i.parts = join ['\x00'] j.parts := by
  rw [bytes_eq_encode, bytes_eq_encode, List.append_cancel_right_eq]
  exact ⟨fun h => Utf8.encode_injective h, congrArg Utf8.encode⟩

/-- The octets of an input without NUL characters are those of no other input: another one would
    have to be cut at the same three places. -/
theorem Input.parts_eq_of_nulFree {i j : Input} (hi : ∀ part ∈ i.parts, '\x00' ∉ part)
    (h : i.bytes = j.bytes) : i.parts = j.parts := by
  have hne : ∀ k : Input, k.parts ≠ [] := fun k => List.cons_ne_nil _ _
  rw [bytes_eq_iff] at h
  have hj : ∀ part ∈ j.parts, '\x00' ∉ part := by
    rw [← count_join_eq_iff _ (hne j), ← h]
    exact (count_join_eq_iff _ (hne i)).2 hi
  rw [← pieces_join (hne i) hi, h, pieces_join (hne j) hj]

/-- A part with a NUL character can be cut there as well, its neighbour taking the rest. -/
theorem Input.exists_other {i : Input} {part : List Char} (hpart : part ∈ i.parts)
    (hnul : '\x00' ∈ part) : ∃ j : Input, i.parts ≠ j.parts ∧ i.bytes = j.bytes := by
  obtain ⟨front, behind, rfl⟩ := List.append_of_mem hnul
  simp only [bytes_eq_iff]
  generalize hkind : i.kind.toList = kind
  generalize hpath : i.path.toList = path
  generalize hlanguage : (i.language.getD "").toList = language
  generalize hcontent : i.content = content
  have hi : i.parts = [kind, path, language, content] := by
    rw [parts, hkind, hpath, hlanguage, hcontent]
  rw [hi] at hpart ⊢
  simp only [List.mem_cons, List.not_mem_nil, or_false] at hpart
  rcases hpart with rfl | rfl | rfl | rfl
  · exact ⟨ofParts front (behind ++ '\x00' :: path) language content, by simp, by simp [join]⟩
  · exact ⟨ofParts (kind ++ '\x00' :: front) behind language content, by simp, by simp [join]⟩
  · exact ⟨ofParts kind (path ++ '\x00' :: front) behind content, by simp, by simp [join]⟩
  · exact ⟨ofParts kind path (language ++ '\x00' :: front) behind, by simp, by simp [join]⟩

/-- Inputs that differ have different octets if no part but the content holds a NUL character; an
    input differs in its octets from every other input if and only if no part of it holds one. -/
theorem Input.told_apart (i : Input) :
    (i.Separated → ∀ j : Input, j.Separated → i.parts ≠ j.parts → i.bytes ≠ j.bytes) ∧
      ((∀ j : Input, i.parts ≠ j.parts → i.bytes ≠ j.bytes) ↔ ∀ part ∈ i.parts, '\x00' ∉ part) := by
  refine ⟨fun hi j hj hne h => hne ?_, fun hapart part hpart hnul => ?_, ?_⟩
  · obtain ⟨hkind, hpath, hlanguage, hcontent⟩ := parts_eq hi hj h
    rw [parts, parts, hkind, hpath, hlanguage, hcontent]
  · obtain ⟨j, hne, hbytes⟩ := exists_other hpart hnul
    exact hapart j hne hbytes
  · exact fun hnul j hne h => hne (parts_eq_of_nulFree hnul h)

/-- A path with a NUL character in it ends like a shorter path and a language. -/
theorem Input.bytes_collide :
    let shorter : Input :=
      ⟨"signatures", "a.js", some "javascript", "python\x00def f(): pass".toList⟩
    let longer : Input :=
      ⟨"signatures", "a.js\x00javascript", some "python", "def f(): pass".toList⟩
    shorter.parts ≠ longer.parts ∧ shorter.bytes = longer.bytes := by
  decide

/-- Told apart by the place of the boundary alone, and from every other input. -/
theorem Input.told_apart_shifted_boundary :
    let i : Input := ⟨"ab", "c", none, []⟩
    let j : Input := ⟨"a", "bc", none, []⟩
    (i.Separated ∧ j.Separated ∧ i.parts ≠ j.parts ∧ i.bytes ≠ j.bytes) ∧
      ((∀ part ∈ i.parts, '\x00' ∉ part) ∧ ∀ k : Input, i.parts ≠ k.parts → i.bytes ≠ k.bytes) :=
  ⟨⟨by decide, by decide, by decide, (told_apart _).1 (by decide) _ (by decide) (by decide)⟩,
    ⟨by decide, (told_apart _).2.2 (by decide)⟩⟩

end Cache

end CodeSurvey
