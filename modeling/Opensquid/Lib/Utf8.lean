import Mathlib.Data.List.Basic
import Mathlib.Data.List.Infix
import Mathlib.Tactic.Common

/-!
# UTF-8 text that is cut off anywhere

`encode` writes characters as bytes and `decode` reads bytes, a replacement
character standing for what is not valid. A reader of a growing file sees a prefix
of an encoded text, which may end inside a character. What is cut off contains no
line feed (`IsTextPrefix.split`), so the lines that are complete in the bytes and
in the decoded characters are the same (`decode_unlines_append`).
-/

namespace Opensquid.Lib.Utf8

open String (utf8EncodeChar)

def encode (chars : List Char) : List UInt8 := chars.flatMap utf8EncodeChar

/-- The valid character that the bytes start with. -/
def headChar? (bytes : List UInt8) : Option Char := bytes.toByteArray.utf8DecodeChar? 0

/-- The second bytes that may follow a lead byte, and how many bytes follow it. -/
def continuation (lead : UInt8) : Option (UInt8 × UInt8 × Nat) :=
  if 0xc2 ≤ lead ∧ lead ≤ 0xdf then some (0x80, 0xbf, 1)
  else if lead = 0xe0 then some (0xa0, 0xbf, 2)
  else if lead = 0xed then some (0x80, 0x9f, 2)
  else if 0xe1 ≤ lead ∧ lead ≤ 0xef then some (0x80, 0xbf, 2)
  else if lead = 0xf0 then some (0x90, 0xbf, 3)
  else if 0xf1 ≤ lead ∧ lead ≤ 0xf3 then some (0x80, 0xbf, 3)
  else if lead = 0xf4 then some (0x80, 0x8f, 3)
  else none

/-- The bytes that one replacement character stands for: the longest start of a
character that the invalid bytes begin with, at least one. -/
def maximalSubpart : List UInt8 → Nat
  | lead :: second :: rest =>
      match continuation lead with
      | none => 1
      | some (low, high, count) =>
          if low ≤ second ∧ second ≤ high then
            2 + ((rest.take (count - 1)).takeWhile fun b => 0x80 ≤ b && b ≤ 0xbf).length
          else 1
  | _ => 1

/-- `decode` with a bound on the number of characters. -/
def decodeWithin : Nat → List UInt8 → List Char
  | n + 1, lead :: rest =>
      match headChar? (lead :: rest) with
      | some c => c :: decodeWithin n ((lead :: rest).drop c.utf8Size)
      | none => '\ufffd' :: decodeWithin n ((lead :: rest).drop (maximalSubpart (lead :: rest)))
  | _, _ => []

/-- `buffer.toString('utf8')`. -/
def decode (bytes : List UInt8) : List Char := decodeWithin bytes.length bytes

/-! ## One character -/

theorem headChar?_encode (c : Char) (rest : List UInt8) :
    headChar? (utf8EncodeChar c ++ rest) = some c := by
  rw [headChar?, List.toByteArray_append]
  exact ByteArray.utf8DecodeChar?_utf8EncodeChar_append

theorem exists_of_headChar?_eq_some {bytes : List UInt8} {c : Char}
    (head : headChar? bytes = some c) : ∃ rest, bytes = utf8EncodeChar c ++ rest := by
  obtain ⟨rest, same⟩ := ByteArray.exists_of_utf8DecodeChar?_eq_some head
  refine ⟨rest.data.toList, ?_⟩
  simpa using congrArg (fun b => b.data.toList) same

theorem encode_cons (c : Char) (chars : List Char) :
    encode (c :: chars) = utf8EncodeChar c ++ encode chars := List.flatMap_cons

theorem encode_append (chars more : List Char) :
    encode (chars ++ more) = encode chars ++ encode more := List.flatMap_append

theorem length_le_length_encode (chars : List Char) : chars.length ≤ (encode chars).length := by
  induction chars with
  | nil => exact le_rfl
  | cons c chars ih =>
      have positive := c.utf8Size_pos
      rw [encode_cons, List.length_append, String.length_utf8EncodeChar, List.length_cons]
      omega

/-- The byte of a line feed occurs in no other character. -/
theorem eq_newline_of_mem_encode {c : Char} (member : (10 : UInt8) ∈ utf8EncodeChar c) :
    c = '\n' := by
  have read : ∀ n : Nat, (10 : UInt8) = UInt8.ofNat n → n % 256 = 10 := fun n same => by
    rw [← UInt8.toNat_ofNat', ← same]
    rfl
  have value : c.val.toNat = 10 := by
    rw [utf8EncodeChar] at member
    split at member
    · have byte := read _ (List.mem_singleton.mp member)
      omega
    split at member
    · simp only [List.mem_cons, List.not_mem_nil, or_false] at member
      rcases member with byte | byte <;> have := read _ byte <;> omega
    split at member
    · simp only [List.mem_cons, List.not_mem_nil, or_false] at member
      rcases member with byte | byte | byte <;> have := read _ byte <;> omega
    · simp only [List.mem_cons, List.not_mem_nil, or_false] at member
      rcases member with byte | byte | byte | byte <;> have := read _ byte <;> omega
  exact Char.ext (UInt32.toNat_inj.mp value)

theorem encode_newline : utf8EncodeChar '\n' = [10] := rfl

theorem newline_of_mem_encode {chars : List Char} (member : (10 : UInt8) ∈ encode chars) :
    '\n' ∈ chars := by
  obtain ⟨c, inside, byte⟩ := List.mem_flatMap.mp member
  exact eq_newline_of_mem_encode byte ▸ inside

/-! ## Prefixes of a text -/

/-- The bytes are the beginning of some text. -/
def IsTextPrefix (bytes : List UInt8) : Prop := ∃ chars, bytes <+: encode chars

theorem IsTextPrefix.of_prefix {bytes more : List UInt8} (start : bytes <+: more)
    (text : IsTextPrefix more) : IsTextPrefix bytes :=
  have ⟨chars, whole⟩ := text
  ⟨chars, start.trans whole⟩

/-- After whole characters the beginning of a text goes on as the beginning of a
text. -/
theorem IsTextPrefix.cancel {chars : List Char} {rest : List UInt8}
    (text : IsTextPrefix (encode chars ++ rest)) : IsTextPrefix rest := by
  obtain ⟨whole, start⟩ := text
  induction chars generalizing whole with
  | nil => exact ⟨whole, start⟩
  | cons c chars ih =>
      rw [encode_cons, List.append_assoc] at start
      obtain ⟨more, same⟩ := start
      cases whole with
      | nil =>
          have short := congrArg List.length same
          have positive := c.utf8Size_pos
          simp only [List.length_append, String.length_utf8EncodeChar, encode, List.flatMap_nil,
            List.length_nil] at short
          omega
      | cons d whole =>
          have head : some c = some d := by
            rw [← headChar?_encode c (encode chars ++ rest ++ more), ← List.append_assoc, same,
              encode_cons, headChar?_encode]
          cases Option.some.inj head
          rw [encode_cons, List.append_assoc, List.append_cancel_left_eq] at same
          exact ih whole ⟨more, same⟩

/-- The beginning of a text is whole characters and a rest without a line feed. -/
theorem IsTextPrefix.split {bytes : List UInt8} (text : IsTextPrefix bytes) :
    ∃ chars rest, bytes = encode chars ++ rest ∧ (10 : UInt8) ∉ rest := by
  obtain ⟨whole, start⟩ := text
  induction whole generalizing bytes with
  | nil =>
      rw [List.prefix_nil.mp start]
      exact ⟨[], [], rfl, List.not_mem_nil⟩
  | cons c whole ih =>
      rw [encode_cons] at start
      rcases List.prefix_or_prefix_of_prefix start (List.prefix_append _ _) with inside | covers
      · by_cases newline : (10 : UInt8) ∈ bytes
        · cases eq_newline_of_mem_encode (inside.subset newline)
          refine ⟨['\n'], [], ?_, List.not_mem_nil⟩
          rw [encode_newline] at inside
          exact inside.eq_of_length
            (le_antisymm inside.length_le (List.length_pos_of_mem newline))
        · exact ⟨[], bytes, rfl, newline⟩
      · obtain ⟨more, rfl⟩ := covers
        obtain ⟨chars, rest, same, free⟩ :=
          ih ((List.prefix_append_right_inj _).mp start)
        refine ⟨c :: chars, rest, ?_, free⟩
        rw [encode_cons, List.append_assoc, same]

/-! ## Decoding -/

theorem newline_not_mem_decodeWithin {n : Nat} {bytes : List UInt8} (free : (10 : UInt8) ∉ bytes) :
    '\n' ∉ decodeWithin n bytes := by
  induction n generalizing bytes with
  | zero => exact List.not_mem_nil
  | succ n ih =>
      cases bytes with
      | nil => exact List.not_mem_nil
      | cons lead rest =>
          have dropped : ∀ k, (10 : UInt8) ∉ (lead :: rest).drop k :=
            fun k member => free (List.mem_of_mem_drop member)
          rw [decodeWithin]
          split
          · rename_i c head
            obtain ⟨rest, same⟩ := exists_of_headChar?_eq_some head
            intro member
            rcases List.mem_cons.mp member with newline | later
            · subst newline
              rw [same, encode_newline] at free
              exact free List.mem_cons_self
            · exact ih (dropped _) later
          · intro member
            rcases List.mem_cons.mp member with newline | later
            · cases newline
            · exact ih (dropped _) later

theorem decodeWithin_encode_append {n : Nat} {chars : List Char} {rest : List UInt8}
    (enough : chars.length ≤ n) :
    decodeWithin n (encode chars ++ rest) = chars ++ decodeWithin (n - chars.length) rest := by
  induction chars generalizing n with
  | nil => rfl
  | cons c chars ih =>
      obtain ⟨n, rfl⟩ : ∃ m, n = m + 1 := ⟨n - 1, by rw [List.length_cons] at enough; omega⟩
      rw [List.length_cons] at enough ⊢
      obtain ⟨lead, tail, bytes⟩ := List.exists_cons_of_ne_nil
        (List.append_ne_nil_of_left_ne_nil (String.utf8EncodeChar_ne_nil (c := c))
          (encode chars ++ rest))
      have head := headChar?_encode c (encode chars ++ rest)
      rw [encode_cons, List.append_assoc]
      rw [bytes] at head ⊢
      rw [decodeWithin, head, ← bytes]
      simp only
      rw [← String.length_utf8EncodeChar, List.drop_left, ih (Nat.le_of_succ_le_succ enough),
        List.cons_append, Nat.add_sub_add_right]

/-- Whole characters are decoded as such, and what follows them without a line feed
yields no line feed. -/
theorem decode_encode_append (chars : List Char) {rest : List UInt8}
    (free : (10 : UInt8) ∉ rest) :
    ∃ last, decode (encode chars ++ rest) = chars ++ last ∧ '\n' ∉ last := by
  refine ⟨_, decodeWithin_encode_append ?_, newline_not_mem_decodeWithin free⟩
  have long := length_le_length_encode chars
  rw [List.length_append]
  omega

theorem decode_encode (chars : List Char) : decode (encode chars) = chars := by
  have whole := @decodeWithin_encode_append _ chars [] (length_le_length_encode chars)
  rw [List.append_nil] at whole
  rw [decode, whole]
  cases (encode chars).length - chars.length <;> exact List.append_nil chars

end Opensquid.Lib.Utf8
