import Mathlib.Data.List.Infix
import Opensquid.Lib.Utf8

/-!
# UTF-16 text

A text as the code units that a string is made of, and the number of bytes of its UTF-8 form: a half
of a surrogate pair without the other half counts as the replacement character, which has three
bytes. A prefix of the units ends between two characters or inside one (`prefix_encode`).
-/

namespace Opensquid.Lib.Utf16

/-- The character is written as a pair of surrogates. -/
def isAstral (c : Char) : Bool := 0x10000 ≤ c.toNat

def high (c : Char) : Nat := 0xd800 + (c.toNat - 0x10000) / 0x400

def low (c : Char) : Nat := 0xdc00 + (c.toNat - 0x10000) % 0x400

def units (c : Char) : List Nat := if isAstral c then [high c, low c] else [c.toNat]

def encode (chars : List Char) : List Nat := chars.flatMap units

def isHigh (u : Nat) : Bool := 0xd800 ≤ u && u < 0xdc00

def isLow (u : Nat) : Bool := 0xdc00 ≤ u && u < 0xe000

/-- The bytes of a unit that is not part of a pair. -/
def unitBytes (u : Nat) : Nat := if u < 0x80 then 1 else if u < 0x800 then 2 else 3

/-- `Buffer.byteLength(text, 'utf8')`. -/
def byteLength : List Nat → Nat
  | [] => 0
  | [u] => unitBytes u
  | u :: v :: rest =>
      if isHigh u && isLow v then 4 + byteLength rest else unitBytes u + byteLength (v :: rest)

/-- Every surrogate is part of a pair. -/
def wellFormed : List Nat → Bool
  | [] => true
  | [u] => !isHigh u && !isLow u
  | u :: v :: rest =>
      if isHigh u && isLow v then wellFormed rest
      else !isHigh u && !isLow u && wellFormed (v :: rest)

/-! ## One character -/

variable {c : Char} {u : Nat} {rest : List Nat}

theorem toNat_lt (c : Char) : c.toNat < 0x110000 := by
  rcases c.valid with small | ⟨_, small⟩
  · exact Nat.lt_trans small (by decide)
  · exact small

theorem isHigh_high (astral : isAstral c = true) : isHigh (high c) = true := by
  have bound := toNat_lt c
  have start := of_decide_eq_true astral
  have above : 0xd800 ≤ high c := Nat.le_add_right _ _
  have below : high c < 0xdc00 := by
    unfold high
    omega
  rw [isHigh, decide_eq_true above, decide_eq_true below, Bool.and_self]

theorem isLow_low (c : Char) : isLow (low c) = true := by
  have above : 0xdc00 ≤ low c := Nat.le_add_right _ _
  have below : low c < 0xe000 := by
    unfold low
    omega
  rw [isLow, decide_eq_true above, decide_eq_true below, Bool.and_self]

/-- A character of one unit is no surrogate. -/
theorem not_surrogate (plain : isAstral c = false) :
    isHigh c.toNat = false ∧ isLow c.toNat = false := by
  have below := of_decide_eq_false plain
  have gap : c.toNat < 0xd800 ∨ 0xdfff < c.toNat := by
    rcases c.valid with small | ⟨large, _⟩
    · exact .inl small
    · exact .inr large
  simp only [isHigh, isLow, Bool.and_eq_false_iff, decide_eq_false_iff_not]
  omega

theorem byteLength_cons_of_plain (plain : isHigh u = false) :
    byteLength (u :: rest) = unitBytes u + byteLength rest := by
  cases rest with
  | nil => rfl
  | cons v rest => rw [byteLength, plain, Bool.false_and, if_neg Bool.false_ne_true]

theorem wellFormed_cons_of_plain (plain : isHigh u = false) (plain' : isLow u = false) :
    wellFormed (u :: rest) = wellFormed rest := by
  cases rest with
  | nil => simp [wellFormed, plain, plain']
  | cons v rest => simp [wellFormed, plain, plain']

/-- The bytes of a character. -/
def charBytes (c : Char) : Nat := if isAstral c then 4 else unitBytes c.toNat

theorem byteLength_units_append (c : Char) (rest : List Nat) :
    byteLength (units c ++ rest) = charBytes c + byteLength rest := by
  unfold units charBytes
  split
  · rename_i astral
    rw [List.cons_append, List.cons_append, List.nil_append, byteLength, isHigh_high astral,
      isLow_low, Bool.and_self, if_pos rfl]
  · rename_i plain
    exact byteLength_cons_of_plain (not_surrogate (Bool.eq_false_iff.mpr plain)).1

theorem wellFormed_units_append (c : Char) (rest : List Nat) :
    wellFormed (units c ++ rest) = wellFormed rest := by
  unfold units
  split
  · rename_i astral
    rw [List.cons_append, List.cons_append, List.nil_append, wellFormed, isHigh_high astral,
      isLow_low, Bool.and_self, if_pos rfl]
  · rename_i plain
    obtain ⟨notHigh, notLow⟩ := not_surrogate (Bool.eq_false_iff.mpr plain)
    exact wellFormed_cons_of_plain notHigh notLow

theorem charBytes_eq (c : Char) : charBytes c = (String.utf8EncodeChar c).length := by
  have val : c.toNat = c.val.toNat := rfl
  rw [String.length_utf8EncodeChar]
  unfold charBytes unitBytes isAstral Char.utf8Size
  simp only [decide_eq_true_eq, UInt32.le_iff_toNat_le, UInt32.toNat_ofNatLT, val]
  repeat' split
  all_goals omega

/-! ## Any units -/

theorem one_le_unitBytes (u : Nat) : 1 ≤ unitBytes u := by
  unfold unitBytes
  split
  · exact Nat.le_refl 1
  · split <;> decide

theorem unitBytes_le (u : Nat) : unitBytes u ≤ 3 := by
  unfold unitBytes
  split
  · decide
  · split <;> decide

theorem unitBytes_of_high (half : isHigh u = true) : unitBytes u = 3 := by
  have range := of_decide_eq_true ((Bool.and_eq_true _ _).mp half).1
  rw [unitBytes, if_neg (by omega), if_neg (by omega)]

theorem isHigh_of_isLow (half : isLow u = true) : isHigh u = false := by
  have range := of_decide_eq_true ((Bool.and_eq_true _ _).mp half).1
  exact Bool.and_eq_false_iff.mpr (.inr (decide_eq_false (by omega)))

theorem byteLength_cons_le (u : Nat) (rest : List Nat) :
    byteLength (u :: rest) ≤ unitBytes u + byteLength rest := by
  cases rest with
  | nil => exact Nat.le_refl _
  | cons v rest =>
      rw [byteLength]
      split
      · rename_i pair
        obtain ⟨first, second⟩ := (Bool.and_eq_true _ _).mp pair
        have one := one_le_unitBytes v
        rw [byteLength_cons_of_plain (isHigh_of_isLow second), unitBytes_of_high first]
        omega
      · exact Nat.le_refl _

theorem byteLength_append_le (text more : List Nat) :
    byteLength (text ++ more) ≤ byteLength text + byteLength more := by
  fun_induction byteLength text with
  | case1 => exact Nat.le_of_eq (Nat.zero_add _).symm
  | case2 u => exact byteLength_cons_le u more
  | case3 u v rest pair ih =>
      rw [List.cons_append, List.cons_append, byteLength, if_pos pair]
      omega
  | case4 u v rest apart ih =>
      rw [List.cons_append, List.cons_append, byteLength, if_neg apart]
      rw [List.cons_append] at ih
      omega

theorem one_le_byteLength {text : List Nat} (solid : text ≠ []) : 1 ≤ byteLength text := by
  fun_cases byteLength text with
  | case1 => exact absurd rfl solid
  | case2 u => exact one_le_unitBytes u
  | case3 u v rest pair => omega
  | case4 u v rest apart =>
      have := one_le_unitBytes u
      omega

theorem byteLength_le (text : List Nat) : byteLength text ≤ 3 * text.length := by
  induction text with
  | nil => exact Nat.le_refl 0
  | cons u rest ih =>
      have whole := byteLength_cons_le u rest
      have three := unitBytes_le u
      rw [List.length_cons]
      omega

/-! ## Texts -/

theorem encode_cons (c : Char) (chars : List Char) : encode (c :: chars) = units c ++ encode chars :=
  List.flatMap_cons

theorem encode_append (chars more : List Char) : encode (chars ++ more) = encode chars ++ encode more :=
  List.flatMap_append

/-- Characters of one unit. -/
theorem encode_of_plain {chars : List Char} (plain : ∀ c ∈ chars, isAstral c = false) :
    encode chars = chars.map Char.toNat := by
  induction chars with
  | nil => rfl
  | cons c chars ih =>
      have one : units c = [c.toNat] := by
        rw [units, plain c List.mem_cons_self]
        rfl
      rw [encode_cons, one, ih fun d mem => plain d (List.mem_cons_of_mem c mem)]
      rfl

theorem byteLength_encode_append (chars : List Char) (rest : List Nat) :
    byteLength (encode chars ++ rest) = byteLength (encode chars) + byteLength rest := by
  induction chars with
  | nil => exact (Nat.zero_add _).symm
  | cons c chars ih =>
      rw [encode_cons, List.append_assoc, byteLength_units_append, ih, byteLength_units_append,
        Nat.add_assoc]

theorem wellFormed_encode_append (chars : List Char) (rest : List Nat) :
    wellFormed (encode chars ++ rest) = wellFormed rest := by
  induction chars with
  | nil => rfl
  | cons c chars ih => rw [encode_cons, List.append_assoc, wellFormed_units_append, ih]

/-- The number of bytes is that of the UTF-8 text. -/
theorem byteLength_encode (chars : List Char) :
    byteLength (encode chars) = (Utf8.encode chars).length := by
  induction chars with
  | nil => rfl
  | cons c chars ih =>
      rw [encode_cons, byteLength_units_append, Utf8.encode_cons, List.length_append, ih, charBytes_eq]

/-- A prefix ends between two characters, or between the surrogates of one. -/
theorem prefix_encode {chars : List Char} {front : List Nat} (start : front <+: encode chars) :
    (∃ p, p <+: chars ∧ front = encode p) ∨
      ∃ p c, p ++ [c] <+: chars ∧ isAstral c = true ∧ front = encode p ++ [high c] := by
  induction chars generalizing front with
  | nil => exact .inl ⟨[], List.prefix_rfl, List.prefix_nil.mp start⟩
  | cons c chars ih =>
      rw [encode_cons] at start
      by_cases whole : units c <+: front
      · obtain ⟨more, same⟩ := whole
        rw [← same] at start ⊢
        rcases ih ((List.prefix_append_right_inj _).mp start) with
          ⟨p, before, same'⟩ | ⟨p, d, before, astral, same'⟩
        · exact .inl ⟨c :: p, List.cons_prefix_cons.mpr ⟨rfl, before⟩, by rw [same', encode_cons]⟩
        · exact .inr ⟨c :: p, d, List.cons_prefix_cons.mpr ⟨rfl, before⟩, astral,
            by rw [same', encode_cons, List.append_assoc]⟩
      · have inside := (List.prefix_or_prefix_of_prefix start
          (List.prefix_append (units c) _)).resolve_right whole
        cases front with
        | nil => exact .inl ⟨[], List.nil_prefix, rfl⟩
        | cons u front =>
            unfold units at inside whole
            split at inside
            · rename_i astral
              obtain ⟨same, next⟩ := List.cons_prefix_cons.mp inside
              cases front with
              | nil =>
                  refine .inr ⟨[], c, List.cons_prefix_cons.mpr ⟨rfl, List.nil_prefix⟩, astral, ?_⟩
                  rw [same]
                  rfl
              | cons v front =>
                  obtain ⟨same', next⟩ := List.cons_prefix_cons.mp next
                  cases List.prefix_nil.mp next
                  rw [if_pos astral, same, same'] at whole
                  exact absurd List.prefix_rfl whole
            · rename_i plain
              obtain ⟨same, next⟩ := List.cons_prefix_cons.mp inside
              cases List.prefix_nil.mp next
              rw [if_neg plain, same] at whole
              exact absurd List.prefix_rfl whole

end Opensquid.Lib.Utf16
