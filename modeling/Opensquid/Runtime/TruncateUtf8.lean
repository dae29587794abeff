import Opensquid.Lib.Utf16

/-!
# Truncating a text to a number of bytes

The loop drops code units from the end until the text and the marker fit. It may stop inside a
character of two units, whose first half counts three bytes. `truncates_iff`: the result is a prefix
between characters and the marker, within the limit, unless a character of four bytes stands where
just three are left, or the limit is below zero.
-/

namespace Opensquid.Subagents

open Opensquid.Lib Utf16

def suffix : List Nat := encode "\n\n[truncated]".toList

/-- The loop; the text is given from its end. -/
def shrink (maxBytes : Int) : List Nat → List Nat
  | [] => []
  | u :: front =>
      if (byteLength (u :: front).reverse + byteLength suffix : Nat) > maxBytes then
        shrink maxBytes front
      else (u :: front).reverse

def truncateUtf8 (text : List Nat) (maxBytes : Int) : List Nat :=
  if byteLength text ≤ maxBytes then text
  else if byteLength suffix ≥ maxBytes then suffix.take (max 0 maxBytes).toNat
  else shrink maxBytes text.reverse ++ suffix

/-! ## What is claimed -/

/-- The text as it is, or cut between two characters and marked. -/
structure Truncates (text : List Char) (maxBytes : Int) (out : List Nat) : Prop where
  whole : byteLength (encode text) ≤ maxBytes → out = encode text
  bounded : ¬ byteLength (encode text) ≤ maxBytes → byteLength out ≤ maxBytes
  wellFormed : ¬ byteLength (encode text) ≤ maxBytes → wellFormed out = true
  marked : ¬ byteLength (encode text) ≤ maxBytes → byteLength suffix ≤ maxBytes →
    ∃ p, p <+: text ∧ out = encode p ++ suffix ∧
      byteLength (encode p) + byteLength suffix ≤ maxBytes ∧
      ∀ q, q <+: text → byteLength (encode q) + byteLength suffix ≤ maxBytes → q.length ≤ p.length

/-- A character of four bytes stands where three bytes are left for it. -/
def Splits (text : List Char) (maxBytes : Int) : Prop :=
  ∃ p c, p ++ [c] <+: text ∧ isAstral c = true ∧
    (byteLength (encode p) + 3 + byteLength suffix : Nat) = maxBytes

/-! ## The loop -/

variable {text : List Char} {maxBytes : Int}

theorem byteLength_suffix : byteLength suffix = 13 := by decide

/-- The loop finds the longest prefix that fits. -/
theorem shrink_spec (maxBytes : Int) (back : List Nat) :
    shrink maxBytes back <+: back.reverse ∧
      (shrink maxBytes back = [] ∨
        (byteLength (shrink maxBytes back) + byteLength suffix : Nat) ≤ maxBytes) ∧
      ∀ front, front <+: back.reverse → (shrink maxBytes back).length < front.length →
        maxBytes < (byteLength front + byteLength suffix : Nat) := by
  induction back with
  | nil =>
      refine ⟨List.prefix_rfl, .inl rfl, fun front start longer => ?_⟩
      rw [List.prefix_nil.mp start] at longer
      exact absurd longer (Nat.lt_irrefl 0)
  | cons u back ih =>
      unfold shrink
      split
      · rename_i exceeds
        obtain ⟨start, fits, beyond⟩ := ih
        rw [List.reverse_cons] at exceeds ⊢
        refine ⟨start.trans (List.prefix_append _ _), fits, fun front whole longer => ?_⟩
        rcases List.prefix_concat_iff.mp whole with same | inside
        · rw [same]
          exact exceeds
        · exact beyond front inside longer
      · rename_i fits
        refine ⟨List.prefix_rfl, .inr (Int.not_lt.mp fits), fun front whole longer => ?_⟩
        exact absurd whole.length_le (Nat.not_le.mpr longer)

theorem wellFormed_suffix_append (p : List Char) : wellFormed (encode p ++ suffix) = true := by
  rw [wellFormed_encode_append]
  decide

/-- A half of a pair in front of the marker is alone. -/
theorem not_wellFormed_of_high {c : Char} (astral : isAstral c = true) (p : List Char) :
    wellFormed (encode p ++ [high c] ++ suffix) = false := by
  obtain ⟨next, rest, same, plain⟩ : ∃ next rest, suffix = next :: rest ∧ isLow next = false :=
    ⟨10, _, rfl, rfl⟩
  rw [List.append_assoc, wellFormed_encode_append, List.singleton_append, same, wellFormed,
    isHigh_high astral, plain]
  rfl

theorem byteLength_high (c : Char) : byteLength [high c] = 3 := by
  have above : 0xd800 ≤ high c := Nat.le_add_right _ _
  rw [byteLength, unitBytes, if_neg (by omega), if_neg (by omega)]

theorem byteLength_astral {c : Char} (astral : isAstral c = true) (p : List Char) :
    byteLength (encode (p ++ [c])) = byteLength (encode p) + 4 := by
  have one : encode [c] = units c ++ [] := encode_cons c []
  rw [encode_append, byteLength_encode_append, one, byteLength_units_append, charBytes, if_pos astral]
  rfl

theorem encode_mono {p q : List Char} (start : p <+: q) : encode p <+: encode q := by
  obtain ⟨more, same⟩ := start
  rw [← same, encode_append]
  exact List.prefix_append _ _

theorem length_le_length_encode (chars : List Char) : chars.length ≤ (encode chars).length := by
  induction chars with
  | nil => exact Nat.le_refl 0
  | cons c chars ih =>
      have one : 1 ≤ (units c).length := by
        unfold units
        split <;> exact Nat.succ_le_succ (Nat.zero_le _)
      rw [encode_cons, List.length_append, List.length_cons]
      omega

/-- Longer prefixes have more units. -/
theorem length_encode_lt {p q : List Char} (whole : q <+: text) (start : p <+: text)
    (longer : p.length < q.length) : (encode p).length < (encode q).length := by
  obtain ⟨more, same⟩ := List.prefix_of_prefix_length_le start whole (Nat.le_of_lt longer)
  rw [← same, List.length_append] at longer
  rw [← same, encode_append, List.length_append]
  have := length_le_length_encode more
  omega

/-! ## Any text -/

/-- A text that is cut has its longest start that fits before the marker. -/
theorem truncateUtf8_cut {text : List Nat} (exceeds : ¬ byteLength text ≤ maxBytes)
    (roomy : 13 < maxBytes) : ∃ front next more, text = front ++ next :: more ∧
      truncateUtf8 text maxBytes = front ++ suffix ∧ (byteLength front + 13 : Nat) ≤ maxBytes ∧
      maxBytes < (byteLength (front ++ [next]) + 13 : Nat) := by
  obtain ⟨start, fits, beyond⟩ := shrink_spec maxBytes text.reverse
  rw [List.reverse_reverse] at start beyond
  rw [byteLength_suffix] at fits beyond
  have within : (byteLength (shrink maxBytes text.reverse) + 13 : Nat) ≤ maxBytes := by
    rcases fits with empty | fits
    · rw [empty, byteLength]
      omega
    · exact fits
  obtain ⟨rest, whole⟩ := start
  cases rest with
  | nil =>
      rw [List.append_nil] at whole
      rw [whole] at within
      omega
  | cons next more =>
      refine ⟨_, next, more, whole.symm, ?_, within, beyond _ ⟨more, ?_⟩ ?_⟩
      · rw [truncateUtf8, if_neg exceeds, byteLength_suffix, if_neg (by omega)]
      · rw [List.append_assoc]
        exact whole
      · rw [List.length_append]
        exact Nat.lt_succ_self _

theorem byteLength_truncateUtf8_le {text : List Nat} (roomy : 13 < maxBytes) :
    byteLength (truncateUtf8 text maxBytes) ≤ maxBytes := by
  by_cases fits : byteLength text ≤ maxBytes
  · rw [truncateUtf8, if_pos fits]
    exact fits
  · obtain ⟨front, next, more, -, cut, within, -⟩ := truncateUtf8_cut fits roomy
    have sum := byteLength_append_le front suffix
    rw [byteLength_suffix] at sum
    rw [cut]
    omega

theorem truncateUtf8_ne_nil {text : List Nat} (solid : text ≠ []) (roomy : 13 < maxBytes) :
    truncateUtf8 text maxBytes ≠ [] := by
  by_cases fits : byteLength text ≤ maxBytes
  · rw [truncateUtf8, if_pos fits]
    exact solid
  · obtain ⟨front, next, more, -, cut, -, -⟩ := truncateUtf8_cut fits roomy
    rw [cut]
    exact List.append_ne_nil_of_right_ne_nil front (by decide)

/-! ## The result -/

/-- Between two characters, the cut is as it should be. -/
theorem truncates_of_boundary {p : List Char} (exceeds : ¬ byteLength (encode text) ≤ maxBytes)
    (start : p <+: text) (fits : (byteLength (encode p) + byteLength suffix : Nat) ≤ maxBytes)
    (beyond : ∀ front, front <+: encode text → (encode p).length < front.length →
      maxBytes < (byteLength front + byteLength suffix : Nat)) :
    Truncates text maxBytes (encode p ++ suffix) where
  whole within := absurd within exceeds
  bounded _ := by
    rw [byteLength_encode_append]
    exact fits
  wellFormed _ := wellFormed_suffix_append p
  marked _ _ := by
    refine ⟨p, start, rfl, by exact_mod_cast fits, fun q whole within => ?_⟩
    by_contra longer
    have := beyond (encode q) (encode_mono whole)
      (length_encode_lt whole start (Nat.not_le.mp longer))
    omega

/-- A character that stands across the limit is not cut between two others. -/
theorem not_splits_of_boundary {p : List Char} (start : p <+: text)
    (fits : (byteLength (encode p) + byteLength suffix : Nat) ≤ maxBytes)
    (beyond : ∀ front, front <+: encode text → (encode p).length < front.length →
      maxBytes < (byteLength front + byteLength suffix : Nat)) : ¬ Splits text maxBytes := by
  intro ⟨q, c, whole, astral, exact⟩
  have half : encode q ++ [high c] <+: encode text := by
    have both : encode q ++ [high c] <+: encode (q ++ [c]) := by
      have one : encode [c] = [high c] ++ [low c] := by
        rw [encode_cons, units, if_pos astral]
        rfl
      rw [encode_append, one, ← List.append_assoc]
      exact List.prefix_append _ _
    exact both.trans (encode_mono whole)
  have long : (encode q ++ [high c]).length ≤ (encode p).length := by
    by_contra short
    have exceeds := beyond _ half (Nat.not_le.mp short)
    rw [byteLength_encode_append, byteLength_high] at exceeds
    omega
  rw [List.length_append, List.length_singleton] at long
  have inside : q ++ [c] <+: p := by
    apply List.prefix_of_prefix_length_le whole start
    by_contra short
    rw [List.length_append, List.length_singleton] at short
    have between := encode_mono (List.prefix_of_prefix_length_le start
      ((List.prefix_append q [c]).trans whole) (by omega))
    have := between.length_le
    omega
  obtain ⟨more, same⟩ := inside
  have size : byteLength (encode p) = byteLength (encode q) + 4 + byteLength (encode more) := by
    rw [← same, encode_append, byteLength_encode_append, byteLength_astral astral]
  omega

/-- A limit below the marker leaves the start of the marker. -/
theorem truncates_of_small (exceeds : ¬ byteLength (encode text) ≤ maxBytes) (natural : 0 ≤ maxBytes)
    (small : maxBytes ≤ byteLength suffix) :
    Truncates text maxBytes (suffix.take (max 0 maxBytes).toNat) := by
  have ascii : ∀ n ≤ 13, byteLength (suffix.take n) = n ∧ wellFormed (suffix.take n) = true := by
    decide
  rw [byteLength_suffix] at small
  obtain ⟨size, sound⟩ := ascii (max 0 maxBytes).toNat (by omega)
  constructor
  · exact fun within => absurd within exceeds
  · intro _
    omega
  · exact fun _ => sound
  · intro _ fits
    rw [byteLength_suffix] at fits
    have all : (max 0 maxBytes).toNat = 13 := by omega
    rw [all]
    refine ⟨[], List.nil_prefix, rfl, ?_, fun q _ within => ?_⟩
    · rw [byteLength_suffix]
      exact fits
    · have length := Utf8.length_le_length_encode q
      rw [← byteLength_encode] at length
      rw [byteLength_suffix] at within
      have none : q.length = 0 := by omega
      exact Nat.le_of_eq none

/-- The result is a marked prefix within the limit exactly if no character stands across the last
three bytes. -/
theorem truncates_iff (text : List Char) (maxBytes : Int) :
    Truncates text maxBytes (truncateUtf8 (encode text) maxBytes) ↔
      byteLength (encode text) ≤ maxBytes ∨ 0 ≤ maxBytes ∧ ¬ Splits text maxBytes := by
  by_cases within : byteLength (encode text) ≤ maxBytes
  · rw [truncateUtf8, if_pos within]
    refine iff_of_true ⟨fun _ => rfl, ?_, ?_, ?_⟩ (.inl within)
    all_goals exact fun exceeds => absurd within exceeds
  · rw [or_iff_right within]
    by_cases small : byteLength suffix ≥ maxBytes
    · rw [truncateUtf8, if_neg within, if_pos small]
      constructor
      · intro truncates
        have bound := truncates.bounded within
        refine ⟨by omega, fun ⟨p, c, _, _, same⟩ => ?_⟩
        rw [byteLength_suffix] at same small
        omega
      · exact fun ⟨natural, _⟩ => truncates_of_small within natural small
    · obtain ⟨start, fits, beyond⟩ := shrink_spec maxBytes (encode text).reverse
      rw [List.reverse_reverse] at start beyond
      rw [truncateUtf8, if_neg within, if_neg small]
      have natural : 0 ≤ maxBytes := by omega
      rw [and_iff_right natural]
      have enough : (byteLength (shrink maxBytes (encode text).reverse) + byteLength suffix : Nat) ≤
          maxBytes := by
        rcases fits with none | fits
        · rw [none]
          exact Int.le_of_lt (by simpa [byteLength] using small)
        · exact fits
      rcases prefix_encode start with ⟨p, before, same⟩ | ⟨p, c, before, astral, same⟩
      · rw [same] at enough beyond ⊢
        exact iff_of_true (truncates_of_boundary within before enough beyond)
          (not_splits_of_boundary before enough beyond)
      · rw [same] at enough beyond ⊢
        apply iff_of_false
        · intro truncates
          have sound := truncates.wellFormed within
          rw [not_wellFormed_of_high astral] at sound
          cases sound
        · have exceeds := beyond _ (encode_mono before) (by
            rw [encode_append, List.length_append, List.length_append, encode_cons, units,
              if_pos astral]
            exact Nat.add_lt_add_left (Nat.lt_succ_self 1) _)
          rw [byteLength_encode_append, byteLength_high] at enough
          rw [byteLength_astral astral] at exceeds
          exact not_not.mpr ⟨p, c, before, astral, by omega⟩

/-- Three bytes are left for a character of four: its first half stays, alone. -/
theorem lone_surrogate_kept : truncateUtf8 (encode "😀😀😀😀😀".toList) 16 = 0xd83d :: suffix ∧
    ¬ Truncates "😀😀😀😀😀".toList 16 (truncateUtf8 (encode "😀😀😀😀😀".toList) 16) := by
  have cut : truncateUtf8 (encode "😀😀😀😀😀".toList) 16 = 0xd83d :: suffix := by decide
  refine ⟨cut, fun truncates => ?_⟩
  have sound := truncates.wellFormed (by decide)
  rw [cut] at sound
  exact absurd sound (by decide)

end Opensquid.Subagents
