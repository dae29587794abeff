import Opensquid.Lib.JsonParse

/-!
# Hexadecimal text

Two digits a byte, in lower case. Reading goes by pairs and drops a digit that is left over: a
text of digits reads as the bytes if it prints them, or prints them and has one digit more
(`decode_eq_iff`).
-/

namespace Opensquid.Lib.Hex

open Json

/-- `buffer.toString('hex')`. -/
def encode : List UInt8 → List Char
  | [] => []
  | b :: bytes => hexDigit (b.toNat / 16) :: hexDigit (b.toNat % 16) :: encode bytes

/-- `Buffer.from(text, 'hex')`: the pairs up to the first that is none. -/
def decode : List Char → List UInt8
  | [] => []
  | [_] => []
  | a :: b :: rest =>
      match digitOfHex a with
      | none => []
      | some high =>
          match digitOfHex b with
          | none => []
          | some low => .ofNat (16 * high + low) :: decode rest

/-- `[0-9a-fA-F]`. -/
def isDigit (c : Char) : Bool := (digitOfHex c).isSome

theorem lower_of_ascii : ∀ n < 128, ∀ x, digitOfHex (Char.ofNat n) = some x →
    x < 16 ∧ hexDigit x = (Char.ofNat n).toLower := by
  decide +kernel

/-- In lower case a digit is the one that prints its value. -/
theorem lower_spec {c : Char} (digit : isDigit c = true) : ∃ x < 16, c.toLower = hexDigit x := by
  obtain ⟨x, value⟩ := Option.isSome_iff_exists.mp digit
  have below : ∀ d : Char, c ≤ d → c.toNat ≤ d.toNat := fun d le => UInt32.le_iff_toNat_le.mp le
  have ascii : c.toNat < 128 := by
    unfold digitOfHex at value
    split at value
    · rename_i decimal
      exact (below '9' (of_decide_eq_true (Bool.and_eq_true_iff.mp decimal).2)).trans_lt (by decide)
    · split at value
      · rename_i lower
        exact (below 'f' lower.2).trans_lt (by decide)
      · split at value
        · rename_i upper
          exact (below 'F' upper.2).trans_lt (by decide)
        · cases value
  obtain ⟨small, same⟩ := lower_of_ascii c.toNat ascii x (by rwa [Char.ofNat_toNat])
  rw [Char.ofNat_toNat] at same
  exact ⟨x, small, same.symm⟩

theorem decode_cons (b : UInt8) (text : List Char) :
    decode (hexDigit (b.toNat / 16) :: hexDigit (b.toNat % 16) :: text) = b :: decode text := by
  have below := b.toNat_lt
  rw [decode, digitOfHex_hexDigit _ (by omega), digitOfHex_hexDigit _ (by omega)]
  dsimp only
  rw [show 16 * (b.toNat / 16) + b.toNat % 16 = b.toNat by omega, UInt8.ofNat_toNat]

theorem decode_encode (bytes : List UInt8) : decode (encode bytes) = bytes := by
  induction bytes with
  | nil => rfl
  | cons b bytes ih => rw [encode, decode_cons, ih]

theorem decode_encode_append (bytes : List UInt8) (c : Char) :
    decode (encode bytes ++ [c]) = bytes := by
  induction bytes with
  | nil => rfl
  | cons b bytes ih => rw [encode, List.cons_append, List.cons_append, decode_cons, ih]

theorem encode_injective : Function.Injective encode := fun bytes bytes' same => by
  rw [← decode_encode bytes, same, decode_encode]

theorem length_encode (bytes : List UInt8) : (encode bytes).length = 2 * bytes.length := by
  induction bytes with
  | nil => rfl
  | cons b bytes ih =>
      rw [encode, List.length_cons, List.length_cons, List.length_cons, ih]
      omega

theorem digit_of_mem_encode {bytes : List UInt8} {c : Char} (mem : c ∈ encode bytes) :
    ∃ x < 16, c = hexDigit x := by
  induction bytes with
  | nil => cases mem
  | cons b bytes ih =>
      have below := b.toNat_lt
      rcases List.mem_cons.mp mem with rfl | mem
      · exact ⟨b.toNat / 16, by omega, rfl⟩
      · rcases List.mem_cons.mp mem with rfl | mem
        · exact ⟨b.toNat % 16, by omega, rfl⟩
        · exact ih mem

/-- What digits are read as. -/
theorem decode_eq_iff {text : List Char} (digits : ∀ c ∈ text, ∃ x < 16, c = hexDigit x)
    {bytes : List UInt8} :
    decode text = bytes ↔ text = encode bytes ∨ ∃ c, text = encode bytes ++ [c] := by
  constructor
  · intro same
    subst same
    induction text using decode.induct with
    | case1 => exact .inl rfl
    | case2 c => exact .inr ⟨c, rfl⟩
    | case3 a b rest noDigit =>
        obtain ⟨x, small, rfl⟩ := digits a List.mem_cons_self
        rw [digitOfHex_hexDigit x small] at noDigit
        cases noDigit
    | case4 a b rest high known noDigit =>
        obtain ⟨x, small, rfl⟩ := digits b (List.mem_cons_of_mem _ List.mem_cons_self)
        rw [digitOfHex_hexDigit x small] at noDigit
        cases noDigit
    | case5 a b rest high known low known' ih =>
        obtain ⟨x, small, rfl⟩ := digits a List.mem_cons_self
        obtain ⟨y, small', rfl⟩ := digits b (List.mem_cons_of_mem _ List.mem_cons_self)
        rw [digitOfHex_hexDigit x small] at known
        rw [digitOfHex_hexDigit y small'] at known'
        cases known
        cases known'
        have byte : (UInt8.ofNat (16 * high + low)).toNat = 16 * high + low := by
          rw [UInt8.toNat_ofNat']
          omega
        have printed : ∀ bytes, encode (.ofNat (16 * high + low) :: bytes) =
            hexDigit high :: hexDigit low :: encode bytes := by
          intro bytes
          rw [encode, byte, show (16 * high + low) / 16 = high by omega,
            show (16 * high + low) % 16 = low by omega]
        have read : decode (hexDigit high :: hexDigit low :: rest) =
            .ofNat (16 * high + low) :: decode rest := by
          rw [decode, digitOfHex_hexDigit high small, digitOfHex_hexDigit low small']
        rw [read, printed]
        rcases ih fun c mem => digits c (List.mem_cons_of_mem _ (List.mem_cons_of_mem _ mem)) with
          same | ⟨c, same⟩
        · exact .inl (by rw [← same])
        · exact .inr ⟨c, by rw [List.cons_append, List.cons_append, ← same]⟩
  · rintro (rfl | ⟨c, rfl⟩)
    · exact decode_encode bytes
    · exact decode_encode_append bytes c

end Opensquid.Lib.Hex
