import Mathlib.Data.List.Basic

/-!
# Base64

The text form of a byte sequence: `encode` writes three bytes as four characters
and pads the last group, `decode` reads the characters of either alphabet up to
the padding and ignores all others. What is written is read back (`decode_encode`).
-/

namespace Opensquid.Lib.Base64

/-- The sixty-four digits. -/
def alphabet : List Char :=
  "ABCDEFGHIJKLMNOPQRSTUVWXYZabcdefghijklmnopqrstuvwxyz0123456789+/".toList

def digit (n : Nat) : Char := alphabet.getD (n % 64) 'A'

/-- The value of a digit; `-` and `_` are the digits of the alphabet for URLs. -/
def digitValue (c : Char) : Option Nat :=
  if c = '-' then some 62
  else if c = '_' then some 63
  else alphabet.findIdx? (· = c)

def encodeChars : List UInt8 → List Char
  | a :: b :: c :: rest =>
      let n := a.toNat * 65536 + b.toNat * 256 + c.toNat
      digit (n / 262144) :: digit (n / 4096) :: digit (n / 64) :: digit n :: encodeChars rest
  | [a, b] =>
      let n := a.toNat * 65536 + b.toNat * 256
      [digit (n / 262144), digit (n / 4096), digit (n / 64), '=']
  | [a] =>
      let n := a.toNat * 65536
      [digit (n / 262144), digit (n / 4096), '=', '=']
  | [] => []

def decodeDigits : List Nat → List UInt8
  | a :: b :: c :: d :: rest =>
      let n := a * 262144 + b * 4096 + c * 64 + d
      .ofNat (n / 65536) :: .ofNat (n / 256) :: .ofNat n :: decodeDigits rest
  | [a, b, c] =>
      let n := a * 262144 + b * 4096 + c * 64
      [.ofNat (n / 65536), .ofNat (n / 256)]
  | [a, b] => [.ofNat ((a * 262144 + b * 4096) / 65536)]
  | _ => []

/-- `Buffer.from(bytes).toString('base64')`. -/
def encode (bytes : List UInt8) : String := String.ofList (encodeChars bytes)

/-- `Buffer.from(text, 'base64')`. -/
def decode (text : String) : List UInt8 :=
  decodeDigits ((text.toList.takeWhile (· ≠ '=')).filterMap digitValue)

/-! ## The round trip -/

theorem digit_spec : ∀ k < 64, alphabet.getD k 'A' ≠ '=' ∧ digitValue (alphabet.getD k 'A') = some k := by
  decide +kernel

theorem digit_ne (n : Nat) : digit n ≠ '=' := (digit_spec (n % 64) (Nat.mod_lt _ (by decide))).1

theorem digitValue_digit (n : Nat) : digitValue (digit n) = some (n % 64) :=
  (digit_spec (n % 64) (Nat.mod_lt _ (by decide))).2

/-- The digits up to the padding. -/
def readDigits (chars : List Char) : List Nat := (chars.takeWhile (· ≠ '=')).filterMap digitValue

theorem readDigits_digit (n : Nat) (rest : List Char) :
    readDigits (digit n :: rest) = n % 64 :: readDigits rest := by
  unfold readDigits
  rw [List.takeWhile_cons, if_pos (decide_eq_true (digit_ne n)), List.filterMap_cons,
    digitValue_digit]

theorem readDigits_pad (rest : List Char) : readDigits ('=' :: rest) = [] := rfl

theorem ofNat_eq {n : Nat} {b : UInt8} (same : n % 256 = b.toNat) : UInt8.ofNat n = b :=
  UInt8.toNat_inj.mp (by rw [UInt8.toNat_ofNat', ← same])

theorem decodeDigits_encodeChars (bytes : List UInt8) :
    decodeDigits (readDigits (encodeChars bytes)) = bytes := by
  induction bytes using encodeChars.induct with
  | case1 a b c rest ih =>
      have ha := a.toNat_lt
      have hb := b.toNat_lt
      have hc := c.toNat_lt
      simp only [encodeChars, readDigits_digit, decodeDigits, ih]
      congr 1
      · exact ofNat_eq (by omega)
      congr 1
      · exact ofNat_eq (by omega)
      congr 1
      exact ofNat_eq (by omega)
  | case2 a b =>
      have ha := a.toNat_lt
      have hb := b.toNat_lt
      simp only [encodeChars, readDigits_digit, readDigits_pad, decodeDigits]
      congr 1
      · exact ofNat_eq (by omega)
      congr 1
      exact ofNat_eq (by omega)
  | case3 a =>
      have ha := a.toNat_lt
      simp only [encodeChars, readDigits_digit, readDigits_pad, decodeDigits]
      congr 1
      exact ofNat_eq (by omega)
  | case4 => rfl

/-- What is written is read back. -/
theorem decode_encode (bytes : List UInt8) : decode (encode bytes) = bytes := by
  rw [decode, encode, String.toList_ofList]
  exact decodeDigits_encodeChars bytes

end Opensquid.Lib.Base64
