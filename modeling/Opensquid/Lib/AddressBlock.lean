import Mathlib.Algebra.Group.Nat.Defs
import Mathlib.Tactic.Common

/-!
# Blocks of addresses

An address of `width` bits is a number, and a block is the addresses that agree with its base in
their first bits. A block is an interval; programs test it by shifting the other bits away
(`contains_iff_shift`).
-/

namespace Opensquid.Lib

structure AddressBlock (width : Nat) where
  base : Nat
  bits : Nat
  bits_le : bits ≤ width
  aligned : 2 ^ (width - bits) ∣ base

namespace AddressBlock

variable {width : Nat} (block : AddressBlock width) (address : Nat)

/-- The number of addresses. -/
def size : Nat := 2 ^ (width - block.bits)

def Contains : Prop := block.base ≤ address ∧ address < block.base + block.size

instance : Decidable (block.Contains address) := inferInstanceAs (Decidable (_ ∧ _))

theorem size_pos : 0 < block.size := Nat.two_pow_pos _

theorem contains_iff_div :
    block.Contains address ↔ address / block.size = block.base / block.size := by
  obtain ⟨first, base⟩ := block.aligned
  have base : block.base = block.size * first := base
  have positive := block.size_pos
  rw [Contains, base, Nat.mul_div_cancel_left _ positive, Nat.div_eq_iff positive, Nat.mul_comm]
  constructor
  · intro inside
    omega
  · intro inside
    omega

theorem contains_iff_shift :
    block.Contains address ↔
      address >>> (width - block.bits) = block.base >>> (width - block.bits) := by
  rw [Nat.shiftRight_eq_div_pow, Nat.shiftRight_eq_div_pow]
  exact block.contains_iff_div address

end AddressBlock

end Opensquid.Lib
