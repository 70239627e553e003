import Mathlib.Data.Nat.Bitwise

/-!
Machine words that carry an address in the high bits and flags in the low ones.
`2 ^ k` is the alignment; nothing here depends on what the two parts mean.
-/

namespace AlignedWord

variable {w : Nat}

def alignDown (k : Nat) (x : BitVec w) : BitVec w :=
  x &&& ~~~BitVec.ofNat w (2 ^ k - 1)

theorem alignDown_eq_shift (k : Nat) (x : BitVec w) : alignDown k x = (x >>> k) <<< k := by
  apply BitVec.eq_of_getLsbD_eq
  intro i bound
  simp only [alignDown, BitVec.getLsbD_and, BitVec.getLsbD_not, BitVec.getLsbD_shiftLeft,
    BitVec.getLsbD_ofNat, BitVec.getLsbD_ushiftRight, Nat.testBit_two_pow_sub_one]
  by_cases low : i < k
  · simp [low, bound]
  · simp [low, bound, show k + (i - k) = i by omega]

theorem toNat_alignDown (k : Nat) (x : BitVec w) :
    (alignDown k x).toNat = x.toNat / 2 ^ k * 2 ^ k := by
  rw [alignDown_eq_shift, BitVec.toNat_shiftLeft, BitVec.toNat_ushiftRight,
    Nat.shiftRight_eq_div_pow, Nat.shiftLeft_eq]
  apply Nat.mod_eq_of_lt
  exact Nat.lt_of_le_of_lt (Nat.div_mul_le_self _ _) x.isLt

/-- Flags below the alignment are added to an aligned word by `|||` without carry. -/
theorem toNat_or_of_aligned {k : Nat} (x flags : BitVec w) (aligned : 2 ^ k ∣ x.toNat)
    (small : flags.toNat < 2 ^ k) : (x ||| flags).toNat = x.toNat + flags.toNat := by
  obtain ⟨high, eq⟩ := aligned
  rw [BitVec.toNat_or, eq, Nat.two_pow_add_eq_or_of_lt small]

theorem toNat_ofNat_shiftLeft {k number : Nat} (fits : number * 2 ^ k < 2 ^ w) :
    ((BitVec.ofNat w number) <<< k).toNat = number * 2 ^ k := by
  have small : number < 2 ^ w :=
    Nat.lt_of_le_of_lt (Nat.le_mul_of_pos_right number (Nat.two_pow_pos k)) fits
  rw [BitVec.toNat_shiftLeft, BitVec.toNat_ofNat, Nat.mod_eq_of_lt small, Nat.shiftLeft_eq,
    Nat.mod_eq_of_lt fits]

theorem toNat_field (x : BitVec w) (shift width : Nat) (fits : width ≤ w) :
    ((x >>> shift) &&& BitVec.ofNat w (2 ^ width - 1)).toNat =
      x.toNat / 2 ^ shift % 2 ^ width := by
  have small : 2 ^ width - 1 < 2 ^ w := by
    have := Nat.pow_le_pow_right (n := 2) (by omega) fits
    have := Nat.two_pow_pos width
    omega
  rw [BitVec.toNat_and, BitVec.toNat_ofNat, Nat.mod_eq_of_lt small,
    Nat.and_two_pow_sub_one_eq_mod, BitVec.toNat_ushiftRight, Nat.shiftRight_eq_div_pow]

/-- Distances from an address, around the end of the address space as well. -/
theorem toNat_add_ofNat_sub (x : BitVec w) {n : Nat} (small : n < 2 ^ w) :
    (x + BitVec.ofNat w n - x).toNat = n := by
  rw [BitVec.add_comm, BitVec.add_sub_cancel, BitVec.toNat_ofNat, Nat.mod_eq_of_lt small]

theorem add_ofNat_toNat_sub (x a : BitVec w) : x + BitVec.ofNat w (a - x).toNat = a := by
  rw [BitVec.ofNat_toNat, BitVec.setWidth_eq, BitVec.add_comm, BitVec.sub_add_cancel]

/-- An address that is not met again lies less than the address space ahead. -/
theorem lt_two_pow_of_new (x : BitVec w) {n : Nat}
    (new : ∀ i < n, x + BitVec.ofNat w i ≠ x + BitVec.ofNat w n) : n < 2 ^ w := by
  by_contra far
  have positive := Nat.two_pow_pos w
  have around : BitVec.ofNat w (n - 2 ^ w) = BitVec.ofNat w n := by
    apply BitVec.eq_of_toNat_eq
    rw [BitVec.toNat_ofNat, BitVec.toNat_ofNat, Nat.mod_eq_sub_mod (Nat.not_lt.mp far)]
  exact new (n - 2 ^ w) (by omega) (by rw [around])

end AlignedWord
