import Mathlib

/-!
# Rounding words by masks

A power of two is recognized by its bits, and clearing the bits below it rounds
a 64-bit word down to one of its multiples.
-/

namespace BootVolume

/-- Keeping the bits from the one with number `k` on rounds down to a multiple of `2 ^ k`. -/
theorem and_highBits {x k : Nat} (hx : x < 2 ^ 64) (hk : k ≤ 64) :
    x &&& (2 ^ 64 - 2 ^ k) = x / 2 ^ k * 2 ^ k := by
  have hle : 2 ^ k - 1 < 2 ^ 64 := by
    have : 2 ^ k ≤ 2 ^ 64 := Nat.pow_le_pow_right (by decide) hk
    omega
  have hmask : ∀ i, (2 ^ 64 - 2 ^ k).testBit i = (decide (i < 64) && decide (k ≤ i)) := by
    intro i
    have hbits := Nat.testBit_two_pow_sub_succ hle i
    rw [Nat.sub_add_cancel Nat.one_le_two_pow, Nat.testBit_two_pow_sub_one] at hbits
    rw [hbits, ← decide_not, decide_eq_decide.mpr Nat.not_lt]
  refine Nat.eq_of_testBit_eq fun i => ?_
  rw [Nat.testBit_and, hmask, Nat.testBit_mul_two_pow, Nat.testBit_div_two_pow]
  by_cases hi : i < 64
  · rw [decide_eq_true hi, Bool.true_and, Bool.and_comm]
    by_cases hlow : k ≤ i
    · rw [Nat.sub_add_cancel hlow]
    · rw [decide_eq_false hlow, Bool.false_and, Bool.false_and]
  · have hzero : x.testBit i = false :=
      Nat.testBit_lt_two_pow (Nat.lt_of_lt_of_le hx (Nat.pow_le_pow_right (by decide) (by omega)))
    rw [hzero, Nat.sub_add_cancel (by omega), hzero, Bool.false_and, Bool.and_false]

theorem one_le_word {word : UInt64} (h : word ≠ 0) : 1 ≤ word := by
  rw [UInt64.le_iff_toNat_le]
  exact Nat.one_le_iff_ne_zero.mpr fun hzero => h (UInt64.toNat_inj.mp hzero)

/-- A word that is not zero and has no bit in common with the word before it is a power of
two. -/
theorem exists_two_pow {word : UInt64} (hne : word ≠ 0) (h : word &&& (word - 1) = 0) :
    ∃ k, word.toNat = 2 ^ k := by
  refine (Nat.and_sub_one_eq_zero_iff_isPowerOfTwo fun hzero =>
    hne (UInt64.toNat_inj.mp hzero)).mp ?_
  have hbits := congrArg UInt64.toNat h
  rwa [UInt64.toNat_and, UInt64.toNat_sub_of_le _ _ (one_le_word hne)] at hbits

/-- Clearing the bits below a power of two rounds down to one of its multiples. -/
theorem toNat_and_not {word power : UInt64} {k : Nat} (hpower : power.toNat = 2 ^ k) :
    (word &&& ~~~(power - 1)).toNat = word.toNat / 2 ^ k * 2 ^ k := by
  have hk : k < 64 := (Nat.pow_lt_pow_iff_right (by decide)).mp (hpower ▸ power.toNat_lt)
  have hpos : 1 ≤ 2 ^ k := Nat.one_le_two_pow
  have hone : (1 : UInt64) ≤ power := by
    rwa [UInt64.le_iff_toNat_le, hpower]
  have hmask : (~~~(power - 1)).toNat = 2 ^ 64 - 2 ^ k := by
    rw [UInt64.toNat_not, UInt64.toNat_sub_of_le _ _ hone, hpower, UInt64.toNat_one,
      UInt64.size]
    omega
  rw [UInt64.toNat_and, hmask]
  exact and_highBits word.toNat_lt hk.le

end BootVolume
