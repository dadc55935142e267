import Mathlib.Data.Nat.Bitwise
import Mathlib.Data.Nat.Size
import NodeReth.Lib.Bytes

/-!
# The bits of a byte string

A byte string is read as a number in big-endian order, and its bits are those of the number: bit 0 is
the low bit of the last byte. Zeros in front change nothing, and a byte holds eight bits in a row.
-/

namespace Bytes

open List Nat

variable {b : Bytes} {x : UInt8} {i j : ℕ}

/-- Bit `i`, counted from the end. -/
def bit (b : Bytes) (i : ℕ) : Bool := (ofBe b).testBit i

theorem ofBe_cons (x : UInt8) (b : Bytes) : ofBe (x :: b) = x.toNat * 256 ^ b.length + ofBe b := by
  induction b using reverseRecOn with
  | nil => simp [ofBe]
  | append_singleton b y ih =>
    rw [← cons_append, ofBe_concat, ofBe_concat, ih, length_append, length_singleton]
    ring

theorem ofBe_replicate_zero_append (k : ℕ) (b : Bytes) : ofBe (replicate k 0 ++ b) = ofBe b := by
  induction k with
  | zero => rfl
  | succ k ih =>
    rw [replicate_succ, cons_append, ofBe_cons, ih]
    simp

theorem bit_replicate_zero_append (k : ℕ) (b : Bytes) (i : ℕ) :
    bit (replicate k 0 ++ b) i = bit b i := by
  unfold bit
  rw [ofBe_replicate_zero_append]

theorem bit_concat (b : Bytes) (x : UInt8) (i : ℕ) :
    bit (b ++ [x]) i = if i < 8 then x.toNat.testBit i else bit b (i - 8) := by
  unfold bit
  rw [ofBe_concat, mul_comm, testBit_two_pow_mul_add _ x.toNat_lt]

theorem bit_eq_byte (h : i / 8 < b.length) :
    bit b i = (b[b.length - i / 8 - 1]).toNat.testBit (i % 8) := by
  induction b using reverseRecOn generalizing i with
  | nil => cases h
  | append_singleton b y ih =>
    rw [bit_concat]
    rw [length_append, length_singleton] at h
    by_cases hi : i < 8
    · rw [if_pos hi]
      have hidx : (b ++ [y]).length - i / 8 - 1 = b.length := by
        rw [length_append, length_singleton]
        omega
      simp only [hidx, getElem_concat_length]
      rw [mod_eq_of_lt hi]
    · rw [if_neg hi]
      have hlt : b.length - (i - 8) / 8 - 1 < b.length := by omega
      have hidx : (b ++ [y]).length - i / 8 - 1 = b.length - (i - 8) / 8 - 1 := by
        rw [length_append, length_singleton]
        omega
      simp only [hidx, getElem_append_left hlt]
      rw [ih (by omega)]
      congr 1
      omega

theorem bit_of_le (h : 8 * b.length ≤ i) : bit b i = false := by
  apply testBit_lt_two_pow
  calc ofBe b < 256 ^ b.length := ofBe_lt b
    _ = 2 ^ (8 * b.length) := by
        rw [pow_mul]
        norm_num
    _ ≤ 2 ^ i := Nat.pow_le_pow_right (by norm_num) h

/-- A change of one byte is seen in its bits only. -/
theorem bit_modify (f : UInt8 → UInt8) (h : i / 8 < b.length) (j : ℕ) :
    bit (b.modify (b.length - i / 8 - 1) f) j =
      if j / 8 = i / 8 then (f b[b.length - i / 8 - 1]).toNat.testBit (j % 8) else bit b j := by
  by_cases hj : j / 8 < b.length
  · have hj' : j / 8 < (b.modify (b.length - i / 8 - 1) f).length := by
      rwa [length_modify]
    rw [bit_eq_byte hj']
    simp only [length_modify, getElem_modify]
    by_cases heq : j / 8 = i / 8
    · simp [heq]
    · have hne : b.length - i / 8 - 1 ≠ b.length - j / 8 - 1 := by omega
      rw [if_neg hne, if_neg heq, bit_eq_byte hj]
  · have hne : j / 8 ≠ i / 8 := by omega
    rw [if_neg hne, bit_of_le (by rw [length_modify]; omega), bit_of_le (by omega)]

/-- The number of a byte string is below a power of two exactly when its higher bits are zero. -/
theorem ofBe_lt_two_pow_iff {n : ℕ} : ofBe b < 2 ^ n ↔ ∀ i, n ≤ i → bit b i = false := by
  constructor
  · intro h i hi
    exact Nat.testBit_lt_two_pow (h.trans_le (Nat.pow_le_pow_right (by norm_num) hi))
  · exact lt_pow_two_of_testBit _

end Bytes
