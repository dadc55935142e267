import NodeReth.Lib.Bytes

/-!
# Stored Brotli streams

The part of the Brotli format that does not compress: meta-blocks of at most 65536 bytes, each
behind a header of three bytes with the little-endian bits of its length, and an empty last
meta-block. The first header also carries the bit for the window size.
-/

namespace Stored

open List Nat

def blockSize : ℕ := 65536

/-- The header of a meta-block of `len` bytes, its length from bit `shift` on. -/
def header (shift len : ℕ) : Bytes :=
  let v := (len - 1) * 2 ^ shift + 2 ^ (16 + shift)
  [UInt8.ofNat v, UInt8.ofNat (v / 256), UInt8.ofNat (v / 65536)]

def blocks : ℕ → ℕ → Bytes → Bytes
  | 0, _, _ => []
  | fuel + 1, shift, b =>
    if b.isEmpty then []
    else
      header shift (min b.length blockSize) ++ (b.take blockSize ++ blocks fuel 3 (b.drop blockSize))

def encode (b : Bytes) : Bytes := if b.isEmpty then [6] else blocks b.length 4 b ++ [3]

/-- Every meta-block but the last is full, and each costs three bytes. -/
theorem length_blocks {fuel s : ℕ} {b : Bytes} (hfuel : b.length ≤ fuel) :
    ∃ k, (blocks fuel s b).length = b.length + 3 * k ∧ k * blockSize < b.length + blockSize := by
  induction fuel generalizing s b with
  | zero =>
    obtain rfl := length_eq_zero_iff.mp (le_zero.mp hfuel)
    exact ⟨0, rfl, by simp [blockSize]⟩
  | succ fuel ih =>
    unfold blocks
    split_ifs with hb
    · rw [isEmpty_iff.mp hb]
      exact ⟨0, rfl, by simp [blockSize]⟩
    · have hpos : 0 < b.length := length_pos_iff.mpr (by simpa using hb)
      have hdrop : (b.drop blockSize).length ≤ fuel := by
        rw [length_drop]
        unfold blockSize
        omega
      obtain ⟨k, hk, hfull⟩ := ih (s := 3) hdrop
      refine ⟨k + 1, ?_, ?_⟩
      · rw [length_append, length_append, hk, length_take, length_drop]
        simp only [header, length_cons, length_nil]
        omega
      · rw [length_drop] at hfull
        rw [add_mul]
        rcases lt_or_ge b.length blockSize with hlt | hge
        · rw [Nat.sub_eq_zero_of_le hlt.le] at hfull
          have hk0 : k = 0 := by
            by_contra hk0
            exact absurd (Nat.le_mul_of_pos_left blockSize (Nat.pos_of_ne_zero hk0)) (not_le.mpr hfull)
          rw [hk0]
          omega
        · omega

end Stored
