import Mathlib.Tactic

/-!
# Packing a stream into bins

A stream is cut into pieces of at most `M` bytes, each with `o` bytes of overhead, and the pieces go
into bins of `B` bytes. A bin is left only when no piece fits any more. A piece that is shorter than
`M` because its bin was full stands behind `fullPieces` whole ones and has at least `leastTail`
bytes; `worstCount` is what follows for the number of pieces of a stream.
-/

namespace Packing

open Nat

/-- The whole pieces in front of a shorter one that fills a bin. -/
def fullPieces (B o M : ℕ) : ℕ := (B - (o + 1)) / (o + M)

/-- The least size of a shorter piece that fills a bin. -/
def leastTail (B o M : ℕ) : ℕ := max 1 (B - 2 * o - fullPieces B o M * (o + M))

/-- The most pieces of a stream of `C` bytes: as many bins with a shorter piece as it can fill,
whole pieces for the rest, one short piece at the start and one at the end. -/
def worstCount (B o M C : ℕ) : ℕ :=
  let bins := (C - 1) / (fullPieces B o M * M + leastTail B o M)
  2 + bins + (C - 1 - bins * leastTail B o M) / M

variable {B o M : ℕ}

theorem leastTail_pos : 0 < leastTail B o M := one_pos.trans_le (le_max_left _ _)

theorem leastTail_le (hM : 0 < M) : leastTail B o M ≤ M := by
  have hlt : B - (o + 1) < fullPieces B o M * (o + M) + (o + M) :=
    lt_div_mul_add (by omega)
  unfold leastTail
  omega

/-- A shorter piece that fills its bin: `j` whole pieces stand in front of it. -/
theorem tail_spec {j p : ℕ} (hp : 0 < p) (hpM : p < M) (hfit : j * (o + M) + o + p ≤ B)
    (hfull : B ≤ j * (o + M) + o + p + o) : j = fullPieces B o M ∧ leastTail B o M ≤ p := by
  have hj : j = fullPieces B o M := by
    refine (Nat.div_eq_of_lt_le ?_ ?_).symm
    · omega
    · rw [succ_mul]
      omega
  unfold leastTail
  rw [← hj]
  omega

/-- The count of the pieces: `k` whole ones, `b` that fill a bin, `x` short ones at the start, and
the last one. -/
theorem count_le {C k b x : ℕ} (hM : 0 < M) (hx : x ≤ 1) (hfull : fullPieces B o M * b ≤ k)
    (hsize : k * M + b * leastTail B o M + x ≤ C) : k + b + x + 1 ≤ worstCount B o M C := by
  have hd := leastTail_pos (B := B) (o := o) (M := M)
  have hdM := leastTail_le (B := B) (o := o) hM
  unfold worstCount
  generalize leastTail B o M = d at *
  generalize fullPieces B o M = n at *
  simp only
  have hD : 0 < n * M + d := by omega
  have hqlt : C - 1 < ((C - 1) / (n * M + d) + 1) * (n * M + d) := by
    rw [Nat.succ_mul]
    exact Nat.lt_div_mul_add hD
  generalize (C - 1) / (n * M + d) = q at *
  have hbins : b * (n * M + d) + x ≤ C := by
    have := Nat.mul_le_mul_right M hfull
    calc b * (n * M + d) + x = n * b * M + b * d + x := by ring
      _ ≤ k * M + b * d + x := by omega
      _ ≤ C := hsize
  rcases Nat.lt_or_ge q b with hlt | hle
  · -- one bin more than fits beside a short first piece: the bins take the whole stream
    have hb : b = q + 1 := by
      by_contra hne
      have hmul := Nat.mul_le_mul_right (n * M + d) (show q + 2 ≤ b by omega)
      have hexp : (q + 2) * (n * M + d) = (q + 1) * (n * M + d) + (n * M + d) := by ring
      omega
    subst hb
    have hk : k ≤ n * (q + 1) := by
      have hle : k * M ≤ n * (q + 1) * M := by
        have hexp : (q + 1) * (n * M + d) = n * (q + 1) * M + (q + 1) * d := by ring
        omega
      exact Nat.le_of_mul_le_mul_right hle hM
    have hrest : n * (q + 1) ≤ (C - 1 - q * d) / M := by
      rw [Nat.le_div_iff_mul_le hM]
      have hexp : (q + 1) * (n * M + d) = n * (q + 1) * M + q * d + d := by ring
      omega
    omega
  · -- fewer bins with a shorter piece leave room for at most as many whole pieces
    have hk : k + x ≤ 1 + (C - 1 - b * d) / M := by
      have hkM : (k + x - 1) * M ≤ C - 1 - b * d := by
        rcases Nat.eq_zero_or_pos (k + x) with h0 | hpos
        · simp [h0]
        · rcases Nat.le_one_iff_eq_zero_or_eq_one.mp hx with rfl | rfl
          · obtain ⟨m, rfl⟩ : ∃ m, k = m + 1 := ⟨k - 1, by omega⟩
            have hexp : (m + 1) * M = m * M + M := Nat.succ_mul m M
            simp only [Nat.add_zero, Nat.add_sub_cancel]
            omega
          · simp only [Nat.add_sub_cancel]
            omega
      have := (Nat.le_div_iff_mul_le hM).mpr hkM
      omega
    have hmove : (C - 1 - b * d) / M ≤ (q - b) + (C - 1 - q * d) / M := by
      obtain ⟨m, rfl⟩ := Nat.exists_eq_add_of_le hle
      have hdm : m * d ≤ m * M := Nat.mul_le_mul_left m hdM
      have hexp : (b + m) * d = b * d + m * d := Nat.add_mul b m d
      rw [Nat.add_sub_cancel_left, Nat.add_comm m, ← Nat.add_mul_div_right _ _ hM]
      exact Nat.div_le_div_right (by omega)
    omega

/-- `Packed B o M done n size`: `n` pieces with `size` bytes were cut, the last one of the stream
among them or not. -/
def Packed (B o M : ℕ) (done : Bool) (n size : ℕ) : Prop :=
  ∃ k b x, x ≤ 1 ∧ fullPieces B o M * b ≤ k ∧ n = k + b + x + (if done then 1 else 0) ∧
    k * M + b * leastTail B o M + x ≤ size

namespace Packed

variable {n size : ℕ} {done : Bool}

theorem zero (B o M size : ℕ) : Packed B o M false 0 size :=
  ⟨0, 0, 0, zero_le _, zero_le _, rfl, by simp⟩

theorem mono (h : Packed B o M done n size) {size' : ℕ} (hle : size ≤ size') :
    Packed B o M done n size' := by
  obtain ⟨k, b, x, hx, hfull, hn, hsize⟩ := h
  exact ⟨k, b, x, hx, hfull, hn, hsize.trans hle⟩

theorem whole (h : Packed B o M false n size) (j : ℕ) : Packed B o M false (n + j) (size + j * M) := by
  obtain ⟨k, b, x, hx, hfull, rfl, hsize⟩ := h
  refine ⟨k + j, b, x, hx, by omega, by simp; omega, ?_⟩
  rw [add_mul]
  omega

theorem fill (h : Packed B o M false n size) {p : ℕ} (hp : leastTail B o M ≤ p) :
    Packed B o M false (n + fullPieces B o M + 1) (size + fullPieces B o M * M + p) := by
  obtain ⟨k, b, x, hx, hfull, rfl, hsize⟩ := h
  refine ⟨k + fullPieces B o M, b + 1, x, hx, ?_, by simp; omega, ?_⟩
  · rw [mul_succ]
    omega
  · rw [add_mul, succ_mul]
    omega

theorem first (size j : ℕ) {p : ℕ} (hp : 0 < p) :
    Packed B o M false (j + 1) (size + j * M + p) := by
  refine ⟨j, 0, 1, le_rfl, zero_le _, by simp, ?_⟩
  omega

theorem last (h : Packed B o M false n size) : Packed B o M true (n + 1) size := by
  obtain ⟨k, b, x, hx, hfull, rfl, hsize⟩ := h
  exact ⟨k, b, x, hx, hfull, by simp, hsize⟩

theorem eq_zero (h : Packed B o M false n 0) (hM : 0 < M) : n = 0 := by
  obtain ⟨k, b, x, -, -, rfl, hsize⟩ := h
  have hk := Nat.le_mul_of_pos_right k hM
  have hb := Nat.le_mul_of_pos_right b (leastTail_pos (B := B) (o := o) (M := M))
  simp only [Bool.false_eq_true, if_false]
  omega

theorem le_worstCount (h : Packed B o M done n size) (hM : 0 < M) {C : ℕ} (hC : size ≤ C) :
    n ≤ worstCount B o M C := by
  obtain ⟨k, b, x, hx, hfull, rfl, hsize⟩ := h
  have hle := count_le hM hx hfull (hsize.trans hC)
  have hlast : (if done then 1 else 0) ≤ 1 := by split_ifs <;> omega
  omega

end Packed

end Packing
