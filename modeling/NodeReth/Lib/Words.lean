import Mathlib.Tactic

/-!
# Saturating arithmetic on 64-bit words

Words are natural numbers; an operation that saturates stops at the largest word.
-/

namespace Words

open Nat

def u64Max : ℕ := 2 ^ 64 - 1

def satAdd (a b : ℕ) : ℕ := min (a + b) u64Max

def satMul (a b : ℕ) : ℕ := min (a * b) u64Max

def wrapAdd (a b : ℕ) : ℕ := (a + b) % 2 ^ 64

variable {a b : ℕ}

theorem wrapAdd_eq (h : a + b ≤ u64Max) : wrapAdd a b = a + b := by
  unfold wrapAdd
  unfold u64Max at h
  omega

theorem satAdd_le (a b : ℕ) : satAdd a b ≤ a + b := min_le_left _ _

theorem satAdd_eq_of_lt (h : satAdd a b < u64Max) : satAdd a b = a + b := by
  unfold satAdd at h ⊢
  omega

theorem satMul_eq_of_lt (h : satMul a b < u64Max) : satMul a b = a * b := by
  unfold satMul at h ⊢
  omega

theorem satAdd_eq (h : a + b ≤ u64Max) : satAdd a b = a + b := min_eq_left h

def divCeil (a b : ℕ) : ℕ := a / b + if a % b = 0 then 0 else 1

theorem le_divCeil_mul (a : ℕ) (hb : 0 < b) : a ≤ divCeil a b * b := by
  have hdiv := div_add_mod a b
  have hmod := mod_lt a hb
  unfold divCeil
  split_ifs with h
  · rw [add_zero, mul_comm]
    omega
  · rw [add_mul, mul_comm (a / b)]
    omega

theorem divCeil_le_iff {k : ℕ} (hb : 0 < b) : divCeil a b ≤ k ↔ a ≤ k * b := by
  refine ⟨fun h => (le_divCeil_mul a hb).trans (mul_le_mul_right b h), fun h => ?_⟩
  have hdiv : a / b ≤ k := Nat.div_le_of_le_mul (by rwa [Nat.mul_comm] at h)
  unfold divCeil
  split_ifs with hmod
  · exact hdiv
  · refine succ_le_of_lt (lt_of_le_of_ne hdiv fun heq => hmod ?_)
    have hsplit := div_add_mod a b
    rw [heq, mul_comm] at hsplit
    omega

end Words
