import Mathlib.Algebra.BigOperators.Fin
import Mathlib.Data.Fintype.BigOperators
import Mathlib.Tactic

/-!
# Checked words and tables of words

Addition and subtraction of words that give nothing when they leave the range, and the sum of a
table of words over a finite type of keys. One write into the table changes the sum by the
difference of the two words, which is all that a transfer between two keys needs.
-/

namespace Checked

open BitVec Finset Function

variable {w : ℕ} {a b c : BitVec w}

def checkedAdd (a b : BitVec w) : Option (BitVec w) :=
  if a.uaddOverflow b then none else some (a + b)

def checkedSub (a b : BitVec w) : Option (BitVec w) :=
  if a.usubOverflow b then none else some (a - b)

theorem checkedAdd_eq_some_iff : checkedAdd a b = some c ↔ a.toNat + b.toNat < 2 ^ w ∧ c = a + b := by
  simp [checkedAdd, uaddOverflow, @eq_comm _ c]

theorem checkedAdd_eq_none_iff : checkedAdd a b = none ↔ 2 ^ w ≤ a.toNat + b.toNat := by
  simp [checkedAdd, uaddOverflow]

theorem checkedSub_eq_some_iff : checkedSub a b = some c ↔ b ≤ a ∧ c = a - b := by
  simp [checkedSub, usubOverflow, le_def, @eq_comm _ c]

theorem checkedSub_eq_none_iff : checkedSub a b = none ↔ a < b := by
  simp [checkedSub, usubOverflow, lt_def]

def checkedMul (a b : BitVec w) : Option (BitVec w) :=
  if a.umulOverflow b then none else some (a * b)

theorem checkedMul_eq_some_iff : checkedMul a b = some c ↔ a.toNat * b.toNat < 2 ^ w ∧ c = a * b := by
  simp [checkedMul, umulOverflow, @eq_comm _ c]

/-! ## Saturating words -/

def saturatingAdd (a b : BitVec w) : BitVec w :=
  if a.uaddOverflow b then allOnes w else a + b

def saturatingMul (a b : BitVec w) : BitVec w :=
  if a.umulOverflow b then allOnes w else a * b

theorem toNat_saturatingAdd (a b : BitVec w) :
    (saturatingAdd a b).toNat = min (a.toNat + b.toNat) (2 ^ w - 1) := by
  unfold saturatingAdd uaddOverflow
  split_ifs with h
  · rw [decide_eq_true_eq] at h
    rw [toNat_allOnes]
    omega
  · rw [decide_eq_true_eq, not_le] at h
    rw [toNat_add_of_lt h]
    omega

theorem toNat_saturatingMul (a b : BitVec w) :
    (saturatingMul a b).toNat = min (a.toNat * b.toNat) (2 ^ w - 1) := by
  unfold saturatingMul umulOverflow
  split_ifs with h
  · rw [decide_eq_true_eq] at h
    rw [toNat_allOnes]
    omega
  · rw [decide_eq_true_eq, not_le] at h
    rw [toNat_mul, Nat.mod_eq_of_lt h]
    omega

/-! ## Tables -/

variable {K : Type} [Fintype K] [DecidableEq K]

def total (f : K → BitVec w) : ℕ := ∑ k, (f k).toNat

omit [DecidableEq K] in
theorem total_zero : total (fun _ : K => (0 : BitVec w)) = 0 := by
  unfold total
  simp

omit [DecidableEq K] in
theorem toNat_le_total (f : K → BitVec w) (k : K) : (f k).toNat ≤ total f :=
  single_le_sum (f := fun k => (f k).toNat) (fun _ _ => Nat.zero_le _) (mem_univ k)

theorem total_update (f : K → BitVec w) (k : K) (v : BitVec w) :
    total (update f k v) + (f k).toNat = total f + v.toNat := by
  have hmap : (fun j => (update f k v j).toNat) = update (fun j => (f j).toNat) k v.toNat := by
    funext j
    by_cases hj : j = k
    · subst hj
      simp
    · simp [hj]
  have herase := add_sum_erase univ (fun j => (f j).toNat) (mem_univ k)
  unfold total
  rw [hmap, sum_update_of_mem (mem_univ k), sdiff_singleton_eq_erase]
  omega

variable {j k : K} {p : K → Bool}

/-- Taking a word from one key and adding it to another keeps the sum, whether the keys are
different or not. -/
theorem total_move {f : K → BitVec w} {v : BitVec w} (hle : v ≤ f j)
    (hlt : (update f j (f j - v) k).toNat + v.toNat < 2 ^ w) :
    total (update (update f j (f j - v)) k (update f j (f j - v) k + v)) = total f := by
  have hdebit := total_update f j (f j - v)
  have hcredit := total_update (update f j (f j - v)) k (update f j (f j - v) k + v)
  rw [toNat_add_of_lt hlt] at hcredit
  rw [toNat_sub_of_le hle] at hdebit
  have := le_def.mp hle
  omega

/-! ## Flags -/

def count (p : K → Bool) : ℕ := (univ.filter fun k => p k = true).card

omit [DecidableEq K] in
theorem count_eq_zero_iff : count p = 0 ↔ ∀ k, p k = false := by
  unfold count
  rw [card_eq_zero, filter_eq_empty_iff]
  exact ⟨fun h k => Bool.eq_false_iff.mpr (h (mem_univ k)), fun h k _ => Bool.eq_false_iff.mp (h k)⟩

omit [DecidableEq K] in
theorem eq_of_count_eq_one (h : count p = 1) (hj : p j = true) (hk : p k = true) : j = k :=
  card_le_one.mp (le_of_eq h) j (mem_filter.mpr ⟨mem_univ j, hj⟩) k (mem_filter.mpr ⟨mem_univ k, hk⟩)

theorem count_set (h : p k = false) : count (update p k true) = count p + 1 := by
  unfold count
  rw [← card_insert_of_notMem (show k ∉ univ.filter fun j => p j = true by simp [h])]
  congr 1
  ext j
  by_cases hj : j = k
  · subst hj
    simp
  · simp [hj]

theorem count_clear (h : p k = true) : count (update p k false) + 1 = count p := by
  have := count_set (p := update p k false) (k := k) (update_self k false p)
  rw [← this, update_idem]
  congr 1
  exact (update_eq_self_iff.mpr h.symm)

end Checked
