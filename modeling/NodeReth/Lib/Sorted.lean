import Mathlib.Data.List.Sort
import Mathlib.Tactic

/-!
# Lists sorted by a rank

Insertion into a list that is strictly ascending by a numeric rank.
-/

namespace Sorted

open List

variable {α : Type} {f : α → ℕ} {a : α} {l : List α}

theorem pairwise_orderedInsert (h : l.Pairwise fun x y => f x < f y) (hne : ∀ x ∈ l, f x ≠ f a) :
    (l.orderedInsert (fun x y => f x ≤ f y) a).Pairwise fun x y => f x < f y := by
  induction l with
  | nil => exact pairwise_singleton _ _
  | cons b l ih =>
    obtain ⟨hb, hl⟩ := pairwise_cons.mp h
    obtain ⟨hba, hne⟩ := forall_mem_cons.mp hne
    rw [orderedInsert_cons]
    split_ifs with hle
    · have hab : f a < f b := lt_of_le_of_ne hle (Ne.symm hba)
      refine pairwise_cons.mpr ⟨fun x hx => ?_, h⟩
      rcases mem_cons.mp hx with rfl | hx
      · exact hab
      · exact lt_trans hab (hb x hx)
    · refine pairwise_cons.mpr ⟨fun x hx => ?_, ih hl hne⟩
      rcases (mem_orderedInsert _).mp hx with rfl | hx
      · exact Nat.lt_of_not_le hle
      · exact hb x hx

theorem eraseP_orderedInsert {r : α → α → Prop} [DecidableRel r] {p : α → Bool} (ha : p a = true)
    (hl : ∀ x ∈ l, p x = false) : (l.orderedInsert r a).eraseP p = l := by
  induction l with
  | nil => simp [ha]
  | cons b l ih =>
    obtain ⟨hb, hl⟩ := forall_mem_cons.mp hl
    rw [orderedInsert_cons]
    split_ifs
    · rw [eraseP_cons_of_pos ha]
    · rw [eraseP_cons_of_neg (by simp [hb]), ih hl]

/-- Where at most one element has the property, removing the first one removes it. -/
theorem eraseP_eq_filter {p : α → Bool} (h : l.Pairwise fun x y => ¬(p x = true ∧ p y = true)) :
    l.eraseP p = l.filter fun x => !p x := by
  induction l with
  | nil => rfl
  | cons a l ih =>
    obtain ⟨ha, hl⟩ := pairwise_cons.mp h
    by_cases hp : p a = true
    · rw [eraseP_cons_of_pos hp, filter_cons_of_neg (by simp [hp]), eq_comm,
        filter_eq_self]
      intro x hx
      have := ha x hx
      simpa [hp] using this
    · rw [eraseP_cons_of_neg hp, filter_cons_of_pos (by simpa using hp), ih hl]

end Sorted
