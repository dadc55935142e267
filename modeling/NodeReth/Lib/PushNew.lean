import Mathlib.Tactic

/-!
# Lists grown without repetition

`pushNew` appends a value that is not there yet. A list that is only grown this way keeps its
values and its order, and growing it by values it has already leaves it as it is.

`untilStable` repeats a growing step until the size stays the same. Within a bound on the size it
ends in a state that the step does not change. Where a fold of growing steps changes nothing, none
of its steps does (`foldl_fixed`).
-/

namespace PushNew

open List

section

variable {α : Type} [DecidableEq α]

def pushNew (acc : List α) (x : α) : List α := if x ∈ acc then acc else acc ++ [x]

def pushAllNew (acc : List α) (xs : List α) : List α := xs.foldl pushNew acc

variable {acc : List α}

@[simp] theorem mem_pushNew {x y : α} : y ∈ pushNew acc x ↔ y ∈ acc ∨ y = x := by
  unfold pushNew
  split_ifs with h
  · constructor
    · exact Or.inl
    · rintro (hy | rfl)
      · exact hy
      · exact h
  · simp

@[simp] theorem mem_pushAllNew {xs : List α} {y : α} : y ∈ pushAllNew acc xs ↔ y ∈ acc ∨ y ∈ xs := by
  induction xs generalizing acc with
  | nil => simp [pushAllNew]
  | cons x xs ih =>
    have h : y ∈ pushAllNew (pushNew acc x) xs ↔ y ∈ pushNew acc x ∨ y ∈ xs := ih
    rwa [mem_pushNew, or_assoc, ← mem_cons] at h

theorem prefix_pushNew (acc : List α) (x : α) : acc <+: pushNew acc x := by
  unfold pushNew
  split_ifs
  · exact prefix_rfl
  · exact prefix_append _ _

theorem prefix_pushAllNew (acc xs : List α) : acc <+: pushAllNew acc xs := by
  induction xs generalizing acc with
  | nil => exact prefix_rfl
  | cons x xs ih => exact (prefix_pushNew acc x).trans (ih _)

theorem nodup_pushNew (h : acc.Nodup) (x : α) : (pushNew acc x).Nodup := by
  unfold pushNew
  split_ifs with hx
  · exact h
  · exact nodup_append.mpr ⟨h, nodup_singleton x, by
      intro a ha b hb
      rw [mem_singleton.mp hb]
      rintro rfl
      exact hx ha⟩

theorem nodup_pushAllNew (h : acc.Nodup) (xs : List α) : (pushAllNew acc xs).Nodup := by
  induction xs generalizing acc with
  | nil => exact h
  | cons x xs ih => exact ih (nodup_pushNew h x)

end

section

variable {σ : Type}

/-- Repeats `f` until the size stays the same, at most `fuel` times. -/
def untilStable (size : σ → ℕ) (f : σ → σ) : ℕ → σ → σ
  | 0, s => s
  | fuel + 1, s => if size (f s) = size s then f s else untilStable size f fuel (f s)

/-- With an invariant that bounds the size, the repetition ends where the size stays the same. -/
theorem untilStable_spec (size : σ → ℕ) (f : σ → σ) (inv : σ → Prop) (bound : ℕ)
    (hstep : ∀ s, inv s → inv (f s)) (hgrow : ∀ s, inv s → size s ≤ size (f s))
    (hbound : ∀ s, inv s → size s ≤ bound) (fuel : ℕ) (s : σ) (hs : inv s)
    (hfuel : bound < size s + fuel) :
    ∃ t, inv t ∧ size (f t) = size t ∧ untilStable size f fuel s = f t := by
  induction fuel generalizing s with
  | zero =>
    have := hbound s hs
    omega
  | succ fuel ih =>
    rw [untilStable]
    split_ifs with h
    · exact ⟨s, hs, h, rfl⟩
    · have hlt := hgrow s hs
      exact ih (f s) (hstep s hs) (by omega)

/-- A fold of growing steps that ends where it began does not move in between. -/
theorem foldl_fixed {α : Type} {le : σ → σ → Prop} {f : σ → α → σ} (hrefl : ∀ s, le s s)
    (htrans : ∀ s t u, le s t → le t u → le s u) (hanti : ∀ s t, le s t → le t s → s = t)
    (hgrow : ∀ s a, le s (f s a)) {s : σ} {as : List α} (h : as.foldl f s = s) :
    ∀ a ∈ as, f s a = s := by
  have hfold : ∀ (as : List α) (s : σ), le s (as.foldl f s) := by
    intro as
    induction as with
    | nil => exact hrefl
    | cons a as ih => exact fun s => htrans _ _ _ (hgrow s a) (ih _)
  induction as with
  | nil => simp
  | cons a as ih =>
    have ha : f s a = s := by
      refine hanti _ _ ?_ (hgrow s a)
      have hle := hfold as (f s a)
      rwa [← foldl_cons, h] at hle
    rw [foldl_cons, ha] at h
    intro b hb
    rcases mem_cons.mp hb with rfl | hb
    · exact ha
    · exact ih h b hb

end

end PushNew
