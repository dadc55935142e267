import Mathlib.Tactic

/-!
# Ring buffers

A buffer of `cap` slots that is written at a pointer which wraps around. After the entries `l` it
holds the last `cap` of them, entry `k` in slot `k % cap`; slots that were never written hold the
default.
-/

namespace Ring

open Function List Nat

variable {α : Type} {cap : ℕ} {d x : α} {l : List α} {slots : ℕ → α} {ptr : ℕ}

def advance (cap ptr : ℕ) : ℕ := if ptr + 1 ≥ cap then 0 else ptr + 1

theorem advance_mod (hcap : 0 < cap) (n : ℕ) : advance cap (n % cap) = (n + 1) % cap := by
  unfold advance
  have hlt := mod_lt n hcap
  split_ifs with hwrap
  · have hsum : n + 1 = cap * (n / cap + 1) := by
      have := mod_add_div n cap
      rw [mul_succ]
      omega
    rw [hsum, mul_mod_right]
  · rw [add_mod n 1 cap, mod_eq_of_lt (show 1 < cap by omega)]
    exact (mod_eq_of_lt (by omega)).symm

theorem mod_ne_of_lt {k n : ℕ} (hk : k < n) (hn : n < k + cap) : k % cap ≠ n % cap := by
  intro heq
  have hdvd : cap ∣ n - k := (modEq_iff_dvd' hk.le).mp heq
  have := le_of_dvd (by omega) hdvd
  omega

theorem getElem?_concat_eq_some {y : α} {k : ℕ} (h : (l ++ [x])[k]? = some y) :
    l[k]? = some y ∨ k = l.length ∧ x = y := by
  have hlt := (List.getElem?_eq_some_iff.mp h).1
  rw [length_append, length_singleton] at hlt
  rcases Nat.lt_or_eq_of_le (Nat.lt_succ_iff.mp hlt) with hold | rfl
  · exact .inl (by rwa [getElem?_append_left hold] at h)
  · rw [getElem?_concat_length] at h
    exact .inr ⟨rfl, Option.some.inj h⟩

/-- The slots after the entries `l`. -/
structure Holds (cap : ℕ) (d : α) (l : List α) (slots : ℕ → α) (ptr : ℕ) : Prop where
  ptr_eq : ptr = l.length % cap
  recent : ∀ k x, l[k]? = some x → l.length ≤ k + cap → slots (k % cap) = x
  unused : ∀ i, cap ≤ i ∨ l.length ≤ i → slots i = d

namespace Holds

theorem nil (cap : ℕ) (d : α) : Holds cap d [] (fun _ => d) 0 :=
  ⟨(zero_mod cap).symm, by simp, fun _ _ => rfl⟩

section

variable (h : Holds cap d l slots ptr)

include h

theorem ptr_lt (hcap : 0 < cap) : ptr < cap :=
  h.ptr_eq ▸ mod_lt _ hcap

/-- The slot at the pointer is unused until the buffer is full. -/
theorem at_ptr_of_lt (hfree : l.length < cap) : slots ptr = d := by
  refine h.unused ptr (.inr ?_)
  rw [h.ptr_eq, mod_eq_of_lt hfree]

/-- In a full buffer the slot at the pointer holds the oldest entry. -/
theorem at_ptr_of_le (hcap : 0 < cap) (hfull : cap ≤ l.length) :
    l[l.length - cap]? = some (slots ptr) := by
  obtain ⟨x, hx⟩ : ∃ x, l[l.length - cap]? = some x :=
    ⟨_, getElem?_eq_getElem (by omega)⟩
  have hslot := h.recent _ x hx (by omega)
  rw [← mod_eq_sub_mod hfull, ← h.ptr_eq] at hslot
  rw [hx, hslot]

theorem push (hcap : 0 < cap) (x : α) :
    Holds cap d (l ++ [x]) (update slots ptr x) (advance cap ptr) := by
  have hptr := h.ptr_lt hcap
  refine ⟨?_, fun k y hy hk => ?_, fun i hi => ?_⟩
  · rw [h.ptr_eq, advance_mod hcap, length_append, length_singleton]
  · rw [length_append, length_singleton] at hk
    rcases getElem?_concat_eq_some hy with hold | ⟨rfl, rfl⟩
    · have hlt := (List.getElem?_eq_some_iff.mp hold).1
      have hne : k % cap ≠ ptr := h.ptr_eq ▸ mod_ne_of_lt hlt (by omega)
      rw [update_of_ne hne]
      exact h.recent k y hold (by omega)
    · rw [← h.ptr_eq, update_self]
  · rw [length_append, length_singleton] at hi
    have hne : i ≠ ptr := by
      rcases hi with hi | hi
      · omega
      · have := mod_le l.length cap
        rw [← h.ptr_eq] at this
        omega
    rw [update_of_ne hne]
    exact h.unused i (by omega)

end

end Holds

end Ring
