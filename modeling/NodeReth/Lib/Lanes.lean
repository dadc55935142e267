import Mathlib.Tactic

/-!
# Iterators over lanes

An iterator hands out items one by one; every item belongs to a lane, and the items of a lane come
in their order. Invalidating an item drops the rest of its lane. `Lawful` says so through a function
that gives the items of each lane that are still to come.
-/

namespace Lanes

open List

/-- An iterator with invalidation. -/
structure Source (α : Type) where
  State : Type
  next : State → Option α × State
  markInvalid : α → State → State

variable {α ι : Type} [DecidableEq ι]

/-- `pending s l` are the items of lane `l` that are still to come, and `size` bounds their
number. -/
structure Lawful (src : Source α) (lane : α → ι) (pending : src.State → ι → List α)
    (size : src.State → ℕ) : Prop where
  lane_eq : ∀ s l, ∀ x ∈ pending s l, lane x = l
  next_some : ∀ {s s' x}, src.next s = (some x, s') →
    (∀ l, pending s l = if l = lane x then x :: pending s' l else pending s' l) ∧ size s' < size s
  next_none : ∀ {s s'}, src.next s = (none, s') →
    (∀ l, pending s l = []) ∧ (∀ l, pending s' l = []) ∧ size s' ≤ size s
  markInvalid : ∀ x s,
    (∀ l, pending (src.markInvalid x s) l = if l = lane x then [] else pending s l) ∧
      size (src.markInvalid x s) ≤ size s

/-- An item that was fetched ahead, if it is of the lane. -/
def ahead (lane : α → ι) (o : Option α) (l : ι) : List α := o.toList.filter (lane · = l)

section

variable {lane : α → ι}

theorem ahead_some (x : α) (l : ι) : ahead lane (some x) l = if lane x = l then [x] else [] := by
  unfold ahead
  by_cases h : lane x = l <;> simp [h]

theorem ahead_some_append (x : α) (l : ι) (rest : List α) :
    ahead lane (some x) l ++ rest = if l = lane x then x :: rest else rest := by
  rw [ahead_some]
  by_cases hl : lane x = l
  · rw [if_pos hl, if_pos hl.symm]
    rfl
  · rw [if_neg hl, if_neg (Ne.symm hl)]
    rfl

def fetch (src : Source α) (o : Option α) (s : src.State) : Option α × src.State :=
  if o.isNone then src.next s else (o, s)

/-- Fetching ahead loses nothing, and finds nothing only at the end. -/
theorem Lawful.fetch {src : Source α} {pending : src.State → ι → List α} {size : src.State → ℕ}
    (h : Lawful src lane pending size) (o : Option α) (s : src.State) :
    (∀ l, ahead lane (fetch src o s).1 l ++ pending (fetch src o s).2 l =
        ahead lane o l ++ pending s l) ∧
      (fetch src o s).1.toList.length + size (fetch src o s).2 ≤ o.toList.length + size s ∧
      ((fetch src o s).1 = none → ∀ l, pending (fetch src o s).2 l = []) := by
  cases o with
  | some x => exact ⟨fun _ => rfl, le_rfl, nofun⟩
  | none =>
    show (∀ l, ahead lane (src.next s).1 l ++ pending (src.next s).2 l = pending s l) ∧
      (src.next s).1.toList.length + size (src.next s).2 ≤ 0 + size s ∧
      ((src.next s).1 = none → ∀ l, pending (src.next s).2 l = [])
    rcases hnext : src.next s with ⟨_ | x, s'⟩
    · obtain ⟨hs, hs', hsize⟩ := h.next_none hnext
      exact ⟨fun l => (hs' l).trans (hs l).symm, Nat.add_le_add_left hsize 0, fun _ => hs'⟩
    · obtain ⟨hs, hsize⟩ := h.next_some hnext
      refine ⟨fun l => by rw [ahead_some_append, hs], ?_, nofun⟩
      show 1 + size s' ≤ 0 + size s
      omega

end

/-! ## Queues -/

variable (lane : α → ι) (ok : α → Prop)

/-- A list of items of one kind, handed out from the front. -/
def queue : Source α where
  State := {s : List α // ∀ x ∈ s, ok x}
  next s := match s with
    | ⟨[], h⟩ => (none, ⟨[], h⟩)
    | ⟨x :: s, h⟩ => (some x, ⟨s, fun y hy => h y (mem_cons_of_mem x hy)⟩)
  markInvalid x s := ⟨s.1.filter (lane · ≠ lane x), fun y hy => s.2 y (mem_filter.mp hy).1⟩

theorem queue_lawful : Lawful (queue lane ok) lane (fun s l => s.1.filter (lane · = l))
    (fun s => s.1.length) where
  lane_eq s l x hx := by simpa using (mem_filter.mp hx).2
  next_some := by
    rintro ⟨_ | ⟨y, s⟩, hs⟩ s' x hnext
    · cases hnext
    · cases hnext
      refine ⟨fun l => ?_, Nat.lt_succ_self _⟩
      by_cases hl : l = lane y
      · rw [if_pos hl]
        exact filter_cons_of_pos (by simpa using hl.symm)
      · rw [if_neg hl]
        exact filter_cons_of_neg (by simpa using Ne.symm hl)
  next_none := by
    rintro ⟨_ | ⟨y, s⟩, hs⟩ s' hnext
    · cases hnext
      exact ⟨fun _ => rfl, fun _ => rfl, le_rfl⟩
    · cases hnext
  markInvalid x s := by
    refine ⟨fun l => ?_, length_filter_le _ _⟩
    show (s.1.filter (lane · ≠ lane x)).filter (lane · = l) = _
    rw [filter_filter]
    split_ifs with hl
    · rw [filter_eq_nil_iff]
      intro y _ hy
      simp only [Bool.and_eq_true, decide_eq_true_eq] at hy
      exact hy.2 (hy.1.trans hl)
    · refine filter_congr fun y _ => ?_
      by_cases hy : lane y = l
      · simp [hy, hl]
      · simp [hy]

end Lanes
