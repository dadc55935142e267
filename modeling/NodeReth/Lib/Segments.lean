import Mathlib.Data.List.TakeWhile
import Mathlib.Tactic

/-!
# Tilings of an interval

Segments of natural numbers that follow each other without a gap. A tiling is grown at its end,
cut back to a prefix, or shifted down when the numbers at its start are dropped.
-/

namespace Segments

open List

variable {s t n : ℕ}

/-- `len` numbers from `start` on. -/
structure Segment where
  start : ℕ
  len : ℕ

namespace Segment

def stop (x : Segment) : ℕ := x.start + x.len

/-- The segment after the first `n` numbers were dropped and the others moved down. -/
def shift (n : ℕ) (x : Segment) : Segment := ⟨x.start - n, x.stop - n - (x.start - n)⟩

def Has (x : Segment) (i : ℕ) : Prop := x.start ≤ i ∧ i < x.stop

end Segment

open Segment

/-- The segments are not empty and tile the numbers from `s` to `t`. -/
def Tiles : ℕ → List Segment → ℕ → Prop
  | s, [], t => s = t
  | s, x :: xs, t => x.start = s ∧ 0 < x.len ∧ Tiles x.stop xs t

variable {x : Segment} {xs : List Segment}

@[simp] theorem tiles_nil : Tiles s [] t ↔ s = t := Iff.rfl

theorem tiles_append {ys : List Segment} : Tiles s (xs ++ ys) t ↔ ∃ m, Tiles s xs m ∧ Tiles m ys t := by
  induction xs generalizing s with
  | nil => simp
  | cons x xs ih =>
    rw [cons_append, Tiles, ih]
    constructor
    · rintro ⟨hstart, hlen, m, hxs, hys⟩
      exact ⟨m, ⟨hstart, hlen, hxs⟩, hys⟩
    · rintro ⟨m, ⟨hstart, hlen, hxs⟩, hys⟩
      exact ⟨hstart, hlen, m, hxs, hys⟩

theorem tiles_concat : Tiles s (xs ++ [x]) t ↔ Tiles s xs x.start ∧ 0 < x.len ∧ x.stop = t := by
  rw [tiles_append]
  constructor
  · rintro ⟨m, hxs, hstart, hlen, hstop⟩
    exact ⟨hstart ▸ hxs, hlen, hstop⟩
  · rintro ⟨hxs, hlen, hstop⟩
    exact ⟨x.start, hxs, rfl, hlen, hstop⟩

section

variable (h : Tiles s xs t)

include h

namespace Tiles

theorem le : s ≤ t := by
  induction xs generalizing s with
  | nil => exact Nat.le_of_eq h
  | cons x xs ih =>
    obtain ⟨hstart, -, hxs⟩ := h
    have := ih hxs
    unfold stop at this
    omega

/-- The segments before the `i`-th tile the numbers up to its start. -/
theorem take {i : ℕ} (hx : xs[i]? = some x) : Tiles s (xs.take i) x.start := by
  obtain ⟨hi, rfl⟩ := List.getElem?_eq_some_iff.mp hx
  rw [← take_append_drop i xs, tiles_append] at h
  obtain ⟨m, htake, hdrop⟩ := h
  rw [drop_eq_getElem_cons hi] at hdrop
  rwa [hdrop.1]

theorem stop_le (hx : x ∈ xs) : s ≤ x.start ∧ x.stop ≤ t := by
  induction xs generalizing s with
  | nil => cases hx
  | cons y ys ih =>
    obtain ⟨hstart, -, hys⟩ := h
    rcases mem_cons.mp hx with rfl | hx
    · exact ⟨hstart.ge, hys.le⟩
    · have := ih hys hx
      unfold stop at this ⊢
      omega

theorem pos (hx : x ∈ xs) : 0 < x.len := by
  induction xs generalizing s with
  | nil => cases hx
  | cons y ys ih =>
    rcases mem_cons.mp hx with rfl | hx
    · exact h.2.1
    · exact ih h.2.2 hx

/-- Every number of the interval lies in exactly one segment. -/
theorem existsUnique {i : ℕ} (hs : s ≤ i) (ht : i < t) :
    ∃! k : ℕ, ∃ x : Segment, xs[k]? = some x ∧ x.Has i := by
  induction xs generalizing s with
  | nil =>
    have : s = t := h
    omega
  | cons x xs ih =>
    obtain ⟨hstart, -, hxs⟩ := h
    by_cases hi : i < x.stop
    · refine ⟨0, ⟨x, rfl, hstart.trans_le hs, hi⟩, ?_⟩
      rintro (_ | k) ⟨y, hy, hyi⟩
      · rfl
      · have := (hxs.stop_le (mem_of_getElem? hy)).1
        unfold Has at hyi
        omega
    · obtain ⟨k, ⟨y, hy, hyi⟩, huniq⟩ := ih hxs (not_lt.mp hi)
      refine ⟨k + 1, ⟨y, hy, hyi⟩, ?_⟩
      rintro (_ | l) ⟨z, hz, hzi⟩
      · obtain rfl : x = z := Option.some.inj hz
        exact absurd hzi.2 hi
      · rw [huniq l ⟨z, hz, hzi⟩]

/-- Behind a segment that ends after `n` every segment does. -/
theorem lt_stop (hfirst : ∀ x ∈ xs.head?, n < x.stop) : ∀ x ∈ xs, n < x.stop := by
  cases xs with
  | nil => simp
  | cons x xs =>
    have hx := hfirst x rfl
    intro y hy
    rcases mem_cons.mp hy with rfl | hy
    · exact hx
    · have hstart := (h.2.2.stop_le hy).1
      have hstop : y.start ≤ y.stop := Nat.le_add_right _ _
      omega

/-- Shifting keeps a tiling of which no segment is dropped entirely. -/
theorem map_shift (hn : ∀ x ∈ xs, n < x.stop) : Tiles (s - n) (xs.map (shift n)) (t - n) := by
  induction xs generalizing s with
  | nil => exact congrArg (· - n) h
  | cons x xs ih =>
    obtain ⟨hstart, hlen, hxs⟩ := h
    have hx : n < x.start + x.len := hn x mem_cons_self
    have hstop : (shift n x).stop = x.stop - n := by
      unfold shift stop
      simp only
      omega
    refine ⟨by rw [shift, hstart], ?_, ?_⟩
    · unfold shift stop
      simp only
      omega
    · rw [hstop]
      exact ih hxs fun y hy => hn y (mem_cons_of_mem x hy)

/-- The segments that are left when those that end by `n` are dropped end after `n`. -/
theorem lt_stop_of_mem_dropWhile :
    ∀ x ∈ xs.dropWhile fun x => decide (x.stop ≤ n), n < x.stop := by
  rw [← takeWhile_append_dropWhile (p := fun x => decide (x.stop ≤ n)) (l := xs),
    tiles_append] at h
  obtain ⟨m, -, hdrop⟩ := h
  refine hdrop.lt_stop fun x hx => ?_
  have hhead := head?_dropWhile_not (fun x : Segment => decide (x.stop ≤ n)) xs
  rw [Option.mem_def.mp hx] at hhead
  simpa using hhead

end Tiles

end

/-- Dropping the first `n` numbers drops the segments that end there. -/
theorem Tiles.prune (h : Tiles 0 xs t) :
    Tiles 0 ((xs.dropWhile fun x => decide (x.stop ≤ n)).map (shift n)) (t - n) := by
  have hlive := h.lt_stop_of_mem_dropWhile (n := n)
  rw [← takeWhile_append_dropWhile (p := fun x => decide (x.stop ≤ n)) (l := xs),
    tiles_append] at h
  obtain ⟨m, htake, hdrop⟩ := h
  have hm : m ≤ n := by
    rcases eq_nil_or_concat' (xs.takeWhile fun x => decide (x.stop ≤ n)) with hnil | ⟨ys, y, hy⟩
    · rw [hnil] at htake
      exact htake ▸ Nat.zero_le n
    · have hmem : y ∈ xs.takeWhile fun x => decide (x.stop ≤ n) := by
        rw [hy]
        simp
      have hstop := mem_takeWhile_imp hmem
      rw [hy, tiles_concat] at htake
      exact htake.2.2 ▸ of_decide_eq_true hstop
  have hshift := hdrop.map_shift hlive
  rwa [Nat.sub_eq_zero_of_le hm] at hshift

end Segments
