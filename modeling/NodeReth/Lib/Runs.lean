import Mathlib.Data.List.Basic
import Mathlib.Order.Basic

/-!
# Runs of a transition relation

Every step of the relation emits a list of events, and a run emits those of its steps in order. An
invariant may speak of the events so far.
-/

namespace Runs

open List

variable {σ κ : Type}

/-- `Steps step s xs t`: the relation leads from `s` to `t` and emits `xs`. -/
inductive Steps (step : σ → List κ → σ → Prop) : σ → List κ → σ → Prop
  | refl (s : σ) : Steps step s [] s
  | tail {s t u : σ} {xs ys : List κ} :
      Steps step s xs t → step t ys u → Steps step s (xs ++ ys) u

namespace Steps

variable {step : σ → List κ → σ → Prop} {s t u : σ} {xs ys : List κ}

theorem single (h : step s xs t) : Steps step s xs t := by
  have h' := tail (refl s) h
  rwa [nil_append] at h'

theorem trans (h : Steps step s xs t) (h' : Steps step t ys u) : Steps step s (xs ++ ys) u := by
  induction h' with
  | refl => rwa [append_nil]
  | tail _ hstep ih =>
    rw [← append_assoc]
    exact ih.tail hstep

/-- An invariant of states and events emitted so far holds along every run. -/
theorem invariant (inv : List κ → σ → Prop)
    (hstep : ∀ xs ys t u, inv xs t → step t ys u → inv (xs ++ ys) u) (hs : inv [] s)
    (h : Steps step s xs t) : inv xs t := by
  induction h with
  | refl => exact hs
  | tail _ hst ih => exact hstep _ _ _ _ ih hst

/-- An invariant of states alone holds along every run. -/
theorem preserved (inv : σ → Prop) (hstep : ∀ ys t u, inv t → step t ys u → inv u) (hs : inv s)
    (h : Steps step s xs t) : inv t :=
  invariant (fun _ => inv) (fun _ ys t u => hstep ys t u) hs h

end Steps

/-! ## Journals -/

/-- A list of records of transitions, each of which starts where the one before it ended, leads from
one state to another. -/
inductive Linked (pre post : κ → σ) : σ → List κ → σ → Prop
  | nil (s : σ) : Linked pre post s [] s
  | cons {x : κ} {xs : List κ} {t : σ} :
      Linked pre post (post x) xs t → Linked pre post (pre x) (x :: xs) t

namespace Linked

variable {pre post : κ → σ} {s t u : σ} {xs ys : List κ}

theorem append (h : Linked pre post s xs t) (h' : Linked pre post t ys u) :
    Linked pre post s (xs ++ ys) u := by
  induction h with
  | nil => exact h'
  | cons _ ih => exact .cons (ih h')

theorem map {σ' κ' : Type} (pre' post' : κ' → σ') (g : σ → σ') (k : κ → κ')
    (hpre : ∀ x, pre' (k x) = g (pre x)) (hpost : ∀ x, post' (k x) = g (post x))
    (h : Linked pre post s xs t) : Linked pre' post' (g s) (xs.map k) (g t) := by
  induction h with
  | nil s => exact .nil (g s)
  | @cons x xs t _ ih =>
    rw [← hpre x]
    rw [← hpost x] at ih
    exact .cons ih

variable (rel : σ → σ → Prop) (hrefl : ∀ s, rel s s)
  (htrans : ∀ s t u, rel s t → rel t u → rel s u)

include hrefl htrans

/-- A relation that every record establishes, and that composes, holds between the ends. -/
theorem related (h : Linked pre post s xs t) (hstep : ∀ x ∈ xs, rel (pre x) (post x)) : rel s t := by
  induction h with
  | nil s => exact hrefl s
  | @cons x xs t _ ih =>
    refine htrans _ (post x) _ (hstep x mem_cons_self) (ih ?_)
    exact fun y hy => hstep y (mem_cons_of_mem x hy)

end Linked

/-! ## Journals in the order of time -/

namespace Linked

variable {ι : Type} [Preorder ι] {pre post : κ → σ} {s t : σ} {xs : List κ} (time : κ → ι)
  (rel : ι → σ → σ → Prop) (hrefl : ∀ i s, rel i s s)
  (htrans : ∀ i s t u, rel i s t → rel i t u → rel i s u)
  (hmono : ∀ i j s t, i ≤ j → rel i s t → rel j s t)

include hrefl htrans hmono

/-- A relation that holds for each record at its time, and for longer, holds up to a record at the
time of that record. -/
theorem related_pre_at (h : Linked pre post s xs t) (hstep : ∀ x ∈ xs, rel (time x) (pre x) (post x))
    (hsorted : xs.Pairwise fun x y => time x ≤ time y) {y : κ} (hy : y ∈ xs) :
    rel (time y) s (pre y) := by
  induction h with
  | nil => cases hy
  | @cons x xs t _ ih =>
    obtain ⟨hfirst, hrest⟩ := pairwise_cons.mp hsorted
    rcases mem_cons.mp hy with rfl | hmem
    · exact hrefl _ _
    · refine htrans _ _ (post x) _ ?_ (ih ?_ hrest hmem)
      · exact hmono _ _ _ _ (hfirst y hmem) (hstep x mem_cons_self)
      · exact fun z hz => hstep z (mem_cons_of_mem x hz)

theorem pairwise_at (h : Linked pre post s xs t) (hstep : ∀ x ∈ xs, rel (time x) (pre x) (post x))
    (hsorted : xs.Pairwise fun x y => time x ≤ time y) :
    xs.Pairwise fun x y => rel (time y) (post x) (pre y) := by
  induction h with
  | nil => exact .nil
  | @cons x xs t hlinked ih =>
    obtain ⟨-, hrest⟩ := pairwise_cons.mp hsorted
    have hstep' : ∀ y ∈ xs, rel (time y) (pre y) (post y) := fun y hy =>
      hstep y (mem_cons_of_mem x hy)
    refine .cons (fun y hy => ?_) (ih hstep' hrest)
    exact related_pre_at time rel hrefl htrans hmono hlinked hstep' hrest hy

end Linked

end Runs
