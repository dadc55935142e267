import NodeReth.Lib.Runs

/-!
# Fallible computations

Rules for `Except`: what a computation that succeeded went through, and what a fold of fallible
steps keeps.
-/

namespace Fallible

open List

variable {ε δ α β σ : Type} {a : α} {c : Prop} {e : ε}

def failIf (c : Prop) [Decidable c] (e : ε) : Except ε Unit := if c then .error e else .ok ()

def orFail (o : Option α) (e : ε) : Except ε α :=
  match o with
  | some a => .ok a
  | none => .error e

/-! ## Inversion -/

theorem bind_ok_iff {x : Except ε α} {f : α → Except ε β} {b : β} :
    (x >>= f) = .ok b ↔ ∃ a, x = .ok a ∧ f a = .ok b := by
  show Except.bind x f = _ ↔ _
  cases x <;> simp [Except.bind]

theorem pure_ok_iff {b : α} : (pure a : Except ε α) = .ok b ↔ a = b := by
  show Except.ok a = .ok b ↔ _
  rw [Except.ok.injEq]

theorem bind_return_ok {x : Except ε α} {f : α → β} {b : β}
    (h : (x >>= fun a => pure (f a)) = .ok b) : ∃ a, x = .ok a ∧ f a = b := by
  obtain ⟨a, hx, hreturn⟩ := bind_ok_iff.mp h
  exact ⟨a, hx, pure_ok_iff.mp hreturn⟩

theorem failIf_ok_iff [Decidable c] {u : Unit} : failIf c e = .ok u ↔ ¬ c := by
  unfold failIf
  split_ifs with h <;> simp [h]

theorem failIf_pos [Decidable c] (h : c) : failIf c e = .error e := if_pos h

theorem failIf_neg [Decidable c] (h : ¬c) : failIf c e = .ok () := if_neg h

theorem ok_bind {f : α → Except ε β} : ((.ok a : Except ε α) >>= f) = f a := rfl

theorem failIf_bind_neg [Decidable c] {f : Unit → Except ε β} (h : ¬c) : (failIf c e >>= f) = f () := by
  rw [failIf_neg h, ok_bind]

theorem orFail_ok_iff {o : Option α} : orFail o e = .ok a ↔ o = some a := by
  cases o <;> simp [orFail]

theorem mapError_ok_iff {x : Except ε α} {f : ε → δ} : x.mapError f = .ok a ↔ x = .ok a := by
  cases x <;> simp [Except.mapError]

/-! ## Folds -/

variable {f : σ → α → Except ε σ} {s t : σ} {l : List α}

theorem foldlM_cons_ok_iff :
    (a :: l).foldlM f s = .ok t ↔ ∃ u, f s a = .ok u ∧ l.foldlM f u = .ok t := by
  rw [foldlM_cons, bind_ok_iff]

theorem foldlM_append_ok_iff {l' : List α} :
    (l ++ l').foldlM f s = .ok t ↔ ∃ u, l.foldlM f s = .ok u ∧ l'.foldlM f u = .ok t := by
  rw [foldlM_append, bind_ok_iff]

/-- A relation that every step of a fold establishes, and that composes, holds between the ends of
the fold. -/
theorem foldlM_related (rel : σ → σ → Prop) (hrefl : ∀ s, rel s s)
    (htrans : ∀ s t u, rel s t → rel t u → rel s u)
    (hstep : ∀ a ∈ l, ∀ s t, f s a = .ok t → rel s t) (h : l.foldlM f s = .ok t) : rel s t := by
  induction l generalizing s with
  | nil =>
    cases h
    exact hrefl _
  | cons a l ih =>
    obtain ⟨u, hu, hrest⟩ := foldlM_cons_ok_iff.mp h
    refine htrans s u t (hstep a (mem_cons_self ..) s u hu) (ih ?_ hrest)
    exact fun a' ha' => hstep a' (mem_cons_of_mem _ ha')

/-- The steps that a fold goes through, with the states before and after each. -/
def journal (f : σ → α → Except ε σ) : σ → List α → List (σ × α × σ)
  | _, [] => []
  | s, a :: l =>
    match f s a with
    | .ok t => (s, a, t) :: journal f t l
    | .error _ => []

theorem journal_linked (h : l.foldlM f s = .ok t) :
    Runs.Linked (fun x => x.1) (fun x => x.2.2) s (journal f s l) t := by
  induction l generalizing s with
  | nil =>
    cases h
    exact .nil _
  | cons a l ih =>
    obtain ⟨u, hu, hrest⟩ := foldlM_cons_ok_iff.mp h
    unfold journal
    simp only [hu]
    exact .cons (x := (s, a, u)) (ih hrest)

theorem journal_step {x : σ × α × σ} (h : x ∈ journal f s l) : f x.1 x.2.1 = .ok x.2.2 := by
  induction l generalizing s with
  | nil => cases h
  | cons a l ih =>
    unfold journal at h
    cases hstep : f s a with simp only [hstep] at h
    | ok t =>
      rcases mem_cons.mp h with rfl | hmem
      · exact hstep
      · exact ih hmem
    | error e => cases h

end Fallible
