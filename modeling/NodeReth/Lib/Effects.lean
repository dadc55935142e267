import Mathlib.Tactic

/-!
# Fallible computations on a state

Rules for `EStateM`: what a successful or a failed sequence went through, and which computations
leave the state alone. A computation that fails keeps the state it has reached, so that a failed
call changes nothing is something to prove: `Reads` and `Atomic` are closed under the ways in which
such calls are built, checks first and writes after.
-/

namespace Effects

variable {ε σ α β : Type} {s t : σ} {e : ε} {b : β}

def ensure (c : Prop) [Decidable c] (e : ε) : EStateM ε σ Unit :=
  if c then pure () else throw e

def finalState : EStateM.Result ε σ α → σ
  | .ok _ t => t
  | .error _ t => t

/-! ## Inversion -/

variable {f : α → EStateM ε σ β} {x : EStateM ε σ α} {u : PUnit} {c : Prop} {γ : Type}

theorem bind_ok_iff : (x >>= f) s = .ok b t ↔ ∃ a u, x s = .ok a u ∧ f a u = .ok b t := by
  show EStateM.bind x f s = _ ↔ _
  unfold EStateM.bind
  cases x s <;> simp

theorem bind_error_iff :
    (x >>= f) s = .error e t ↔ x s = .error e t ∨ ∃ a u, x s = .ok a u ∧ f a u = .error e t := by
  show EStateM.bind x f s = _ ↔ _
  unfold EStateM.bind
  cases x s <;> simp

theorem pure_ok_iff {a : β} : (pure b : EStateM ε σ β) s = .ok a t ↔ a = b ∧ t = s := by
  show EStateM.Result.ok b s = .ok a t ↔ _
  rw [EStateM.Result.ok.injEq]
  exact and_congr eq_comm eq_comm

theorem bind_return_ok {f : α → β}
    (h : (x >>= fun a => pure (f a)) s = .ok b t) : ∃ a, x s = .ok a t ∧ b = f a := by
  obtain ⟨a, u, hx, hreturn⟩ := bind_ok_iff.mp h
  obtain ⟨rfl, rfl⟩ := pure_ok_iff.mp hreturn
  exact ⟨a, hx, rfl⟩

theorem get_ok_iff {u : σ} : (get : EStateM ε σ σ) s = .ok u t ↔ u = s ∧ t = s :=
  pure_ok_iff

theorem get_bind (f : σ → EStateM ε σ β) : (get >>= f) s = f s s := rfl

theorem modify_ok_iff {f : σ → σ} : (modify f : EStateM ε σ PUnit) s = .ok u t ↔ t = f s := by
  show EStateM.Result.ok PUnit.unit (f s) = .ok u t ↔ _
  rw [EStateM.Result.ok.injEq]
  exact ⟨fun h => h.2.symm, fun h => ⟨rfl, h.symm⟩⟩

theorem ensure_ok_iff [Decidable c] {u : Unit} :
    (ensure c e : EStateM ε σ Unit) s = .ok u t ↔ c ∧ t = s := by
  unfold ensure
  split_ifs with h
  · rw [pure_ok_iff]
    exact ⟨fun ht => ⟨h, ht.2⟩, fun ht => ⟨rfl, ht.2⟩⟩
  · constructor
    · nofun
    · exact fun hc => absurd hc.1 h

/-! ## Failure -/

/-- Leaves a part of the state alone, whether it fails or not. -/
def Keeps (f : σ → γ) (x : EStateM ε σ α) : Prop :=
  (∀ s a t, x s = .ok a t → f t = f s) ∧ ∀ s e t, x s = .error e t → f t = f s

theorem Keeps.bind_error {p : σ → γ} {v : γ} (hx : Keeps p x) (hs : p s = v)
    (h : (x >>= f) s = .error e t) : p t = v ∨ ∃ a u, p u = v ∧ f a u = .error e t := by
  rcases bind_error_iff.mp h with hfail | ⟨a, u, hok, hrest⟩
  · exact .inl ((hx.2 s e t hfail).trans hs)
  · exact .inr ⟨a, u, (hx.1 s a u hok).trans hs, hrest⟩

theorem Keeps.bind {p : σ → γ} {g : α → EStateM ε σ β} (hx : Keeps p x)
    (hg : ∀ a, Keeps p (g a)) : Keeps p (x >>= g) := by
  constructor
  · intro s b t h
    obtain ⟨a, u, hxu, hgu⟩ := bind_ok_iff.mp h
    rw [(hg a).1 u b t hgu, hx.1 s a u hxu]
  · intro s e t h
    rcases hx.bind_error rfl h with hsame | ⟨a, u, hu, hge⟩
    · exact hsame
    · rw [(hg a).2 u e t hge, hu]

/-- Never writes. -/
def Reads (x : EStateM ε σ α) : Prop :=
  (∀ s a t, x s = .ok a t → t = s) ∧ ∀ s e t, x s = .error e t → t = s

/-- Never fails. -/
def Succeeds (x : EStateM ε σ α) : Prop := ∀ s, ∃ a t, x s = .ok a t

/-- Leaves the state alone when it fails. -/
def Atomic (x : EStateM ε σ α) : Prop := ∀ s e t, x s = .error e t → t = s

theorem Reads.atomic (h : Reads x) : Atomic x := h.2

theorem Succeeds.ne_error (h : Succeeds x) (s : σ) (e : ε) (t : σ) : x s ≠ .error e t := by
  intro herr
  obtain ⟨a, u, hok⟩ := h s
  rw [hok] at herr
  cases herr

theorem Succeeds.atomic (h : Succeeds x) : Atomic x :=
  fun s e t herr => absurd herr (h.ne_error s e t)

theorem reads_pure (b : β) : Reads (pure b : EStateM ε σ β) :=
  ⟨fun _ _ _ h => (pure_ok_iff.mp h).2, nofun⟩

theorem reads_get : Reads (get : EStateM ε σ σ) :=
  ⟨fun _ _ _ h => (get_ok_iff.mp h).2, nofun⟩

theorem reads_throw (e : ε) : Reads (throw e : EStateM ε σ α) :=
  ⟨nofun, fun _ _ _ h => (by cases h; rfl)⟩

theorem reads_ensure (c : Prop) [Decidable c] (e : ε) : Reads (ensure c e : EStateM ε σ Unit) := by
  unfold ensure
  split_ifs
  · exact reads_pure ()
  · exact reads_throw e

theorem Reads.bind (hx : Reads x) (hf : ∀ a, Reads (f a)) : Reads (x >>= f) :=
  Keeps.bind (p := id) hx hf

theorem bind_congr_left {y : EStateM ε σ α} (h : x s = y s) : (x >>= f) s = (y >>= f) s := by
  show EStateM.bind x f s = EStateM.bind y f s
  unfold EStateM.bind
  rw [h]

theorem Reads.bind_congr {g : α → EStateM ε σ β} (hx : Reads x)
    (h : ∀ a, f a s = g a s) : (x >>= f) s = (x >>= g) s := by
  show EStateM.bind x f s = EStateM.bind x g s
  unfold EStateM.bind
  cases hs : x s with
  | ok a t =>
    obtain rfl := hx.1 s a t hs
    exact h a
  | error e t => rfl

/-- Checks may come before an atomic computation. -/
theorem Atomic.after_reads (hx : Reads x) (hf : ∀ a, Atomic (f a)) : Atomic (x >>= f) := by
  intro s e t h
  rcases bind_error_iff.mp h with hxe | ⟨a, u, hxu, hfe⟩
  · exact hx.2 s e t hxe
  · rw [hf a u e t hfe, hx.1 s a u hxu]

/-- Writes that cannot fail may come after one. -/
theorem Atomic.before_succeeds (hx : Atomic x) (hf : ∀ a, Succeeds (f a)) : Atomic (x >>= f) := by
  intro s e t h
  rcases bind_error_iff.mp h with hxe | ⟨a, u, -, hfe⟩
  · exact hx s e t hxe
  · exact absurd hfe ((hf a).ne_error u e t)

theorem succeeds_pure (b : β) : Succeeds (pure b : EStateM ε σ β) := fun s => ⟨b, s, rfl⟩

theorem succeeds_modify (f : σ → σ) : Succeeds (modify f : EStateM ε σ PUnit) :=
  fun s => ⟨⟨⟩, f s, rfl⟩

theorem Succeeds.bind (hx : Succeeds x) (hf : ∀ a, Succeeds (f a)) : Succeeds (x >>= f) := by
  intro s
  obtain ⟨a, u, hxu⟩ := hx s
  obtain ⟨b, t, hft⟩ := hf a u
  exact ⟨b, t, bind_ok_iff.mpr ⟨a, u, hxu, hft⟩⟩

theorem forM_modify_ok_iff {f : γ → σ → σ} {l : List γ} :
    (l.forM fun x => (modify (f x) : EStateM ε σ PUnit)) s = .ok u t ↔
      t = l.foldl (fun s x => f x s) s := by
  induction l generalizing s with
  | nil => exact pure_ok_iff.trans ⟨fun h => h.2, fun h => ⟨rfl, h⟩⟩
  | cons x l ih =>
    show ((modify (f x) : EStateM ε σ PUnit) >>= fun _ => l.forM fun x => modify (f x)) s = _ ↔ _
    rw [bind_ok_iff]
    constructor
    · rintro ⟨_, v, hmodify, hloop⟩
      rw [modify_ok_iff.mp hmodify] at hloop
      exact ih.mp hloop
    · exact fun h => ⟨⟨⟩, f x s, rfl, ih.mpr h⟩

theorem forM_ok_iff {f : γ → EStateM ε σ PUnit} (hf : ∀ x, Reads (f x)) {l : List γ} :
    l.forM f s = .ok u t ↔ t = s ∧ ∀ x ∈ l, f x s = .ok ⟨⟩ s := by
  induction l with
  | nil => exact pure_ok_iff.trans ⟨fun h => ⟨h.2, nofun⟩, fun h => ⟨rfl, h.1⟩⟩
  | cons x l ih =>
    show (f x >>= fun _ => l.forM f) s = _ ↔ _
    rw [bind_ok_iff, List.forall_mem_cons]
    constructor
    · rintro ⟨_, v, hx, hl⟩
      obtain rfl := (hf x).1 _ _ _ hx
      exact ⟨(ih.mp hl).1, hx, (ih.mp hl).2⟩
    · rintro ⟨ht, hx, hl⟩
      exact ⟨_, s, hx, ih.mpr ⟨ht, hl⟩⟩

/-- What every turn of a loop relates is related by the loop. -/
theorem forM_ok_related {f : γ → EStateM ε σ PUnit} (rel : σ → σ → Prop)
    (hrefl : ∀ s, rel s s) (htrans : ∀ s t u, rel s t → rel t u → rel s u)
    (hstep : ∀ x s t, f x s = .ok ⟨⟩ t → rel s t) {l : List γ}
    (h : l.forM f s = .ok u t) : rel s t := by
  induction l generalizing s with
  | nil =>
    rw [(pure_ok_iff.mp h).2]
    exact hrefl s
  | cons x l ih =>
    obtain ⟨_, v, hx, hl⟩ := bind_ok_iff.mp h
    exact htrans _ _ _ (hstep x s v hx) (ih hl)

/-! ## Parts of the state that stay -/

section Keeps

variable {γ : Type} {f : σ → γ} {x : EStateM ε σ α}

theorem Reads.keeps (h : Reads x) : Keeps f x :=
  ⟨fun s a t hx => by rw [h.1 s a t hx], fun s e t hx => by rw [h.2 s e t hx]⟩

theorem keeps_modify {g : σ → σ} (h : ∀ s, f (g s) = f s) : Keeps f (modify g : EStateM ε σ PUnit) := by
  refine ⟨fun s a t hx => ?_, nofun⟩
  rw [modify_ok_iff.mp hx]
  exact h s

/-- A write that leaves a part of the state alone. -/
class Untouched (f : σ → γ) (g : σ → σ) : Prop where
  eq : ∀ s, f (g s) = f s

/-- `Keeps` as a class, to be inferred from the way in which a computation is built. -/
class Frames (f : σ → γ) (x : EStateM ε σ α) : Prop where
  keeps : Keeps f x

theorem Reads.frames (h : Reads x) : Frames f x := ⟨h.keeps⟩

instance (b : β) : Frames f (pure b : EStateM ε σ β) := (reads_pure b).frames

instance (e : ε) : Frames f (throw e : EStateM ε σ α) := (reads_throw e).frames

instance : Frames f (get : EStateM ε σ σ) := reads_get.frames

instance (c : Prop) [Decidable c] (e : ε) : Frames f (ensure c e : EStateM ε σ Unit) :=
  (reads_ensure c e).frames

instance (g : σ → σ) [h : Untouched f g] : Frames f (modify g : EStateM ε σ PUnit) :=
  ⟨keeps_modify h.eq⟩

theorem Frames.bind {g : α → EStateM ε σ β} [hx : Frames f x]
    (hg : ∀ a, Frames f (g a)) : Frames f (x >>= g) :=
  ⟨hx.keeps.bind fun a => (hg a).keeps⟩

instance (x : EStateM ε σ α) (g : α → EStateM ε σ β) [Frames f x] [hg : ∀ a, Frames f (g a)] :
    Frames f (x >>= g) := .bind hg

theorem Frames.kept [h : Frames f x] {a : α} (hx : x s = .ok a t) : f t = f s := h.keeps.1 s a t hx

theorem Frames.unchanged [h : Frames id x] {a : α} (hx : x s = .ok a t) : t = s := h.keeps.1 s a t hx

instance (c : Prop) [Decidable c] (x y : EStateM ε σ α) [hx : Frames f x] [hy : Frames f y] :
    Frames f (if c then x else y) := by
  split_ifs
  · exact hx
  · exact hy

instance {κ : Type} (g : κ → EStateM ε σ PUnit) (l : List κ) [hg : ∀ x, Frames f (g x)] :
    Frames f (l.forM g) := by
  refine ⟨?_⟩
  induction l with
  | nil => exact (reads_pure _).keeps
  | cons x l ih => exact (hg x).keeps.bind fun _ => ih

theorem Frames.reads [h : Frames id x] : Reads x := h.keeps

end Keeps

/-! ## Checks first, writes after -/

class Sure (x : EStateM ε σ α) : Prop where
  succeeds : Succeeds x

class Clean (x : EStateM ε σ α) : Prop where
  atomic : Atomic x

instance (b : β) : Sure (pure b : EStateM ε σ β) := ⟨succeeds_pure b⟩

instance (f : σ → σ) : Sure (modify f : EStateM ε σ PUnit) := ⟨succeeds_modify f⟩

instance {γ : Type} (f : γ → σ → σ) (l : List γ) :
    Sure (l.forM fun x => (modify (f x) : EStateM ε σ PUnit)) := 
  ⟨fun _ => ⟨⟨⟩, _, forM_modify_ok_iff.mpr rfl⟩⟩

instance (x : EStateM ε σ α) (f : α → EStateM ε σ β) [hx : Sure x] [hf : ∀ a, Sure (f a)] :
    Sure (x >>= f) := ⟨hx.succeeds.bind fun a => (hf a).succeeds⟩

instance (x : EStateM ε σ α) [h : Sure x] : Clean x := ⟨h.succeeds.atomic⟩

instance (e : ε) : Clean (throw e : EStateM ε σ α) := ⟨(reads_throw e).atomic⟩

instance (x : EStateM ε σ α) (f : α → EStateM ε σ β) [Frames id x] [hf : ∀ a, Clean (f a)] :
    Clean (x >>= f) := ⟨.after_reads Frames.reads fun a => (hf a).atomic⟩

instance (priority := low) (x : EStateM ε σ α) (f : α → EStateM ε σ β) [hx : Clean x]
    [hf : ∀ a, Sure (f a)] :
    Clean (x >>= f) := ⟨hx.atomic.before_succeeds fun a => (hf a).succeeds⟩

/-! ## Invariants -/

section

variable {inv : σ → Prop}

/-- Keeps an invariant, whether it fails or not. -/
def Maintains (inv : σ → Prop) (x : EStateM ε σ α) : Prop := ∀ s, inv s → inv (finalState (x s))

theorem Reads.maintains (h : Reads x) : Maintains inv x := by
  intro s hs
  cases hx : x s with
  | ok a t => rwa [← h.1 s a t hx] at hs
  | error e t => rwa [← h.2 s e t hx] at hs

theorem Maintains.bind (hx : Maintains inv x) (hf : ∀ a, Maintains inv (f a)) :
    Maintains inv (x >>= f) := by
  intro s hs
  have hu := hx s hs
  show inv (finalState (EStateM.bind x f s))
  unfold EStateM.bind
  cases hxs : x s with
  | ok a u =>
    rw [hxs] at hu
    exact hf a u hu
  | error e u => rwa [hxs] at hu

theorem maintains_ensure_bind [Decidable c] {f : Unit → EStateM ε σ β}
    (hf : c → Maintains inv (f ())) : Maintains inv (ensure c e >>= f) := by
  unfold ensure
  split_ifs with hc
  · exact hf hc
  · exact fun _ hs => hs

theorem maintains_forM {g : γ → EStateM ε σ PUnit} {l : List γ}
    (h : ∀ x ∈ l, Maintains inv (g x)) : Maintains inv (l.forM g) := by
  induction l with
  | nil => exact fun _ hs => hs
  | cons x l ih =>
    obtain ⟨hx, hl⟩ := List.forall_mem_cons.mp h
    exact hx.bind fun _ => ih hl

end

/-! ## Errors that do not occur -/

/-- Does not fail with the given error when started in the given state. -/
def Avoids (e : ε) (x : EStateM ε σ α) (s : σ) : Prop := ∀ t, x s ≠ .error e t

theorem Succeeds.avoids (h : Succeeds x) : Avoids e x s :=
  fun t => h.ne_error s e t

theorem avoids_ensure [Decidable c] {e' : ε} (hne : e' ≠ e) :
    Avoids e (ensure c e' : EStateM ε σ Unit) s := by
  intro t h
  unfold ensure at h
  split_ifs at h <;> cases h
  · exact hne rfl

theorem Avoids.bind (hx : Avoids e x s)
    (hf : ∀ a u, x s = .ok a u → Avoids e (f a) u) : Avoids e (x >>= f) s := by
  intro t h
  rcases bind_error_iff.mp h with hxe | ⟨a, u, hxu, hfe⟩
  · exact hx t hxe
  · exact hf a u hxu t hfe

theorem Avoids.get_bind {f : σ → EStateM ε σ β} (h : Avoids e (f s) s) :
    Avoids e ((get : EStateM ε σ σ) >>= f) s := h

theorem Avoids.modify_bind {g : σ → σ} {f : PUnit → EStateM ε σ β} (h : Avoids e (f ⟨⟩) (g s)) :
    Avoids e ((modify g : EStateM ε σ PUnit) >>= f) s := h

theorem Avoids.ensure_bind [Decidable c] {e' : ε} {f : Unit → EStateM ε σ β}
    (hf : c → Avoids e (f ()) s) (hne : e' ≠ e) : Avoids e (ensure c e' >>= f) s :=
  (avoids_ensure hne).bind fun _ u hu => by
    obtain ⟨hc, rfl⟩ := ensure_ok_iff.mp hu
    exact hf hc

/-- A check that does not fail with the given error. -/
class Check (e : ε) (x : EStateM ε σ α) : Prop where
  reads : Reads x
  avoids : ∀ s, Avoids e x s

instance (x : EStateM ε σ α) (f : α → EStateM ε σ β) [hx : Check e x] [hf : ∀ a, Check e (f a)] :
    Check e (x >>= f) :=
  ⟨hx.reads.bind fun a => (hf a).reads, fun s => (hx.avoids s).bind fun a u _ => (hf a).avoids u⟩

/-- Checks that cannot fail with the error may come first. -/
theorem Avoids.check [hx : Check e x] (hf : ∀ a, Avoids e (f a) s) : Avoids e (x >>= f) s :=
  (hx.avoids s).bind fun a u hu => by
    rw [hx.reads.1 s a u hu]
    exact hf a

end Effects
