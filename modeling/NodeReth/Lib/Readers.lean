import NodeReth.Lib.Bytes
import NodeReth.Lib.Fallible

/-!
# Readers of byte strings

A reader takes a value off the front of its input, or fails. It is exact for a writer when it reads
back what was written, in front of anything, and accepts nothing else; an exact reader gives every
value one encoding.
-/

namespace Readers

open Fallible List

abbrev Reader (ε α : Type) := StateT Bytes (Except ε) α

variable {ε α β : Type} {b rest : Bytes}

/-! ## What a reader that succeeded went through -/

theorem bind_ok_iff {x : Reader ε α} {f : α → Reader ε β} {c : β} :
    (x >>= f) b = .ok (c, rest) ↔ ∃ a mid, x b = .ok (a, mid) ∧ f a mid = .ok (c, rest) := by
  show (Except.bind (x b) fun p => f p.1 p.2) = _ ↔ _
  cases h : x b with
  | ok p =>
    obtain ⟨a, mid⟩ := p
    simp [Except.bind]
  | error e => simp [Except.bind]

theorem pure_ok_iff {a c : α} : (pure a : Reader ε α) b = .ok (c, rest) ↔ a = c ∧ b = rest := by
  show Except.ok (a, b) = .ok (c, rest) ↔ _
  rw [Except.ok.injEq, Prod.mk.injEq]

theorem get_ok_iff {s : Bytes} : (get : Reader ε Bytes) b = .ok (s, rest) ↔ b = s ∧ b = rest :=
  pure_ok_iff

theorem lift_ok_iff {x : Except ε α} {a : α} :
    (liftM x : Reader ε α) b = .ok (a, rest) ↔ x = .ok a ∧ b = rest := by
  cases x with
  | ok c =>
    show Except.ok (c, b) = .ok (a, rest) ↔ _
    rw [Except.ok.injEq, Except.ok.injEq, Prod.mk.injEq]
  | error e =>
    show Except.error e = .ok (a, rest) ↔ _
    simp

def rejectIf (c : Prop) [Decidable c] (e : ε) : Reader ε Unit := liftM (failIf c e)

def expect (o : Option α) (e : ε) : Reader ε α := liftM (orFail o e)

theorem rejectIf_ok_iff {c : Prop} [Decidable c] {e : ε} {u : Unit} :
    rejectIf c e b = .ok (u, rest) ↔ ¬c ∧ b = rest := by
  rw [rejectIf, lift_ok_iff, failIf_ok_iff]

theorem expect_ok_iff {o : Option α} {e : ε} {a : α} :
    expect o e b = .ok (a, rest) ↔ o = some a ∧ b = rest := by
  rw [expect, lift_ok_iff, orFail_ok_iff]

theorem map_ok_iff {x : Reader ε α} {f : α → β} {c : β} :
    (f <$> x) b = .ok (c, rest) ↔ ∃ a, x b = .ok (a, rest) ∧ f a = c := by
  rw [map_eq_pure_bind, bind_ok_iff]
  constructor
  · rintro ⟨a, mid, ha, hc⟩
    obtain ⟨rfl, rfl⟩ := pure_ok_iff.mp hc
    exact ⟨a, ha, rfl⟩
  · rintro ⟨a, ha, rfl⟩
    exact ⟨a, rest, ha, rfl⟩

/-! ## Exact readers -/

/-- The reader accepts what the writer writes, of the values that are `ok`, and leaves what follows;
and it accepts nothing else. What is written has to have a length that fits in a word. -/
structure Exact (write : α → Bytes) (ok : α → Prop) (read : Reader ε α) : Prop where
  read_write : ∀ a rest, ok a → (write a).length < 2 ^ 64 → read (write a ++ rest) = .ok (a, rest)
  of_read : ∀ b a rest, read b = .ok (a, rest) → b = write a ++ rest ∧ ok a

namespace Exact

variable {write : α → Bytes} {ok : α → Prop} {read : Reader ε α}

/-- What is read is determined by the bytes, and so is what follows it. -/
theorem cancel {a b : α} {r r' : Bytes} (h : Exact write (fun _ => True) read)
    (hlen : (write a ++ r).length < 2 ^ 64) (heq : write a ++ r = write b ++ r') :
    a = b ∧ r.length < 2 ^ 64 ∧ r = r' := by
  have hlen' := hlen
  rw [heq] at hlen'
  rw [length_append] at hlen hlen'
  have hread := h.read_write a r trivial (by omega)
  rw [heq, h.read_write b r' trivial (by omega)] at hread
  cases hread
  exact ⟨rfl, by omega, rfl⟩

theorem map (h : Exact write ok read) (f : α → β) (g : β → α) (hok : ∀ c, ok (g c))
    (hfg : ∀ c, f (g c) = c) (hgf : ∀ a, ok a → g (f a) = a) :
    Exact (fun c => write (g c)) (fun _ => True) (f <$> read) where
  read_write c rest _ hlen := map_ok_iff.mpr ⟨g c, h.read_write (g c) rest (hok c) hlen, hfg c⟩
  of_read b c rest hread := by
    obtain ⟨a, ha, rfl⟩ := map_ok_iff.mp hread
    obtain ⟨hb, hoka⟩ := h.of_read b a rest ha
    exact ⟨by rw [hgf a hoka, hb], trivial⟩

theorem congr {write' : α → Bytes} {ok' : α → Prop} (h : Exact write ok read)
    (hwrite : ∀ a, write a = write' a) (hok : ∀ a, ok a ↔ ok' a) : Exact write' ok' read where
  read_write a rest ha hlen := by
    rw [← hwrite] at hlen ⊢
    exact h.read_write a rest ((hok a).mpr ha) hlen
  of_read b a rest hread := by
    obtain ⟨hb, ha⟩ := h.of_read b a rest hread
    exact ⟨hwrite a ▸ hb, (hok a).mp ha⟩

/-- A field and what comes behind it. The rest of the reader may depend on the field; it is exact for
the values that have this field. -/
theorem bind {γ : Type} {writeRest : γ → Bytes} {okAll : γ → Prop} {next : α → Reader ε γ}
    (field : γ → α) (h : Exact write ok read) (hfield : ∀ c, okAll c → ok (field c))
    (hnext : ∀ a, ok a → Exact writeRest (fun c => okAll c ∧ field c = a) (next a)) :
    Exact (fun c => write (field c) ++ writeRest c) okAll (read >>= next) where
  read_write c rest hc hlen := by
    rw [length_append] at hlen
    have hfirst := h.read_write (field c) (writeRest c ++ rest) (hfield c hc) (by omega)
    have hrest := (hnext (field c) (hfield c hc)).read_write c rest ⟨hc, rfl⟩ (by omega)
    rw [append_assoc]
    exact bind_ok_iff.mpr ⟨_, _, hfirst, hrest⟩
  of_read b c rest hread := by
    obtain ⟨a, mid, hfirst, hrest⟩ := bind_ok_iff.mp hread
    obtain ⟨rfl, ha⟩ := h.of_read b a mid hfirst
    obtain ⟨rfl, hc, rfl⟩ := (hnext a ha).of_read mid c rest hrest
    exact ⟨(append_assoc ..).symm, hc⟩

theorem pure {a : α} (h : ∀ c, ok c ↔ c = a) :
    Exact (fun _ : α => []) ok (Pure.pure a : Reader ε α) where
  read_write c rest hc _ := pure_ok_iff.mpr ⟨((h c).mp hc).symm, rfl⟩
  of_read b c rest hread := by
    obtain ⟨rfl, rfl⟩ := pure_ok_iff.mp hread
    exact ⟨rfl, (h a).mpr rfl⟩

theorem last {γ : Type} {okAll : γ → Prop} {make : α → γ} (field : γ → α) (h : Exact write ok read)
    (hfield : ∀ c, okAll c → ok (field c)) (hmake : ∀ a c, ok a → (okAll c ∧ field c = a ↔ c = make a)) :
    Exact (fun c => write (field c)) okAll (read >>= fun a => Pure.pure (make a)) :=
  (h.bind field hfield fun a ha => .pure fun c => hmake a c ha).congr
    (fun _ => append_nil _) fun _ => Iff.rfl

section Fields

variable {γ : Type} {okAll : γ → Prop} (get : γ → α) (h : Exact write (fun _ => True) read)

include h

/-- A field of which every value is read. -/
theorem field {writeRest : γ → Bytes} {next : α → Reader ε γ}
    (hnext : ∀ a, Exact writeRest (fun c => okAll c ∧ get c = a) (next a)) :
    Exact (fun c => write (get c) ++ writeRest c) okAll (read >>= next) :=
  h.bind get (fun _ _ => trivial) fun a _ => hnext a

theorem lastField {make : α → γ} (hmake : ∀ a c, okAll c ∧ get c = a ↔ c = make a) :
    Exact (fun c => write (get c)) okAll (read >>= fun a => Pure.pure (make a)) :=
  h.last get (fun _ _ => trivial) fun a c _ => hmake a c

end Fields

/-- A value that was computed from earlier fields takes no bytes. -/
theorem expect (o : Option α) (e : ε) :
    Exact (fun _ => []) (fun a => o = some a) (Readers.expect o e) where
  read_write a rest ha _ := expect_ok_iff.mpr ⟨ha, rfl⟩
  of_read b a rest hread := by
    obtain ⟨ha, rfl⟩ := expect_ok_iff.mp hread
    exact ⟨rfl, ha⟩

end Exact

end Readers
