import NodeReth.Lib.Readers

/-!
# Outcomes

What a fallible computation may end with: a value that has a property, or an error that is not
barred. The rules follow the code of the computation, so that one walk through it shows which errors
cannot occur and what the result is good for.
-/

namespace Fallible

variable {ε α β : Type} {bar : ε → Prop} {post : α → Prop} {x : Except ε α} {e : ε}

/-- Ends with a value of the given property, or with an error that is not barred. -/
def Meets (bar : ε → Prop) (post : α → Prop) : Except ε α → Prop
  | .ok a => post a
  | .error e => ¬bar e

theorem Meets.of_ok {a : α} (h : Meets bar post x) (hx : x = .ok a) : post a := by
  subst hx
  exact h

theorem Meets.not_barred (h : Meets bar post x) (hx : x = .error e) : ¬bar e := by
  subst hx
  exact h

theorem Meets.mono {post' : α → Prop} (h : Meets bar post x) (himp : ∀ a, post a → post' a) :
    Meets bar post' x := by
  cases x with
  | ok a => exact himp a h
  | error e => exact h

theorem Meets.bind {post' : β → Prop} {f : α → Except ε β} (hx : Meets bar post x)
    (hf : ∀ a, post a → Meets bar post' (f a)) : Meets bar post' (x >>= f) := by
  cases x with
  | ok a => exact hf a hx
  | error e => exact hx

theorem meets_failIf {c : Prop} [Decidable c] (he : ¬bar e) : Meets bar (fun _ => ¬c) (failIf c e) := by
  by_cases hc : c
  · rwa [failIf_pos hc]
  · rwa [failIf_neg hc]

theorem meets_orFail {o : Option α} (he : ¬bar e) : Meets bar (fun a => o = some a) (orFail o e) := by
  cases o with
  | none => exact he
  | some a => exact rfl

end Fallible

namespace Readers

open Fallible

variable {ε α β ι : Type} {bar : ε → Prop} {post : α → Prop} {e : ε}

/-- A reader that ends well on every input. -/
def Meets (bar : ε → Prop) (post : α → Prop) (x : Reader ε α) : Prop :=
  ∀ b, Fallible.Meets bar (fun p => post p.1) (x b)

theorem Meets.mono {post' : α → Prop} {x : Reader ε α} (h : Meets bar post x)
    (himp : ∀ a, post a → post' a) : Meets bar post' x :=
  fun b => (h b).mono fun p => himp p.1

theorem Meets.bind {post' : β → Prop} {x : Reader ε α} {f : α → Reader ε β} (hx : Meets bar post x)
    (hf : ∀ a, post a → Meets bar post' (f a)) : Meets bar post' (x >>= f) :=
  fun b => (hx b).bind fun p hp => hf p.1 hp p.2

theorem meets_pure {a : α} (h : post a) : Meets bar post (pure a : Reader ε α) := fun _ => h

theorem meets_get : Meets bar (fun _ => True) (get : Reader ε Bytes) := fun _ => trivial

theorem meets_lift {x : Except ε α} (h : Fallible.Meets bar post x) :
    Meets bar post (liftM x : Reader ε α) := by
  intro b
  cases x <;> exact h

theorem meets_rejectIf {c : Prop} [Decidable c] (he : ¬bar e) :
    Meets bar (fun _ => ¬c) (rejectIf c e) := meets_lift (meets_failIf he)

theorem meets_expect_some {o : Option α} {a : α} (h : o = some a) :
    Meets bar (fun c => c = a) (expect o e) := by
  subst h
  exact meets_lift rfl

/-! ## Repetition -/

def readEach (read : ι → Reader ε α) : List ι → Reader ε (List α)
  | [] => pure []
  | i :: l => do
    let a ← read i
    let rest ← readEach read l
    return a :: rest

theorem meets_readEach {read : ι → Reader ε α} {l : List ι}
    (h : ∀ i ∈ l, Meets bar (fun _ => True) (read i)) :
    Meets bar (fun r : List α => r.length = l.length) (readEach read l) := by
  induction l with
  | nil => exact meets_pure rfl
  | cons i l ih =>
    refine (h i List.mem_cons_self).bind fun a _ => ?_
    refine (ih fun j hj => h j (List.mem_cons_of_mem i hj)).bind fun rest hrest => ?_
    exact meets_pure (by rw [List.length_cons, hrest, List.length_cons])

end Readers
