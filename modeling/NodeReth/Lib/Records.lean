import NodeReth.Lib.Bytes

/-!
# Sequences of self-delimiting records

A decoder that reads one record off the front of a byte string, and the loop that applies it
until the string is used up. When the decoder reads exactly the records of a grammar
(`Reads`), the loop accepts exactly the concatenations of records and returns their values in
order (`walk_eq_ok_iff`).
-/

namespace Records

open List

variable {ε α ρ : Type}

/-- `decode` reads the records `r` with `valid r`: one record in front of anything is read as
its value, and everything that is read is such a record. -/
structure Reads (decode : Bytes → Except ε (ℕ × α)) (valid : ρ → Prop) (enc : ρ → Bytes)
    (val : ρ → α) : Prop where
  nonempty : ∀ r, enc r ≠ []
  complete : ∀ r rest, valid r → decode (enc r ++ rest) = .ok ((enc r).length, val r)
  sound : ∀ b n v, decode b = .ok (n, v) →
    ∃ r rest, valid r ∧ b = enc r ++ rest ∧ n = (enc r).length ∧ v = val r

/-- The loop `while offset < data.len()`, with the values read so far in `acc`. -/
def walk (decode : Bytes → Except ε (ℕ × α)) : ℕ → Bytes → ℕ → List α → Except ε (ℕ × List α)
  | 0, _, offset, acc => .ok (offset, acc)
  | fuel + 1, data, offset, acc =>
    if offset < data.length then
      match decode (data.drop offset) with
      | .error e => .error e
      | .ok (n, v) => walk decode fuel data (offset + n) (acc ++ [v])
    else .ok (offset, acc)

section

variable {decode : Bytes → Except ε (ℕ × α)} {valid : ρ → Prop} {enc : ρ → Bytes} {val : ρ → α}

variable (h : Reads decode valid enc val)

include h

/-- A record sequence in front is walked over record by record. -/
theorem walk_complete (rs : List ρ) (hrs : ∀ r ∈ rs, valid r)
    (fuel : ℕ) (pre : Bytes) (acc : List α) (hfuel : (rs.flatMap enc).length ≤ fuel) :
    walk decode fuel (pre ++ rs.flatMap enc) pre.length acc =
      .ok ((pre ++ rs.flatMap enc).length, acc ++ rs.map val) := by
  induction rs generalizing fuel pre acc with
  | nil => cases fuel <;> simp [walk]
  | cons r rs ih =>
    have hpos : 0 < (enc r).length := length_pos_iff.mpr (h.nonempty r)
    have hlen : (enc r).length + (rs.flatMap enc).length ≤ fuel := by simpa using hfuel
    obtain ⟨fuel, rfl⟩ : ∃ f, fuel = f + 1 := ⟨fuel - 1, by omega⟩
    have hread := h.complete r (rs.flatMap enc) (hrs r mem_cons_self)
    have hrest := ih (fun r hr => hrs r (mem_cons_of_mem _ hr)) fuel (pre ++ enc r)
      (acc ++ [val r]) (by omega)
    rw [walk, if_pos (by simp; omega)]
    simp only [flatMap_cons, drop_left, hread]
    simpa using hrest

/-- With fuel for every byte, a walk that succeeds has walked over a record sequence. -/
theorem walk_sound (fuel : ℕ) (pre rest : Bytes) (acc : List α)
    {n : ℕ} {vs : List α} (hfuel : rest.length ≤ fuel)
    (hw : walk decode fuel (pre ++ rest) pre.length acc = .ok (n, vs)) :
    ∃ rs : List ρ, (∀ r ∈ rs, valid r) ∧ rest = rs.flatMap enc ∧ n = (pre ++ rest).length ∧
      vs = acc ++ rs.map val := by
  induction fuel generalizing pre rest acc with
  | zero =>
    obtain rfl : rest = [] := length_eq_zero_iff.mp (by omega)
    simp only [walk, Except.ok.injEq, Prod.mk.injEq] at hw
    exact ⟨[], by simp, rfl, by simp [← hw.1], by simp [hw.2]⟩
  | succ fuel ih =>
    rw [walk] at hw
    split_ifs at hw with hlt
    · simp only [drop_left] at hw
      cases hd : decode rest with
      | error e => simp [hd] at hw
      | ok p =>
        obtain ⟨m, v⟩ := p
        obtain ⟨r, rest', hr, rfl, rfl, rfl⟩ := h.sound _ _ _ hd
        have hpos : 0 < (enc r).length := length_pos_iff.mpr (h.nonempty r)
        simp only [hd] at hw
        obtain ⟨rs, hrs, rfl, hn, hvs⟩ := ih (pre ++ enc r) rest' (acc ++ [val r])
          (by simp at hfuel; omega) (by simpa using hw)
        refine ⟨r :: rs, ?_, by simp, by simpa using hn, by simp [hvs]⟩
        intro x hx
        rcases mem_cons.mp hx with rfl | hx
        · exact hr
        · exact hrs x hx
    · obtain rfl : rest = [] := length_eq_zero_iff.mp (by rw [length_append] at hlt; omega)
      simp only [Except.ok.injEq, Prod.mk.injEq] at hw
      exact ⟨[], by simp, rfl, by simp [← hw.1], by simp [hw.2]⟩

/-- The loop from the start accepts exactly the record sequences. -/
theorem walk_eq_ok_iff (data : Bytes) (n : ℕ) (vs : List α) :
    walk decode data.length data 0 [] = .ok (n, vs) ↔
      n = data.length ∧
        ∃ rs : List ρ, (∀ r ∈ rs, valid r) ∧ data = rs.flatMap enc ∧ vs = rs.map val := by
  constructor
  · intro hw
    obtain ⟨rs, hrs, hdata, hn, hvs⟩ := walk_sound h data.length [] data [] le_rfl hw
    exact ⟨by simpa using hn, rs, hrs, hdata, by simpa using hvs⟩
  · rintro ⟨rfl, rs, hrs, rfl, rfl⟩
    simpa using walk_complete h rs hrs _ [] [] le_rfl

end

end Records
