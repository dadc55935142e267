import NodeReth.Lib.Bytes

/-!
# Packed fields

Numbers packed into a byte string, big-endian and each in a fixed number of bytes. A layout lists
the widths and the values in order; a value that fits its width is read back at its offset.
-/

namespace Bytes

variable (layout : List (ℕ × ℕ))

/-- The fields of a layout one after the other. -/
def pack : Bytes := layout.flatMap fun f => toBe f.1 f.2

def offset (k : ℕ) : ℕ := ((layout.take k).map Prod.fst).sum

/-- The number that the `n` bytes from `i` on stand for. -/
def fieldAt (b : Bytes) (i n : ℕ) : ℕ := ofBe ((b.drop i).take n)

theorem pack_length : (pack layout).length = (layout.map Prod.fst).sum := by
  simp [pack]

theorem fieldAt_lt (b : Bytes) (i n : ℕ) : fieldAt b i n < 256 ^ n := by
  have hlen : ((b.drop i).take n).length ≤ n := List.length_take_le ..
  exact (ofBe_lt _).trans_le (Nat.pow_le_pow_right (by norm_num) hlen)

theorem fieldAt_append_left {a b : Bytes} {n : ℕ} (h : a.length = n) :
    fieldAt (a ++ b) 0 n = ofBe a := by
  subst h
  simp [fieldAt]

theorem fieldAt_append_right (a b : Bytes) {m : ℕ} (h : a.length = m) (i n : ℕ) :
    fieldAt (a ++ b) (m + i) n = fieldAt b i n := by
  subst h
  simp [fieldAt]

theorem fieldAt_pack (k : ℕ) (hk : k < layout.length) (rest : Bytes)
    (hv : layout[k].2 < 256 ^ layout[k].1) :
    fieldAt (pack layout ++ rest) (offset layout k) layout[k].1 = layout[k].2 := by
  induction layout generalizing k with
  | nil => exact absurd hk (Nat.not_lt_zero k)
  | cons f layout ih =>
    have hpack : pack (f :: layout) ++ rest = toBe f.1 f.2 ++ (pack layout ++ rest) := by
      simp [pack]
    rw [hpack]
    cases k with
    | zero => exact (fieldAt_append_left (toBe_length f.1 f.2)).trans (ofBe_toBe hv)
    | succ k =>
      have hoffset : offset (f :: layout) (k + 1) = f.1 + offset layout k := by
        simp [offset]
      rw [hoffset, fieldAt_append_right _ _ (toBe_length f.1 f.2)]
      exact ih k (Nat.lt_of_succ_lt_succ hk) hv

end Bytes
