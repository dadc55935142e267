import NodeReth.Blob.Codec

/-!
# One round of the blob codec

A `Chunk` is the payload of a round, cut where the field elements and the three spread bytes
begin; a `Quad` is its four field elements. `pack` and `unpack` are inverse to each other on the
quads whose high bytes have their two top bits clear. Round 0 carries 27 payload bytes in its
first field element instead of 31, so the length of that part is a parameter of `Chunk`.
-/

namespace NodeReth

open Bytes List

/-! ## The spread bytes -/

section SpreadBytes

open BlobEncoder BlobCursor

def TopClear (h : UInt8) : Prop := h &&& 0b11000000 = 0

instance : DecidablePred TopClear := fun h => inferInstanceAs (Decidable (h &&& _ = 0))

theorem joinSix_low_mid (x y : UInt8) : joinSix (highLow x) (highMid x y) = x := by
  apply byte_ext
  intro i hi
  interval_cases i <;> simp [joinSix, highLow, highMid]

theorem joinFour_mid_top (x y z : UInt8) : joinFour (highMid x y) (highTop y z) = y := by
  apply byte_ext
  intro i hi
  interval_cases i <;> simp [joinFour, highMid, highTop]

theorem joinSix_low_top (y z : UInt8) : joinSix (highLow z) (highTop y z) = z := by
  apply byte_ext
  intro i hi
  interval_cases i <;> simp [joinSix, highLow, highTop]

theorem topClear_highLow (x : UInt8) : TopClear (highLow x) := by
  apply byte_ext
  intro i hi
  interval_cases i <;> simp [highLow]

theorem topClear_highMid (x y : UInt8) : TopClear (highMid x y) := by
  apply byte_ext
  intro i hi
  interval_cases i <;> simp [highMid]

theorem topClear_highTop (y z : UInt8) : TopClear (highTop y z) := by
  apply byte_ext
  intro i hi
  interval_cases i <;> simp [highTop]

theorem TopClear.bits {h : UInt8} (hh : TopClear h) :
    h.toBitVec.getLsbD 6 = false ∧ h.toBitVec.getLsbD 7 = false := by
  have hb : h.toBitVec &&& 0b11000000#8 = 0#8 := congrArg UInt8.toBitVec hh
  have h6 := congrArg (fun b : BitVec 8 => b.getLsbD 6) hb
  have h7 := congrArg (fun b : BitVec 8 => b.getLsbD 7) hb
  exact ⟨by simpa using h6, by simpa using h7⟩

theorem highLow_joinSix (e0 e1 : UInt8) : highLow (joinSix e0 e1) = highLow e0 := by
  apply byte_ext
  intro i hi
  interval_cases i <;> simp [joinSix, highLow]

theorem highLow_of_topClear {h : UInt8} (hh : TopClear h) : highLow h = h := by
  obtain ⟨h6, h7⟩ := hh.bits
  apply byte_ext
  intro i hi
  interval_cases i <;> simp_all [highLow]

theorem highMid_join {e1 : UInt8} (h1 : TopClear e1) (e0 e3 : UInt8) :
    highMid (joinSix e0 e1) (joinFour e1 e3) = e1 := by
  obtain ⟨h6, h7⟩ := h1.bits
  apply byte_ext
  intro i hi
  interval_cases i <;> simp_all [joinSix, joinFour, highMid]

theorem highTop_join {e3 : UInt8} (h3 : TopClear e3) (e1 e2 : UInt8) :
    highTop (joinFour e1 e3) (joinSix e2 e3) = e3 := by
  obtain ⟨h6, h7⟩ := h3.bits
  apply byte_ext
  intro i hi
  interval_cases i <;> simp_all [joinSix, joinFour, highTop]

end SpreadBytes

/-! ## Chunks -/

section Parts

variable {α : Type} {f : α → Bytes} {w : ℕ}

theorem exists_part (n m : ℕ) (b : Bytes) (h : b.length = n + (m + 1)) :
    ∃ (s : FixedBytes n) (x : UInt8) (r : Bytes), b = s.val ++ x :: r ∧ r.length = m := by
  obtain ⟨x, r, hx⟩ : ∃ x r, b.drop n = x :: r := exists_cons_of_length_pos (by simp; omega)
  refine ⟨⟨b.take n, by simp; omega⟩, x, r, by rw [← hx, take_append_drop], ?_⟩
  have := congrArg length hx
  simp at this
  omega

theorem exists_flatMap (hf : ∀ b : Bytes, b.length = w → ∃ a, f a = b) (m : ℕ) (b : Bytes)
    (h : b.length = w * m) : ∃ as : List α, as.length = m ∧ as.flatMap f = b := by
  induction m generalizing b with
  | zero =>
    obtain rfl : b = [] := length_eq_zero_iff.mp (by simpa using h)
    exact ⟨[], rfl, rfl⟩
  | succ m ih =>
    rw [Nat.mul_succ] at h
    obtain ⟨a, ha⟩ := hf (b.take w) (by simp; omega)
    obtain ⟨as, hlen, has⟩ := ih (b.drop w) (by simp; omega)
    refine ⟨a :: as, by simp [hlen], ?_⟩
    rw [flatMap_cons, ha, has, take_append_drop]

theorem zeros_succ (w n : ℕ) :
    (replicate (w * (n + 1)) 0 : Bytes) = replicate w 0 ++ replicate (w * n) 0 := by
  rw [← replicate_add, Nat.mul_succ, Nat.add_comm]

theorem flatMap_zeros {as : List α} (h : ∀ a ∈ as, f a = replicate w 0) :
    as.flatMap f = replicate (w * as.length) 0 := by
  induction as with
  | nil => rfl
  | cons a as ih =>
    obtain ⟨ha, has⟩ := forall_mem_cons.mp h
    rw [flatMap_cons, ih has, ha, length_cons, zeros_succ]

end Parts

/-- The payload bytes of a round; `n` of them stand in the first field element. -/
structure Chunk (n : ℕ) where
  a : FixedBytes n
  x : UInt8
  b : FixedBytes 31
  y : UInt8
  c : FixedBytes 31
  z : UInt8
  d : FixedBytes 31

namespace Chunk

variable {n : ℕ}

def bytes (k : Chunk n) : Bytes :=
  k.a.val ++ (k.x :: (k.b.val ++ (k.y :: (k.c.val ++ (k.z :: k.d.val)))))

@[simp] theorem bytes_length (k : Chunk n) : k.bytes.length = n + 96 := by
  have ha := k.a.2
  have hb := k.b.2
  have hc := k.c.2
  have hd := k.d.2
  simp [bytes, ha, hb, hc, hd]

theorem bytes_inj {k k' : Chunk n} (h : k.bytes = k'.bytes) : k = k' := by
  have hlen : ∀ {m : ℕ} (s s' : FixedBytes m), s.val.length = s'.val.length :=
    fun s s' => s.2.trans s'.2.symm
  obtain ⟨ha, h⟩ := append_inj h (hlen _ _)
  obtain ⟨hx, h⟩ := cons.inj h
  obtain ⟨hb, h⟩ := append_inj h (hlen _ _)
  obtain ⟨hy, h⟩ := cons.inj h
  obtain ⟨hc, h⟩ := append_inj h (hlen _ _)
  obtain ⟨hz, hd⟩ := cons.inj h
  cases k
  cases k'
  simp only [mk.injEq]
  exact ⟨Subtype.ext ha, hx, Subtype.ext hb, hy, Subtype.ext hc, hz, Subtype.ext hd⟩

theorem exists_bytes (b : Bytes) (h : b.length = n + 96) : ∃ k : Chunk n, k.bytes = b := by
  obtain ⟨a, x, r, rfl, hr⟩ := exists_part n 95 b h
  obtain ⟨b, y, r, rfl, hr'⟩ := exists_part 31 63 r hr
  obtain ⟨c, z, r, rfl, hd⟩ := exists_part 31 31 r hr'
  exact ⟨⟨a, x, b, y, c, z, ⟨r, hd⟩⟩, rfl⟩

theorem exists_flatMap_bytes (m : ℕ) (b : Bytes) (h : b.length = (n + 96) * m) :
    ∃ ks : List (Chunk n), ks.length = m ∧ ks.flatMap bytes = b :=
  exists_flatMap exists_bytes m b h

section Access

variable (k : Chunk n) (r : Bytes)

theorem split_a : k.bytes ++ r =
    [] ++ (k.a.val ++ (k.x :: (k.b.val ++ (k.y :: (k.c.val ++ (k.z :: (k.d.val ++ r))))))) := by
  simp [bytes]

theorem split_x : k.bytes ++ r =
    k.a.val ++ k.x :: (k.b.val ++ (k.y :: (k.c.val ++ (k.z :: (k.d.val ++ r))))) := by
  simp [bytes]

theorem split_b : k.bytes ++ r =
    (k.a.val ++ [k.x]) ++ (k.b.val ++ (k.y :: (k.c.val ++ (k.z :: (k.d.val ++ r))))) := by
  simp [bytes]

theorem split_y : k.bytes ++ r =
    (k.a.val ++ [k.x] ++ k.b.val) ++ k.y :: (k.c.val ++ (k.z :: (k.d.val ++ r))) := by
  simp [bytes]

theorem split_c : k.bytes ++ r =
    (k.a.val ++ [k.x] ++ k.b.val ++ [k.y]) ++ (k.c.val ++ (k.z :: (k.d.val ++ r))) := by
  simp [bytes]

theorem split_z : k.bytes ++ r =
    (k.a.val ++ [k.x] ++ k.b.val ++ [k.y] ++ k.c.val) ++ k.z :: (k.d.val ++ r) := by
  simp [bytes]

theorem split_d : k.bytes ++ r =
    (k.a.val ++ [k.x] ++ k.b.val ++ [k.y] ++ k.c.val ++ [k.z]) ++ (k.d.val ++ r) := by
  simp [bytes]

theorem slice_a : slice (k.bytes ++ r) 0 n = k.a.val := by
  rw [split_a]
  exact slice_mid rfl (by simp [k.a.2])

theorem slice_b : slice (k.bytes ++ r) (n + 1) (n + 32) = k.b.val := by
  rw [split_b]
  exact slice_mid (by simp [k.a.2]) (by simp [k.b.2])

theorem slice_c : slice (k.bytes ++ r) (n + 33) (n + 64) = k.c.val := by
  rw [split_c]
  exact slice_mid (by simp [k.a.2, k.b.2]) (by simp [k.c.2])

theorem slice_d : slice (k.bytes ++ r) (n + 65) (n + 96) = k.d.val := by
  rw [split_d]
  exact slice_mid (by simp [k.a.2, k.b.2, k.c.2]) (by simp [k.d.2])

theorem byteAt_x : byteAt (k.bytes ++ r) n = k.x := by
  rw [split_x]
  exact getD_mid k.a.2

theorem byteAt_y : byteAt (k.bytes ++ r) (n + 32) = k.y := by
  rw [split_y]
  exact getD_mid (by simp [k.a.2, k.b.2])

theorem byteAt_z : byteAt (k.bytes ++ r) (n + 64) = k.z := by
  rw [split_z]
  exact getD_mid (by simp [k.a.2, k.b.2, k.c.2])

theorem blit_a (s : FixedBytes n) : blit (k.bytes ++ r) 0 s.val = bytes { k with a := s } ++ r := by
  rw [split_a, split_a]
  exact blit_mid rfl (k.a.2.trans s.2.symm)

theorem blit_b (s : FixedBytes 31) :
    blit (k.bytes ++ r) (n + 1) s.val = bytes { k with b := s } ++ r := by
  rw [split_b, split_b]
  exact blit_mid (by simp [k.a.2]) (k.b.2.trans s.2.symm)

theorem blit_c (s : FixedBytes 31) :
    blit (k.bytes ++ r) (n + 33) s.val = bytes { k with c := s } ++ r := by
  rw [split_c, split_c]
  exact blit_mid (by simp [k.a.2, k.b.2]) (k.c.2.trans s.2.symm)

theorem blit_d (s : FixedBytes 31) :
    blit (k.bytes ++ r) (n + 65) s.val = bytes { k with d := s } ++ r := by
  rw [split_d, split_d]
  exact blit_mid (by simp [k.a.2, k.b.2, k.c.2]) (k.d.2.trans s.2.symm)

theorem set_x (v : UInt8) : (k.bytes ++ r).set n v = bytes { k with x := v } ++ r := by
  rw [split_x, split_x]
  exact set_mid k.a.2

theorem set_y (v : UInt8) : (k.bytes ++ r).set (n + 32) v = bytes { k with y := v } ++ r := by
  rw [split_y, split_y]
  exact set_mid (by simp [k.a.2, k.b.2])

theorem set_z (v : UInt8) : (k.bytes ++ r).set (n + 64) v = bytes { k with z := v } ++ r := by
  rw [split_z, split_z]
  exact set_mid (by simp [k.a.2, k.b.2, k.c.2])

end Access

def zero (n : ℕ) : Chunk n :=
  ⟨FixedBytes.zero n, 0, FixedBytes.zero 31, 0, FixedBytes.zero 31, 0, FixedBytes.zero 31⟩

theorem zero_bytes (n : ℕ) : (zero n).bytes = replicate (n + 96) 0 := by
  rw [replicate_add]
  rfl

theorem eq_zero_of_mem {k : Chunk n} (h : ∀ v ∈ k.bytes, v = 0) : k = zero n := by
  apply bytes_inj
  rw [zero_bytes, ← k.bytes_length]
  exact eq_replicate_of_mem h

end Chunk

/-! ## Quads -/

/-- Four field elements: behind the first high byte they have the shape of a chunk, with the
other three high bytes in the places of `x`, `y` and `z`. -/
structure Quad where
  high : UInt8
  rest : Chunk 31

namespace Quad

def bytes (q : Quad) : Bytes := q.high :: q.rest.bytes

@[simp] theorem bytes_length (q : Quad) : q.bytes.length = 128 := by
  simp [bytes]

theorem bytes_inj {q q' : Quad} (h : q.bytes = q'.bytes) : q = q' := by
  obtain ⟨hhigh, hrest⟩ := cons.inj h
  cases q
  cases q'
  simp only [mk.injEq]
  exact ⟨hhigh, Chunk.bytes_inj hrest⟩

theorem exists_bytes (b : Bytes) (h : b.length = 128) : ∃ q : Quad, q.bytes = b := by
  obtain ⟨v, t, rfl⟩ : ∃ v t, b = v :: t := exists_cons_of_length_pos (by omega)
  obtain ⟨k, rfl⟩ := Chunk.exists_bytes (n := 31) t (Nat.succ.inj h)
  exact ⟨⟨v, k⟩, rfl⟩

theorem exists_flatMap_bytes (m : ℕ) (b : Bytes) (h : b.length = 128 * m) :
    ∃ qs : List Quad, qs.length = m ∧ qs.flatMap bytes = b :=
  exists_flatMap exists_bytes m b h

def ClearRest (q : Quad) : Prop := TopClear q.rest.x ∧ TopClear q.rest.y ∧ TopClear q.rest.z

def Clear (q : Quad) : Prop := TopClear q.high ∧ q.ClearRest

def zero : Quad := ⟨0, Chunk.zero 31⟩

theorem zero_bytes : zero.bytes = replicate 128 0 := by
  rfl

theorem zero_clear : zero.Clear := by
  refine ⟨?_, ?_, ?_, ?_⟩ <;> decide

theorem eq_zero_of_mem {q : Quad} (h : ∀ v ∈ q.bytes, v = 0) : q = zero := by
  apply bytes_inj
  rw [zero_bytes, ← q.bytes_length]
  exact eq_replicate_of_mem h

def unpack (q : Quad) : Chunk 31 :=
  ⟨q.rest.a, BlobCursor.joinSix q.high q.rest.x, q.rest.b, BlobCursor.joinFour q.rest.x q.rest.z,
    q.rest.c, BlobCursor.joinSix q.rest.y q.rest.z, q.rest.d⟩

theorem unpack_zero : zero.unpack = Chunk.zero 31 := by
  rfl

end Quad

def Chunk.pack (k : Chunk 31) : Quad :=
  ⟨BlobEncoder.highLow k.x, k.a, BlobEncoder.highMid k.x k.y, k.b, BlobEncoder.highLow k.z, k.c,
    BlobEncoder.highTop k.y k.z, k.d⟩

namespace Quad

theorem unpack_pack (k : Chunk 31) : k.pack.unpack = k := by
  simp [unpack, Chunk.pack, joinSix_low_mid, joinFour_mid_top, joinSix_low_top]

theorem pack_clear (k : Chunk 31) : k.pack.Clear :=
  ⟨topClear_highLow _, topClear_highMid _ _, topClear_highLow _, topClear_highTop _ _⟩

/-- Packing again only clears the two top bits of the first high byte. -/
theorem pack_unpack_of_clearRest {q : Quad} (h : q.ClearRest) :
    q.unpack.pack = ⟨BlobEncoder.highLow q.high, q.rest⟩ := by
  obtain ⟨hx, hy, hz⟩ := h
  simp [unpack, Chunk.pack, highLow_joinSix, highMid_join hx, highLow_of_topClear hy, highTop_join hz]

theorem pack_unpack {q : Quad} (h : q.Clear) : q.unpack.pack = q := by
  rw [pack_unpack_of_clearRest h.2, highLow_of_topClear h.1]

theorem pack_zero : (Chunk.zero 31).pack = zero := by
  rw [← unpack_zero, pack_unpack zero_clear]

section Access

variable (pre : Bytes) (q : Quad) (r : Bytes) {pos : ℕ} (hpos : pre.length = pos)

include hpos

theorem blit_rest {i : ℕ} {s : Bytes} {k : Chunk 31}
    (h : blit (q.rest.bytes ++ r) i s = k.bytes ++ r) :
    blit (pre ++ (q.bytes ++ r)) (pos + (1 + i)) s = pre ++ (bytes ⟨q.high, k⟩ ++ r) := by
  rw [blit_append_left _ _ _ _ hpos]
  exact congrArg (pre ++ ·) ((blit_append_left [q.high] _ i s rfl).trans (congrArg _ h))

theorem set_rest {i : ℕ} {v : UInt8} {k : Chunk 31} (h : (q.rest.bytes ++ r).set i v = k.bytes ++ r) :
    (pre ++ (q.bytes ++ r)).set (pos + (1 + i)) v = pre ++ (bytes ⟨q.high, k⟩ ++ r) := by
  subst hpos
  rw [set_append_right _ _ (by omega), Nat.add_sub_cancel_left, Nat.add_comm 1 i]
  exact congrArg (pre ++ q.high :: ·) h

theorem set_high (v : UInt8) : (pre ++ (q.bytes ++ r)).set pos v =
    pre ++ (bytes { q with high := v } ++ r) := by
  subst hpos
  simp [bytes]

theorem blit_a (s : FixedBytes 31) : blit (pre ++ (q.bytes ++ r)) (pos + 1) s.val =
    pre ++ (bytes ⟨q.high, { q.rest with a := s }⟩ ++ r) :=
  blit_rest pre q r hpos (Chunk.blit_a _ r s)

theorem blit_b (s : FixedBytes 31) : blit (pre ++ (q.bytes ++ r)) (pos + 33) s.val =
    pre ++ (bytes ⟨q.high, { q.rest with b := s }⟩ ++ r) :=
  blit_rest pre q r hpos (Chunk.blit_b _ r s)

theorem blit_c (s : FixedBytes 31) : blit (pre ++ (q.bytes ++ r)) (pos + 65) s.val =
    pre ++ (bytes ⟨q.high, { q.rest with c := s }⟩ ++ r) :=
  blit_rest pre q r hpos (Chunk.blit_c _ r s)

theorem blit_d (s : FixedBytes 31) : blit (pre ++ (q.bytes ++ r)) (pos + 97) s.val =
    pre ++ (bytes ⟨q.high, { q.rest with d := s }⟩ ++ r) :=
  blit_rest pre q r hpos (Chunk.blit_d _ r s)

theorem writeHighBytes_eq (x y z : UInt8) :
    BlobEncoder.writeHighBytes (pre ++ (q.bytes ++ r)) pos x y z =
      pre ++ (bytes (Chunk.pack ⟨q.rest.a, x, q.rest.b, y, q.rest.c, z, q.rest.d⟩) ++ r) := by
  have hx : ∀ (q : Quad) (v : UInt8), (pre ++ (q.bytes ++ r)).set (pos + 32) v =
      pre ++ (bytes ⟨q.high, { q.rest with x := v }⟩ ++ r) :=
    fun q v => set_rest pre q r hpos (Chunk.set_x _ r v)
  have hy : ∀ (q : Quad) (v : UInt8), (pre ++ (q.bytes ++ r)).set (pos + 64) v =
      pre ++ (bytes ⟨q.high, { q.rest with y := v }⟩ ++ r) :=
    fun q v => set_rest pre q r hpos (Chunk.set_y _ r v)
  have hz : ∀ (q : Quad) (v : UInt8), (pre ++ (q.bytes ++ r)).set (pos + 96) v =
      pre ++ (bytes ⟨q.high, { q.rest with z := v }⟩ ++ r) :=
    fun q v => set_rest pre q r hpos (Chunk.set_z _ r v)
  rw [BlobEncoder.writeHighBytes, set_high pre q r hpos, hx, hy, hz]
  rfl

end Access

end Quad

end NodeReth
