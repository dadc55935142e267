import NodeReth.Blob.Round

/-!
# What the blob encoder writes

A payload behind its header and padded with zeros is a sequence of 1024 chunks, and the encoder
writes the quads they pack into (`encode_eq`).
-/

namespace NodeReth

open Bytes List Quad

def AllZero (b : Bytes) : Prop := ∀ v ∈ b, v = 0

variable {b a : Bytes}

theorem AllZero.append_iff : AllZero (a ++ b) ↔ AllZero a ∧ AllZero b := by
  simp only [AllZero, mem_append]
  constructor
  · intro h
    exact ⟨fun v hv => h v (Or.inl hv), fun v hv => h v (Or.inr hv)⟩
  · rintro ⟨ha, hb⟩ v (hv | hv)
    · exact ha v hv
    · exact hb v hv

theorem allZero_replicate (n : ℕ) : AllZero (replicate n 0) :=
  fun _ hv => eq_of_mem_replicate hv

theorem AllZero.drop_append_right {n : ℕ} (hn : n ≤ a.length)
    (h : AllZero ((a ++ b).drop n)) : AllZero b := by
  rw [drop_append_of_le_length hn] at h
  exact (AllZero.append_iff.mp h).2

/-! ## The first round -/

def Chunk.withA {n m : ℕ} (k : Chunk n) (s : FixedBytes m) : Chunk m :=
  ⟨s, k.x, k.b, k.y, k.c, k.z, k.d⟩

/-- The version and the length in front of the payload. -/
def blobHeader (len : ℕ) : FixedBytes 4 :=
  ⟨[BlobEncoder.blobEncodingVersion, byteAt (toBe 4 (len % 2 ^ 32)) 1,
    byteAt (toBe 4 (len % 2 ^ 32)) 2, byteAt (toBe 4 (len % 2 ^ 32)) 3], rfl⟩

/-- The first part of the first chunk: the header and 27 payload bytes. -/
def headerPart (h : FixedBytes 4) (s : FixedBytes 27) : FixedBytes 31 :=
  ⟨h.val ++ s.val, by rw [length_append, h.2, s.2]⟩

/-- The first quad of the blob of a payload of `len` bytes. -/
def firstQuad (len : ℕ) (k : Chunk 27) : Quad :=
  (k.withA (headerPart (blobHeader len) k.a)).pack

theorem bytes_withHeader (high : UInt8) (h : FixedBytes 4) (k : Chunk 31) (s : FixedBytes 27)
    (r : Bytes) : bytes ⟨high, k.withA (headerPart h s)⟩ ++ r =
      (high :: h.val) ++ (s.val ++
        (k.x :: (k.b.val ++ (k.y :: (k.c.val ++ (k.z :: (k.d.val ++ r))))))) := by
  simp [bytes, Chunk.bytes, Chunk.withA, headerPart]

/-! ## The encoder -/

namespace BlobEncoder

theorem encodeRound0_eq (k : Chunk 27) (irest orest : Bytes) (len : ℕ) :
    encodeRound0 (k.bytes ++ irest) len (zero.bytes ++ orest) = (firstQuad len k).bytes ++ orest := by
  have hhead : ∀ v l1 l2 l3 : UInt8,
      blit (((((zero.bytes ++ orest).set versionedHashVersionKzg v).set 2 l1).set 3 l2).set
        4 l3) 5 k.a.val =
      bytes ⟨0, (Chunk.zero 31).withA (headerPart ⟨[v, l1, l2, l3], rfl⟩ k.a)⟩ ++ orest := by
    intro v l1 l2 l3
    have hzero : zero = ⟨0, (Chunk.zero 31).withA
        (headerPart (FixedBytes.zero 4) (FixedBytes.zero 27))⟩ := rfl
    rw [hzero, bytes_withHeader, bytes_withHeader]
    exact blit_mid (l := [0, v, l1, l2, l3]) rfl ((FixedBytes.zero 27).2.trans k.a.2.symm)
  have hnil : ([] : Bytes).length = 0 := rfl
  have hb := fun q => blit_b [] q orest hnil k.b
  have hc := fun q => blit_c [] q orest hnil k.c
  have hd := fun q => blit_d [] q orest hnil k.d
  have hw := fun q => writeHighBytes_eq [] q orest hnil k.x k.y k.z
  simp only [nil_append] at hb hc hd hw
  have ia : slice (k.bytes ++ irest) 0 27 = k.a.val := k.slice_a irest
  have ib : slice (k.bytes ++ irest) 28 59 = k.b.val := k.slice_b irest
  have ic : slice (k.bytes ++ irest) 60 91 = k.c.val := k.slice_c irest
  have id : slice (k.bytes ++ irest) 92 123 = k.d.val := k.slice_d irest
  have ix : byteAt (k.bytes ++ irest) 27 = k.x := k.byteAt_x irest
  have iy : byteAt (k.bytes ++ irest) 59 = k.y := k.byteAt_y irest
  have iz : byteAt (k.bytes ++ irest) 91 = k.z := k.byteAt_z irest
  simp only [encodeRound0, ia, ib, ic, id, ix, iy, iz, hhead, hb, hc, hd, hw]
  rfl

theorem encodeRound_eq (ipre irest opre orest : Bytes) (k : Chunk 31) (q : Quad) {ipos pos : ℕ}
    (hipos : ipre.length = ipos) (hpos : opre.length = pos) :
    encodeRound (ipre ++ (k.bytes ++ irest)) (opre ++ (q.bytes ++ orest)) ipos pos =
      opre ++ (k.pack.bytes ++ orest) := by
  have hslice : ∀ i j, slice (ipre ++ (k.bytes ++ irest)) (ipos + i) (ipos + j) =
      slice (k.bytes ++ irest) i j := fun i j => slice_append_right hipos
  have hbyte : ∀ i, byteAt (ipre ++ (k.bytes ++ irest)) (ipos + i) =
      byteAt (k.bytes ++ irest) i := fun i => byteAt_append_right _ _ i hipos
  have ia : slice (ipre ++ (k.bytes ++ irest)) ipos (ipos + 31) = k.a.val :=
    (hslice 0 31).trans (k.slice_a irest)
  have ib := (hslice 32 63).trans (k.slice_b irest)
  have ic := (hslice 64 95).trans (k.slice_c irest)
  have id := (hslice 96 127).trans (k.slice_d irest)
  have ix := (hbyte 31).trans (k.byteAt_x irest)
  have iy := (hbyte 63).trans (k.byteAt_y irest)
  have iz := (hbyte 95).trans (k.byteAt_z irest)
  have ha := fun q => blit_a opre q orest hpos k.a
  have hb := fun q => blit_b opre q orest hpos k.b
  have hc := fun q => blit_c opre q orest hpos k.c
  have hd := fun q => blit_d opre q orest hpos k.d
  have hw := fun q => writeHighBytes_eq opre q orest hpos k.x k.y k.z
  simp [encodeRound, ia, ib, ic, id, ix, iy, iz, ha, hb, hc, hd, hw]

theorem flatMap_pack_of_allZero (ks : List (Chunk 31)) (h : AllZero (ks.flatMap Chunk.bytes)) :
    ks.flatMap (fun k => k.pack.bytes) = replicate (128 * ks.length) 0 := by
  have hzero : ∀ k ∈ ks, k = Chunk.zero 31 := by
    intro k hk
    apply Chunk.eq_zero_of_mem
    intro v hv
    exact h v (mem_flatMap.mpr ⟨k, hk, hv⟩)
  refine flatMap_zeros fun k hk => ?_
  rw [hzero k hk, pack_zero, zero_bytes]

/-- The later rounds write the quads of the remaining chunks. Where they stop early, the rest of
the input is padding, which packs to the zeros that are there already. -/
theorem encodeRounds_eq (ks : List (Chunk 31)) (ipre opre : Bytes) (len : ℕ) {ipos pos : ℕ}
    (hipos : ipre.length = ipos) (hpos : opre.length = pos)
    (hpad : AllZero ((ipre ++ ks.flatMap Chunk.bytes).drop len)) :
    encodeRounds (ipre ++ ks.flatMap Chunk.bytes) len ks.length
      (opre ++ replicate (128 * ks.length) 0) ipos pos =
      opre ++ ks.flatMap (fun k => k.pack.bytes) := by
  induction ks generalizing ipre opre ipos pos with
  | nil => simp [encodeRounds]
  | cons k ks ih =>
    rw [length_cons, encodeRounds]
    split_ifs with hstop
    · rw [flatMap_pack_of_allZero (k :: ks)
        (AllZero.drop_append_right (hstop.trans_eq hipos.symm) hpad), length_cons]
    · have hround := encodeRound_eq ipre (ks.flatMap Chunk.bytes) opre
        (replicate (128 * ks.length) 0) k zero hipos hpos
      have hilen : (ipre ++ k.bytes).length = ipos + 127 := by simp [hipos]
      have holen : (opre ++ k.pack.bytes).length = pos + 128 := by simp [hpos]
      have hrest := ih (ipre ++ k.bytes) (opre ++ k.pack.bytes) hilen holen (by simpa using hpad)
      simp only [append_assoc] at hrest
      rw [zeros_succ, ← zero_bytes, flatMap_cons, hround, hrest, flatMap_cons]

variable {d : Bytes}

variable (h : d.length ≤ blobMaxDataSize)

include h

theorem padInput_length : (padInput d).length = 27 + 96 + (31 + 96) * 1023 := by
  simp only [padInput, length_append, length_replicate]
  simp only [blobMaxDataSize] at h ⊢
  omega

theorem exists_chunks : ∃ (k : Chunk 27) (ks : List (Chunk 31)), ks.length = 1023 ∧
      padInput d = k.bytes ++ ks.flatMap Chunk.bytes := by
  have hlen := padInput_length h
  obtain ⟨k, hk⟩ := Chunk.exists_bytes (n := 27) ((padInput d).take (27 + 96)) (by simp; omega)
  obtain ⟨ks, hcount, hks⟩ := Chunk.exists_flatMap_bytes (n := 31) 1023
    ((padInput d).drop (27 + 96)) (by simp; omega)
  exact ⟨k, ks, hcount, by rw [hk, hks, take_append_drop]⟩

theorem encode_eq {k : Chunk 27} {ks : List (Chunk 31)}
    (hcount : ks.length = 1023) (hks : padInput d = k.bytes ++ ks.flatMap Chunk.bytes) :
    ∃ blob : Blob, encode d = .ok blob ∧
      blob.val = (firstQuad d.length k).bytes ++ ks.flatMap (fun k => k.pack.bytes) := by
  have hpad : AllZero ((padInput d).drop d.length) := by
    rw [padInput, drop_left]
    exact allZero_replicate _
  have hzeros : replicate bytesPerBlob (0 : UInt8) = zero.bytes ++ replicate (128 * ks.length) 0 := by
    rw [hcount]
    rfl
  rw [encode, if_neg (by omega)]
  refine ⟨_, rfl, ?_⟩
  rw [hks] at hpad
  have hilen : k.bytes.length = 123 := k.bytes_length
  have hrounds := encodeRounds_eq ks k.bytes (firstQuad d.length k).bytes d.length hilen
    (bytes_length _) hpad
  simp only [hks, hzeros, encodeRound0_eq]
  rw [hcount] at hrounds
  rwa [hcount]

end BlobEncoder

end NodeReth
