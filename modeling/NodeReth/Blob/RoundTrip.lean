import NodeReth.Blob.Decode

/-!
# The blob codec round trip

Each decoder accepts a blob exactly when it is, up to the two unchecked bits of byte 0, the
sequence of quads that the encoder writes for the payload. So both decoders accept the same blobs
with the same payload, and they accept little more than what the encoder writes.
-/

namespace NodeReth

open BlobDecoder BlobEncoder Bytes List Quad

/-! ## Accepted blobs and written blobs -/

theorem joinSix_highLow (a b : UInt8) : BlobCursor.joinSix (highLow a) b = BlobCursor.joinSix a b := by
  apply byte_ext
  intro i hi
  simp only [BlobCursor.joinSix, highLow]
  interval_cases i <;> simp

theorem blobHeader_ofBe {h : FixedBytes 4} (hversion : byteAt h.val 0 = 0) :
    blobHeader (ofBe (0 :: h.val.drop 1)) = h := by
  obtain ⟨b, hb⟩ := h
  match b, hb with
  | [v, l1, l2, l3], _ =>
    have hv : v = 0 := hversion
    have hlt : ofBe [0, l1, l2, l3] < 2 ^ 32 := by
      have := ofBe_lt [0, l1, l2, l3]
      simpa using this
    have hbytes : toBe 4 (ofBe [0, l1, l2, l3]) = [0, l1, l2, l3] := toBe_ofBe [0, l1, l2, l3]
    simp only [blobHeader, drop_succ_cons, drop_zero, Nat.mod_eq_of_lt hlt, hbytes, hv]
    rfl

/-- `e` is `b` with the two top bits of byte 0 cleared. -/
def SameButTopBits (b e : Blob) : Prop :=
  highLow (byteAt b.val 0) = byteAt e.val 0 ∧ b.val.drop 1 = e.val.drop 1

variable {blob : Blob} {p d : Bytes}

/-- An accepted blob is what the encoder writes for the payload, but for those two bits. -/
theorem Accepts.encode {q : Quad} {qs : List Quad} {h : FixedBytes 4}
    {s : FixedBytes 27} (hblob : blob.val = q.bytes ++ qs.flatMap bytes)
    (hacc : BlobCursor.Accepts q qs h s p) : ∃ e, encode p = .ok e ∧ SameButTopBits blob e := by
  have hpad : padInput p = (q.unpack.withA s).bytes ++ (qs.map unpack).flatMap Chunk.bytes := by
    rw [hacc.payload, flatMap_map]
  obtain ⟨e, he, hval⟩ := encode_eq hacc.bounded (by simp [hacc.count]) hpad
  have hfirst : firstQuad p.length (q.unpack.withA s) = ⟨highLow q.high, q.rest⟩ := by
    rw [← pack_unpack_of_clearRest hacc.clearRest, firstQuad, ← hacc.length]
    simp only [Chunk.withA, blobHeader_ofBe hacc.version, ← hacc.header]
    rfl
  have hrest : (qs.map unpack).flatMap (fun k => k.pack.bytes) = qs.flatMap bytes := by
    rw [flatMap_map, flatMap_def]
    congr 1
    apply map_congr_left
    intro q hq
    rw [pack_unpack (hacc.clear q hq)]
  rw [hfirst, hrest] at hval
  refine ⟨e, he, ?_, ?_⟩
  · rw [hblob, hval]
    rfl
  · rw [hblob, hval]
    rfl

theorem ofBe_blobHeader {len : ℕ} (h : len ≤ blobMaxDataSize) :
    ofBe (0 :: (blobHeader len).val.drop 1) = len := by
  have hlen : len ≤ 130044 := h
  have hmod : len % 2 ^ 32 = len := Nat.mod_eq_of_lt (by omega)
  have htop : UInt8.ofNat (len / 256 / 256 / 256) = 0 := by
    have : len / 256 / 256 / 256 = 0 := by omega
    rw [this]
    rfl
  have hbytes : 0 :: (blobHeader len).val.drop 1 = toBe 4 len := by
    simp only [blobHeader, hmod, toBe, htop]
    rfl
  rw [hbytes, ofBe_toBe (by norm_num; omega)]

/-- What the encoder writes for a payload is accepted with that payload, whatever the two top bits
of byte 0 are set to. -/
theorem accepts_of_encode {e : Blob} (hp : p.length ≤ blobMaxDataSize)
    (he : encode p = .ok e) (hsame : SameButTopBits blob e) :
    ∃ (q : Quad) (qs : List Quad) (h : FixedBytes 4) (s : FixedBytes 27),
      blob.val = q.bytes ++ qs.flatMap bytes ∧ BlobCursor.Accepts q qs h s p := by
  obtain ⟨k, ks, hcount, hpad⟩ := exists_chunks hp
  obtain ⟨e', he', hval⟩ := encode_eq hp hcount hpad
  obtain rfl : e = e' := Except.ok.inj (he.symm.trans he')
  obtain ⟨hhigh, hrest⟩ := hsame
  obtain ⟨b, t, hblob⟩ : ∃ b t, blob.val = b :: t :=
    exists_cons_of_length_pos (by rw [blob.2]; simp [bytesPerBlob])
  have hb : highLow b = (firstQuad p.length k).high := by
    rwa [hblob, hval] at hhigh
  have ht : t = (firstQuad p.length k).rest.bytes ++ ks.flatMap (fun k => k.pack.bytes) := by
    rwa [hblob, hval] at hrest
  have hunpack : unpack ⟨b, (firstQuad p.length k).rest⟩ =
      k.withA (headerPart (blobHeader p.length) k.a) := by
    rw [← unpack_pack (k.withA _), ← firstQuad, unpack, unpack, ← hb, joinSix_highLow]
  refine ⟨⟨b, (firstQuad p.length k).rest⟩, ks.map Chunk.pack, blobHeader p.length, k.a, ?_,
    rfl, by simp [hcount], rfl, ofBe_blobHeader hp, hp, (pack_clear _).2, ?_, ?_⟩
  · rw [hblob, ht, flatMap_map]
    rfl
  · intro q hq
    obtain ⟨c, -, rfl⟩ := mem_map.mp hq
    exact pack_clear c
  · rw [hpad, hunpack, flatMap_map]
    simp only [unpack_pack]
    rfl

theorem iff_encode_of_accepts {accepted : Prop}
    (haccepts : ∀ {q qs h s}, blob.val = q.bytes ++ qs.flatMap bytes → qs.length = 1023 →
      q.rest.a = headerPart h s → (accepted ↔ BlobCursor.Accepts q qs h s p)) :
    accepted ↔ p.length ≤ blobMaxDataSize ∧ ∃ e, encode p = .ok e ∧ SameButTopBits blob e := by
  constructor
  · intro hd
    obtain ⟨q, qs, h, s, hblob, hcount, hheader⟩ := Blob.exists_quads blob
    have hacc := (haccepts hblob hcount hheader).mp hd
    exact ⟨hacc.bounded, Accepts.encode hblob hacc⟩
  · rintro ⟨hp, e, he, hsame⟩
    obtain ⟨q, qs, h, s, hblob, hacc⟩ := accepts_of_encode hp he hsame
    exact (haccepts hblob hacc.count hacc.header).mpr hacc

theorem BlobDecoder.decode_iff_encode (blob : Blob) (p : Bytes) :
    BlobDecoder.decode blob = .ok p ↔
      p.length ≤ blobMaxDataSize ∧ ∃ e, encode p = .ok e ∧ SameButTopBits blob e :=
  iff_encode_of_accepts fun hblob hcount hheader => decode_eq_ok_iff hblob hcount hheader p

theorem BlobData.decode_iff_encode (blob : Blob) (calldata : Option Bytes) (p : Bytes) :
    BlobData.decode ⟨some blob, calldata⟩ = .ok p ↔
      p.length ≤ blobMaxDataSize ∧ ∃ e, encode p = .ok e ∧ SameButTopBits blob e :=
  iff_encode_of_accepts fun hblob hcount hheader => decode_eq_ok_iff hblob hcount hheader p calldata

/-! ## The codec -/

theorem topClear_flatMap (qs : List Quad) (h : ∀ q ∈ qs, q.Clear) (i : ℕ) (hi : i < 4 * qs.length) :
    TopClear (byteAt (qs.flatMap bytes) (32 * i)) := by
  induction qs generalizing i with
  | nil => simp at hi
  | cons q qs ih =>
    obtain ⟨hhigh, hx, hy, hz⟩ := h q mem_cons_self
    have hnil : ([] : Bytes).length = 0 := rfl
    have h0 := byteAt_high [] q (qs.flatMap bytes) hnil
    have h1 := byteAt_x [] q (qs.flatMap bytes) hnil
    have h2 := byteAt_y [] q (qs.flatMap bytes) hnil
    have h3 := byteAt_z [] q (qs.flatMap bytes) hnil
    rw [flatMap_cons]
    match i with
    | 0 => exact h0 ▸ hhigh
    | 1 => exact h1 ▸ hx
    | 2 => exact h2 ▸ hy
    | 3 => exact h3 ▸ hz
    | i + 4 =>
      rw [show 32 * (i + 4) = 128 + 32 * i by omega, byteAt_append_right _ _ _ q.bytes_length]
      exact ih (fun q hq => h q (mem_cons_of_mem _ hq)) i (by simp at hi; omega)

theorem BlobEncoder.encode_topClear (hd : d.length ≤ blobMaxDataSize)
    (h : encode d = .ok blob) (i : ℕ) (hi : i < 4096) : TopClear (byteAt blob.val (32 * i)) := by
  obtain ⟨k, ks, hcount, hpad⟩ := exists_chunks hd
  obtain ⟨e, he, hval⟩ := encode_eq hd hcount hpad
  obtain rfl : blob = e := Except.ok.inj (h.symm.trans he)
  have hquads : blob.val = (firstQuad d.length k :: ks.map Chunk.pack).flatMap bytes := by
    rw [hval, flatMap_cons, flatMap_map]
  rw [hquads]
  apply topClear_flatMap
  · intro q hq
    rcases mem_cons.mp hq with rfl | hq
    · exact pack_clear _
    · obtain ⟨c, -, rfl⟩ := mem_map.mp hq
      exact pack_clear c
  · simp only [length_cons, length_map]
    omega

/-- Every payload that fits is written to a blob of valid field elements and read back by both
decoders; both decoders accept the same blobs with the same payload; and an accepted blob is what
the encoder writes for its payload, except possibly in the two top bits of byte 0. -/
theorem blob_codec :
    (∀ d : Bytes, d.length ≤ blobMaxDataSize → ∃ blob, encode d = .ok blob ∧
      (∀ i < 4096, TopClear (byteAt blob.val (32 * i))) ∧
      BlobDecoder.decode blob = .ok d ∧ BlobData.decode ⟨some blob, none⟩ = .ok d) ∧
    (∀ blob p, BlobDecoder.decode blob = .ok p ↔ BlobData.decode ⟨some blob, none⟩ = .ok p) ∧
    (∀ blob p, BlobDecoder.decode blob = .ok p → ∃ e, encode p = .ok e ∧ SameButTopBits blob e) := by
  refine ⟨?_, ?_, ?_⟩
  · intro d hd
    obtain ⟨k, ks, hcount, hpad⟩ := exists_chunks hd
    obtain ⟨blob, hblob, -⟩ := encode_eq hd hcount hpad
    have hwritten : d.length ≤ blobMaxDataSize ∧ ∃ e, encode d = .ok e ∧ SameButTopBits blob e :=
      ⟨hd, blob, hblob, highLow_of_topClear (encode_topClear hd hblob 0 (by omega)), rfl⟩
    exact ⟨blob, hblob, encode_topClear hd hblob, (decode_iff_encode blob d).mpr hwritten,
      (BlobData.decode_iff_encode blob none d).mpr hwritten⟩
  · intro blob p
    rw [decode_iff_encode, BlobData.decode_iff_encode]
  · intro blob p hd
    exact ((decode_iff_encode blob p).mp hd).2

theorem blob_codec_three : ([1, 2, 3] : Bytes).length ≤ blobMaxDataSize ∧
    ∃ blob, encode [1, 2, 3] = .ok blob ∧ (∀ i < 4096, TopClear (byteAt blob.val (32 * i))) ∧
      BlobDecoder.decode blob = .ok [1, 2, 3] ∧
      BlobData.decode ⟨some blob, none⟩ = .ok [1, 2, 3] :=
  ⟨by decide, blob_codec.1 [1, 2, 3] (by decide)⟩

end NodeReth
