import NodeReth.Blob.Encode

/-!
# What the blob decoders accept

A decoder reads the quads of a blob round by round into one buffer and checks that nothing but
zeros stands behind the payload, in the buffer and in the part of the blob it did not read.
Whatever its errors are, it accepts the quads of `Accepts`.
-/

namespace NodeReth

open Bytes List Quad

/-! ## Reading one quad -/

namespace Quad

section Read

variable (pre : Bytes) (q : Quad) (r : Bytes) {pos : ℕ} (hpos : pre.length = pos)

include hpos

theorem byteAt_high : byteAt (pre ++ (q.bytes ++ r)) pos = q.high :=
  byteAt_append_right pre (q.bytes ++ r) 0 hpos

theorem byteAt_rest (i : ℕ) : byteAt (pre ++ (q.bytes ++ r)) (pos + (1 + i)) =
    byteAt (q.rest.bytes ++ r) i := by
  rw [byteAt_append_right pre _ _ hpos]
  exact byteAt_append_right [q.high] (q.rest.bytes ++ r) i rfl

theorem byteAt_x : byteAt (pre ++ (q.bytes ++ r)) (pos + 32) = q.rest.x :=
  (byteAt_rest pre q r hpos 31).trans (q.rest.byteAt_x r)

theorem byteAt_y : byteAt (pre ++ (q.bytes ++ r)) (pos + 64) = q.rest.y :=
  (byteAt_rest pre q r hpos 63).trans (q.rest.byteAt_y r)

theorem byteAt_z : byteAt (pre ++ (q.bytes ++ r)) (pos + 96) = q.rest.z :=
  (byteAt_rest pre q r hpos 95).trans (q.rest.byteAt_z r)

theorem slice_rest (i j : ℕ) : slice (pre ++ (q.bytes ++ r)) (pos + (1 + i)) (pos + (1 + j)) =
    slice (q.rest.bytes ++ r) i j := by
  rw [slice_append_right hpos]
  exact slice_append_right (a := [q.high]) rfl

end Read

end Quad

namespace BlobCursor

variable {ε : Type} (invalid : ℕ → ε)

theorem decodeFieldElement_ok {data : Bytes} {c : BlobCursor} {h : UInt8} {s : Bytes}
    (hh : byteAt data c.inputPos = h) (hs : data.slice (c.inputPos + 1) (c.inputPos + 32) = s)
    (hclear : TopClear h) : c.decodeFieldElement invalid data =
      .ok (h, ⟨c.output.blit c.outputPos s, c.outputPos + 32, c.inputPos + 32⟩) := by
  subst hh hs
  exact if_neg (not_not.mpr hclear)

theorem decodeFieldElement_error {data : Bytes} {c : BlobCursor}
    (hclear : ¬ TopClear (byteAt data c.inputPos)) :
    c.decodeFieldElement invalid data = .error (invalid c.inputPos) := by
  exact if_pos hclear

section Round

variable (dpre drest : Bytes) (q : Quad) {ipos : ℕ} (hipos : dpre.length = ipos)

include hipos

theorem decodeTail_ok {n : ℕ} (opre orest : Bytes) (k : Chunk n) {opos : ℕ}
    (hopos : opre.length = opos) (hclear : q.ClearRest) (e0 : UInt8) :
    decodeTail invalid (dpre ++ (q.bytes ++ drest)) e0
      ⟨opre ++ (k.bytes ++ orest), opos + (n + 1), ipos + 32⟩ =
    .ok ⟨opre ++ (Chunk.bytes (Chunk.withA (unpack { q with high := e0 }) k.a) ++ orest),
      opos + (n + 96), ipos + 128⟩ := by
  obtain ⟨hx, hy, hz⟩ := hclear
  have hblit : ∀ (b : Bytes) (i : ℕ) (s : Bytes), blit (opre ++ b) (opos + i) s = opre ++ blit b i s :=
    fun b i s => blit_append_left opre b i s hopos
  have hset : ∀ (b : Bytes) (i : ℕ) (v : UInt8), (opre ++ b).set (opos + i) v = opre ++ b.set i v := by
    intro b i v
    subst hopos
    rw [set_append_right _ _ (by omega), Nat.add_sub_cancel_left]
  have hb1 := byteAt_x dpre q drest hipos
  have hb2 := byteAt_y dpre q drest hipos
  have hb3 := byteAt_z dpre q drest hipos
  have hs1 : slice (dpre ++ (q.bytes ++ drest)) (ipos + 32 + 1) (ipos + 32 + 32) = q.rest.b.val :=
    (slice_rest dpre q drest hipos 32 63).trans (q.rest.slice_b drest)
  have hs2 : slice (dpre ++ (q.bytes ++ drest)) (ipos + 64 + 1) (ipos + 64 + 32) = q.rest.c.val :=
    (slice_rest dpre q drest hipos 64 95).trans (q.rest.slice_c drest)
  have hs3 : slice (dpre ++ (q.bytes ++ drest)) (ipos + 96 + 1) (ipos + 96 + 32) = q.rest.d.val :=
    (slice_rest dpre q drest hipos 96 127).trans (q.rest.slice_d drest)
  rw [decodeTail, decodeFieldElement_ok invalid hb1 hs1 hx]
  simp only [bind, Except.bind]
  rw [decodeFieldElement_ok invalid hb2 hs2 hy]
  simp only
  rw [decodeFieldElement_ok invalid hb3 hs3 hz]
  have hb := Chunk.blit_b k orest q.rest.b
  have hc := Chunk.blit_c { k with b := q.rest.b } orest q.rest.c
  have hd := Chunk.blit_d { k with b := q.rest.b, c := q.rest.c } orest q.rest.d
  have hpos2 : opos + (n + 1) + 32 = opos + (n + 33) := by omega
  have hpos3 : opos + (n + 33) + 32 = opos + (n + 65) := by omega
  have hpos4 : opos + (n + 65) + 32 - 1 = opos + (n + 96) := by omega
  have hposz : opos + (n + 96) - 32 = opos + (n + 64) := by omega
  have hposy : opos + (n + 96) - 32 * 2 = opos + (n + 32) := by omega
  have hposx : opos + (n + 96) - 32 * 3 = opos + n := by omega
  simp only [reassembleBytes, hpos2, hpos3, hpos4, hposz, hposy, hposx, hblit, hb, hc, hd, hset,
    Chunk.set_z, Chunk.set_y, Chunk.set_x]
  rfl

theorem decodeTail_error (output : Bytes) (opos : ℕ) (hclear : ¬ q.ClearRest) (e0 : UInt8) :
    ∃ e, decodeTail invalid (dpre ++ (q.bytes ++ drest)) e0 ⟨output, opos, ipos + 32⟩ = .error e := by
  have hb1 := byteAt_x dpre q drest hipos
  have hb2 := byteAt_y dpre q drest hipos
  have hb3 := byteAt_z dpre q drest hipos
  by_cases hx : TopClear q.rest.x
  · rw [decodeTail, decodeFieldElement_ok invalid hb1 rfl hx]
    simp only [bind, Except.bind]
    by_cases hy : TopClear q.rest.y
    · have hz : ¬ TopClear q.rest.z := fun hz => hclear ⟨hx, hy, hz⟩
      rw [decodeFieldElement_ok invalid hb2 rfl hy]
      simp only
      rw [decodeFieldElement_error invalid (hb3.symm ▸ hz)]
      exact ⟨_, rfl⟩
    · rw [decodeFieldElement_error invalid (hb2.symm ▸ hy)]
      exact ⟨_, rfl⟩
  · rw [decodeTail, decodeFieldElement_error invalid (hb1.symm ▸ hx)]
    exact ⟨_, rfl⟩

theorem decodeRound_ok (opre orest : Bytes) (k : Chunk 31) {opos : ℕ} (hopos : opre.length = opos)
    (hclear : q.Clear) :
    decodeRound invalid (dpre ++ (q.bytes ++ drest)) ⟨opre ++ (k.bytes ++ orest), opos, ipos⟩ =
      .ok ⟨opre ++ (q.unpack.bytes ++ orest), opos + 127, ipos + 128⟩ := by
  have hs : slice (dpre ++ (q.bytes ++ drest)) (ipos + 1) (ipos + 32) = q.rest.a.val :=
    (slice_rest dpre q drest hipos 0 31).trans (q.rest.slice_a drest)
  have hblit : blit (opre ++ (k.bytes ++ orest)) opos q.rest.a.val =
      opre ++ (Chunk.bytes { k with a := q.rest.a } ++ orest) := by
    rw [← Chunk.blit_a k orest q.rest.a]
    exact blit_append_left opre _ 0 _ hopos
  have htail := decodeTail_ok invalid dpre drest q hipos opre orest { k with a := q.rest.a } hopos
    hclear.2 q.high
  rw [decodeRound, decodeFieldElement_ok invalid (byteAt_high dpre q drest hipos) hs hclear.1]
  simp only [hblit]
  exact htail

theorem decodeRound_error (output : Bytes) (opos : ℕ) (hclear : ¬ q.Clear) :
    ∃ e, decodeRound invalid (dpre ++ (q.bytes ++ drest)) ⟨output, opos, ipos⟩ = .error e := by
  have hhigh := byteAt_high dpre q drest hipos
  by_cases hh : TopClear q.high
  · rw [decodeRound, decodeFieldElement_ok invalid hhigh rfl hh]
    exact decodeTail_error invalid dpre drest q hipos _ _ (fun h => hclear ⟨hh, h⟩) _
  · rw [decodeRound, decodeFieldElement_error invalid (hhigh.symm ▸ hh)]
    exact ⟨_, rfl⟩

end Round

/-! ## Reading all rounds -/

/-- Quads whose payload is zero are zero once their high bytes are clear. -/
theorem quads_zero {qs : List Quad} (hclear : ∀ q ∈ qs, q.Clear)
    (h : AllZero (qs.flatMap fun q => q.unpack.bytes)) : ∀ q ∈ qs, q = zero := by
  intro q hq
  have hchunk : q.unpack = Chunk.zero 31 :=
    Chunk.eq_zero_of_mem fun v hv => h v (mem_flatMap.mpr ⟨q, hq, hv⟩)
  rw [← pack_unpack (hclear q hq), hchunk, pack_zero]

theorem flatMap_unpack_zero {qs : List Quad} (h : ∀ q ∈ qs, q = zero) :
    (qs.flatMap fun q => q.unpack.bytes) = replicate (127 * qs.length) 0 := by
  refine flatMap_zeros fun q hq => ?_
  rw [h q hq, unpack_zero, Chunk.zero_bytes]

/-- What the later rounds and the two padding checks behind them accept. Where the rounds stop
early, the checks make the quads that were not read zero, so that reading them would not have
changed the output. -/
theorem decodeRounds_checked (qs : List Quad) (dpre opre : Bytes) (length : ℕ) {ipos opos : ℕ}
    (hipos : dpre.length = ipos) (hopos : opre.length = opos) (out : Bytes) :
    (∃ c, decodeRounds invalid (dpre ++ qs.flatMap bytes) length qs.length
        ⟨opre ++ replicate (127 * qs.length) 0, opos, ipos⟩ = .ok c ∧ c.output = out ∧
        AllZero (out.drop length) ∧
        AllZero ((dpre ++ qs.flatMap bytes).drop c.inputPos)) ↔
      (∀ q ∈ qs, q.Clear) ∧ out = opre ++ (qs.flatMap fun q => q.unpack.bytes) ∧
        AllZero (out.drop length) := by
  induction qs generalizing dpre opre ipos opos with
  | nil =>
    constructor
    · rintro ⟨c, hc, rfl, hzero, -⟩
      cases hc
      exact ⟨by simp, by simp, hzero⟩
    · rintro ⟨-, rfl, hzero⟩
      refine ⟨_, rfl, by simp, hzero, ?_⟩
      rw [← hipos]
      simp [AllZero]
  | cons q qs ih =>
    rw [length_cons, decodeRounds]
    by_cases hstop : opos ≥ length
    · rw [if_pos hstop]
      have hdrop : ∀ b : Bytes, AllZero ((opre ++ b).drop length) → AllZero b :=
        fun b => AllZero.drop_append_right (hstop.trans_eq hopos.symm)
      constructor
      · rintro ⟨c, hc, rfl, hzero, hrest⟩
        cases hc
        rw [← hipos, drop_left] at hrest
        have hquads : ∀ p ∈ q :: qs, p = zero := by
          intro p hp
          exact eq_zero_of_mem fun v hv => hrest v (mem_flatMap.mpr ⟨p, hp, hv⟩)
        refine ⟨fun p hp => (hquads p hp).symm ▸ zero_clear, ?_, hzero⟩
        rw [flatMap_unpack_zero hquads, length_cons]
      · rintro ⟨hclear, rfl, hzero⟩
        have hquads := quads_zero hclear (hdrop _ hzero)
        refine ⟨_, rfl, ?_, hzero, ?_⟩
        · rw [flatMap_unpack_zero hquads, length_cons]
        · rw [← hipos, drop_left,
            flatMap_zeros fun q hq => (congrArg bytes (hquads q hq)).trans zero_bytes]
          exact allZero_replicate _
    · rw [if_neg hstop]
      by_cases hclear : q.Clear
      · have hilen : (dpre ++ q.bytes).length = ipos + 128 := by simp [hipos]
        have holen : (opre ++ q.unpack.bytes).length = opos + 127 := by simp [hopos]
        have hrest := ih (dpre ++ q.bytes) (opre ++ q.unpack.bytes) hilen holen
        simp only [append_assoc] at hrest
        rw [zeros_succ, ← Chunk.zero_bytes 31, flatMap_cons,
          decodeRound_ok invalid dpre _ q hipos opre _ _ hopos hclear]
        simp only [bind, Except.bind]
        rw [hrest]
        simp [hclear]
      · obtain ⟨e, he⟩ := decodeRound_error invalid dpre (qs.flatMap bytes) q hipos
          (opre ++ replicate (127 * (qs.length + 1)) 0) opos hclear
        rw [flatMap_cons, he]
        simp [bind, Except.bind, hclear]

/-- The quads that a decoder accepts: a header `h` with a zero version and the length of the
payload in the first, clear high bytes but for the first, and padding behind the payload. -/
structure Accepts (q : Quad) (qs : List Quad) (h : FixedBytes 4) (s : FixedBytes 27)
    (p : Bytes) : Prop where
  header : q.rest.a = headerPart h s
  count : qs.length = 1023
  version : byteAt h.val 0 = 0
  length : ofBe (0 :: h.val.drop 1) = p.length
  bounded : p.length ≤ blobMaxDataSize
  clearRest : q.ClearRest
  clear : ∀ p ∈ qs, p.Clear
  payload : BlobEncoder.padInput p = (q.unpack.withA s).bytes ++ qs.flatMap fun q => q.unpack.bytes

/-- Padding a payload is reading it off a full buffer of zeros behind it. -/
theorem padInput_eq_iff {out p : Bytes} {n : ℕ} (hout : out.length = blobMaxDataSize)
    (hn : n ≤ blobMaxDataSize) :
    AllZero (out.drop n) ∧ p = out.take n ↔ n = p.length ∧ BlobEncoder.padInput p = out := by
  constructor
  · rintro ⟨hzero, rfl⟩
    have hlen : (out.take n).length = n := length_take_of_le (by omega)
    refine ⟨hlen.symm, ?_⟩
    have hdrop := eq_replicate_of_mem hzero
    rw [length_drop, hout] at hdrop
    rw [BlobEncoder.padInput, hlen, ← hdrop, take_append_drop]
  · rintro ⟨rfl, rfl⟩
    rw [BlobEncoder.padInput, drop_left, take_left]
    exact ⟨allZero_replicate _, rfl⟩

theorem eq_withHeader {q : Quad} {h : FixedBytes 4} {s : FixedBytes 27}
    (hheader : q.rest.a = headerPart h s) : q = ⟨q.high, q.rest.withA (headerPart h s)⟩ := by
  rw [← hheader]
  rfl

/-- Round 0 of a decoder, with the output as the later rounds find it. -/
theorem decodeRound0_start {q : Quad} {h : FixedBytes 4} {s : FixedBytes 27} (rest : Bytes)
    (hheader : q.rest.a = headerPart h s) (hclear : q.ClearRest) :
    decodeRound0 invalid (q.bytes ++ rest)
      ⟨blit (replicate blobMaxDataSize 0) 0 (slice (q.bytes ++ rest) 5 32), 28, 32⟩ =
      .ok ⟨(q.unpack.withA s).bytes ++ replicate (127 * 1023) 0, 123, 128⟩ := by
  have hslice : slice (q.bytes ++ rest) 5 32 = s.val := by
    rw [eq_withHeader hheader, bytes_withHeader]
    exact slice_mid (by simp [h.2]) (by rw [s.2])
  have hzeros : replicate blobMaxDataSize (0 : UInt8) =
      (Chunk.zero 27).bytes ++ replicate (127 * 1023) 0 := by
    rfl
  have hnil : ([] : Bytes).length = 0 := rfl
  have htail := decodeTail_ok invalid [] rest q hnil [] (replicate (127 * 1023) 0)
    { Chunk.zero 27 with a := s } hnil hclear q.high
  rwa [hslice, hzeros, Chunk.blit_a]

/-- The rounds and the padding checks of a decoder accept the payloads of `Accepts`. -/
theorem decodeAll_checked (q : Quad) (qs : List Quad) (h : FixedBytes 4) (s : FixedBytes 27)
    (p : Bytes) {length : ℕ} (hheader : q.rest.a = headerPart h s) (hcount : qs.length = 1023)
    (hversion : byteAt h.val 0 = 0) (hlength : ofBe (0 :: h.val.drop 1) = length)
    (hbounded : length ≤ blobMaxDataSize) :
    (∃ c, decodeAll invalid (q.bytes ++ qs.flatMap bytes) length 1024 = .ok c ∧
        AllZero (c.output.drop length) ∧
        AllZero ((q.bytes ++ qs.flatMap bytes).drop c.inputPos) ∧
        p = c.output.take length) ↔ Accepts q qs h s p := by
  by_cases hclear : q.ClearRest
  · have hlen : (q.unpack.withA s).bytes.length = 123 := Chunk.bytes_length _
    have hrounds := decodeRounds_checked invalid qs q.bytes (q.unpack.withA s).bytes length
      q.bytes_length hlen
    have hout : ((q.unpack.withA s).bytes ++ qs.flatMap fun q => q.unpack.bytes).length =
        blobMaxDataSize := by
      have hflat : (qs.flatMap fun q => q.unpack.bytes).length = 127 * qs.length := by
        simp [Nat.mul_comm]
      rw [length_append, hlen, hflat, hcount]
      rfl
    rw [hcount] at hrounds
    rw [decodeAll, decodeRound0_start invalid _ hheader hclear]
    constructor
    · rintro ⟨c, hc, hzero, hrest, hp⟩
      obtain ⟨hqs, hcout, -⟩ := (hrounds _).mp ⟨c, hc, rfl, hzero, hrest⟩
      rw [hcout] at hzero hp
      obtain ⟨hpl, hpad⟩ := (padInput_eq_iff hout hbounded).mp ⟨hzero, hp⟩
      exact ⟨hheader, hcount, hversion, hlength.trans hpl, hpl ▸ hbounded, hclear, hqs, hpad⟩
    · intro hacc
      obtain ⟨hzero, hp⟩ := (padInput_eq_iff hout hbounded).mpr
        ⟨hlength.symm.trans hacc.length, hacc.payload⟩
      obtain ⟨c, hc, hcout, -, hrest⟩ := (hrounds _).mpr ⟨hacc.clear, rfl, hzero⟩
      rw [← hcout] at hp hzero
      exact ⟨c, hc, hzero, hrest, hp⟩
  · have hnil : ([] : Bytes).length = 0 := rfl
    obtain ⟨e, he⟩ := decodeTail_error invalid [] (qs.flatMap bytes) q hnil
      (blit (replicate blobMaxDataSize 0) 0 (slice (q.bytes ++ qs.flatMap bytes) 5 32)) 28 hclear
      q.high
    have hround : decodeRound0 invalid (q.bytes ++ qs.flatMap bytes) _ = .error e := he
    rw [decodeAll, hround]
    constructor
    · rintro ⟨c, hc, -⟩
      cases hc
    · exact fun hacc => absurd hacc.clearRest hclear

end BlobCursor

/-! ## The two decoders -/

theorem Blob.exists_quads (blob : Blob) : ∃ (q : Quad) (qs : List Quad) (h : FixedBytes 4)
    (s : FixedBytes 27), blob.val = q.bytes ++ qs.flatMap bytes ∧ qs.length = 1023 ∧
      q.rest.a = headerPart h s := by
  obtain ⟨quads, hcount, hquads⟩ := exists_flatMap_bytes 1024 blob.val blob.2
  cases quads with
  | nil => simp at hcount
  | cons q qs =>
    refine ⟨q, qs, ⟨q.rest.a.val.take 4, ?_⟩, ⟨q.rest.a.val.drop 4, ?_⟩, by simpa using hquads.symm,
      by simpa using hcount, ?_⟩
    · rw [length_take, q.rest.a.2]
      rfl
    · rw [length_drop, q.rest.a.2]
    · exact Subtype.ext (take_append_drop 4 _).symm

theorem firstNonZero_eq_none {b : Bytes} {start : ℕ} :
    firstNonZero b start = none ↔ AllZero (b.drop start) := by
  simp [firstNonZero, AllZero]

theorem any_ne_zero_eq_false {b : Bytes} : b.any (· ≠ 0) = false ↔ AllZero b := by
  simp [AllZero]

theorem header_length (h : FixedBytes 4) :
    [0, byteAt h.val 1, byteAt h.val 2, byteAt h.val 3] = 0 :: h.val.drop 1 := by
  obtain ⟨b, hb⟩ := h
  match b, hb with
  | [_, _, _, _], _ => rfl

theorem header_eq {q : Quad} {h : FixedBytes 4} {s : FixedBytes 27} (rest : Bytes)
    (hheader : q.rest.a = headerPart h s) :
    byteAt (q.bytes ++ rest) versionedHashVersionKzg = byteAt h.val 0 ∧
      ofBe [0, byteAt (q.bytes ++ rest) 2, byteAt (q.bytes ++ rest) 3,
        byteAt (q.bytes ++ rest) 4] = ofBe (0 :: h.val.drop 1) := by
  have hb : ∀ i < 4, byteAt (q.bytes ++ rest) (1 + i) = byteAt h.val i := by
    intro i hi
    rw [BlobCursor.eq_withHeader hheader, bytes_withHeader, ← singleton_append, append_assoc,
      byteAt_append_right [q.high] _ i length_singleton]
    simp only [byteAt, getD_eq_getElem?_getD]
    rw [getElem?_append_left (by omega)]
  refine ⟨hb 0 (by omega), ?_⟩
  rw [← header_length, ← hb 1 (by omega), ← hb 2 (by omega), ← hb 3 (by omega)]

section Decoders

open BlobCursor

variable {blob : Blob} {q : Quad} {qs : List Quad} {h : FixedBytes 4} {s : FixedBytes 27}
  (hblob : blob.val = q.bytes ++ qs.flatMap bytes) (hcount : qs.length = 1023)
  (hheader : q.rest.a = headerPart h s) (p : Bytes)

include hblob hcount hheader

omit hblob in
/-- A decoder checks the version, the length and, behind the rounds, the padding. -/
theorem checks_eq_ok_iff {ε : Type} (invalid : ℕ → ε) {badVersion badLength : ε}
    {finish : BlobCursor → Except ε Bytes}
    (hfinish : ∀ c, finish c = .ok p ↔ AllZero (c.output.drop (ofBe (0 :: h.val.drop 1))) ∧
      AllZero ((q.bytes ++ qs.flatMap bytes).drop c.inputPos) ∧
      p = c.output.take (ofBe (0 :: h.val.drop 1))) :
    (if byteAt h.val 0 ≠ 0 then .error badVersion
      else if ofBe (0 :: h.val.drop 1) > blobMaxDataSize then .error badLength
      else decodeAll invalid (q.bytes ++ qs.flatMap bytes) (ofBe (0 :: h.val.drop 1)) 1024 >>=
        finish) = .ok p ↔ Accepts q qs h s p := by
  split_ifs with hv hb
  · exact ⟨nofun, fun hacc => absurd hacc.version hv⟩
  · refine ⟨nofun, fun hacc => ?_⟩
    have hbound := hacc.bounded
    rw [← hacc.length] at hbound
    exact absurd hb (not_lt.mpr hbound)
  · rw [← decodeAll_checked invalid q qs h s p hheader hcount (not_not.mp hv) rfl (not_lt.mp hb)]
    simp only [← hfinish]
    cases decodeAll invalid (q.bytes ++ qs.flatMap bytes) (ofBe (0 :: h.val.drop 1)) 1024 with
    | error e | ok c => simp [bind, Except.bind]

theorem BlobDecoder.decode_eq_ok_iff : BlobDecoder.decode blob = .ok p ↔ Accepts q qs h s p := by
  obtain ⟨hversion, hlength⟩ := header_eq (qs.flatMap bytes) hheader
  simp only [BlobDecoder.decode, hblob, hversion, hlength]
  refine checks_eq_ok_iff hcount hheader p BlobDecodeError.invalidFieldElement fun c => ?_
  simp only [← firstNonZero_eq_none]
  split
  · rename_i i hi
    simp only [hi, reduceCtorEq, false_and]
  · rename_i hout
    split
    · rename_i i hi
      simp only [hi, reduceCtorEq, false_and, and_false]
    · rename_i hin
      simp only [hout, hin, Except.ok.injEq, true_and]
      exact eq_comm

theorem BlobData.decode_eq_ok_iff (calldata : Option Bytes) :
    BlobData.decode ⟨some blob, calldata⟩ = .ok p ↔ Accepts q qs h s p := by
  obtain ⟨hversion, hlength⟩ := header_eq (qs.flatMap bytes) hheader
  have hsize : ∀ i, slice (q.bytes ++ qs.flatMap bytes) i bytesPerBlob =
      (q.bytes ++ qs.flatMap bytes).drop i := by
    intro i
    apply take_of_length_le
    rw [length_drop, ← hblob, blob.2]
  simp only [BlobData.decode, hblob, hversion, hlength, hsize]
  refine checks_eq_ok_iff hcount hheader p (fun _ => BlobDecodingError.invalidFieldElement) fun c => ?_
  simp only [← any_ne_zero_eq_false]
  split_ifs with hout hin
  · simp only [hout, Bool.true_eq_false, false_and]
  · simp only [hin, Bool.true_eq_false, false_and, and_false]
  · simp only [hout, hin, Except.ok.injEq, true_and]
    exact eq_comm

end Decoders

end NodeReth
