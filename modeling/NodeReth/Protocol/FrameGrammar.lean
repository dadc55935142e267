import NodeReth.Protocol.Frame

/-!
# The payload grammar

`Frame.decode` reads exactly the records of `RawFrame`, whatever their last byte is, so
`Frame.parseFrames` accepts exactly a version byte followed by one or more records. The canonical
payloads, those `Frame.encode` writes, are the ones whose records all end in 0 or 1.
-/

namespace NodeReth

open Bytes List

namespace Frame

theorem decode_raw (r : RawFrame) (rest : Bytes) (hr : r.Bounded) :
    decode (r.encode ++ rest) = .ok (r.encode.length, r.toFrame) := by
  have hlen : r.data.length ≤ 1000000 := hr
  have hmod : r.data.length % 2 ^ 32 = r.data.length := Nat.mod_eq_of_lt (by omega)
  have hbe : ofBe (toBe 4 (r.data.length % 2 ^ 32)) = r.data.length := by
    rw [hmod]
    exact ofBe_toBe (by norm_num; omega)
  have hnumber : UInt16.ofNat (ofBe (toBe 2 r.number.toNat)) = r.number := by
    rw [ofBe_toBe (by simpa using r.number.toNat_lt)]
    exact UInt16.ofNat_toNat
  have hsplit := decode_split r.id ⟨toBe 2 r.number.toNat, toBe_length _ _⟩
    ⟨toBe 4 (r.data.length % 2 ^ 32), toBe_length _ _⟩ (r.data ++ r.flag :: rest) (by simp)
  have hok : ¬ (r.data.length > maxLen ∨ r.data.length ≥ (r.data ++ r.flag :: rest).length) := by
    simp only [maxLen, length_append, length_cons]
    omega
  simp only [hbe, hnumber, if_neg hok] at hsplit
  have henc : r.encode ++ rest = r.id.val ++ (toBe 2 r.number.toNat ++
      (toBe 4 (r.data.length % 2 ^ 32) ++ (r.data ++ r.flag :: rest))) := by
    simp [RawFrame.encode]
  rw [henc, hsplit, r.encode_length]
  simp [RawFrame.toFrame]

theorem exists_split (b : Bytes) (h : 22 ≤ b.length) :
    ∃ (id : FixedBytes 16) (number : FixedBytes 2) (len : FixedBytes 4) (tail : Bytes),
      b = id.val ++ (number.val ++ (len.val ++ tail)) := by
  refine ⟨⟨b.take 16, ?_⟩, ⟨(b.drop 16).take 2, ?_⟩, ⟨(b.drop 18).take 4, ?_⟩, b.drop 22, ?_⟩
  · simp only [length_take]
    omega
  · simp only [length_take, length_drop]
    omega
  · simp only [length_take, length_drop]
    omega
  · have h2 : (b.drop 18).take 4 ++ b.drop 22 = b.drop 18 := by
      rw [show b.drop 22 = (b.drop 18).drop 4 by rw [drop_drop]]
      exact take_append_drop 4 _
    have h1 : (b.drop 16).take 2 ++ b.drop 18 = b.drop 16 := by
      rw [show b.drop 18 = (b.drop 16).drop 2 by rw [drop_drop]]
      exact take_append_drop 2 _
    rw [h2, h1, take_append_drop]

theorem decode_eq_ok {b : Bytes} {n : ℕ} {f : Frame} (h : decode b = .ok (n, f)) :
    ∃ (r : RawFrame) (rest : Bytes), r.Bounded ∧ b = r.encode ++ rest ∧ n = r.encode.length ∧
      f = r.toFrame := by
  have hlong : 23 ≤ b.length := by
    by_contra hshort
    rw [decode, if_pos (by simp only [encodedOverhead]; omega)] at h
    cases h
  obtain ⟨id, number, len, tail, rfl⟩ := exists_split b (by omega)
  have hnumber := number.2
  have hlen := len.2
  simp only [length_append] at hlong
  have htail : tail ≠ [] := length_pos_iff.mp (by omega)
  rw [decode_split id number len tail htail] at h
  split_ifs at h with hbad
  simp only [not_or, not_lt, not_le] at hbad
  obtain ⟨rfl, rfl⟩ := h
  -- the data is the first `m` bytes of the tail, the flag is the byte behind it
  generalize hm : ofBe len.val = m at hbad
  have hget : tail = tail.take m ++ tail[m] :: tail.drop (m + 1) := by
    rw [← drop_eq_getElem_cons hbad.2, take_append_drop]
  have hdata : (tail.take m).length = m := length_take_of_le (le_of_lt hbad.2)
  have hlenBytes : toBe 4 (m % 2 ^ 32) = len.val := by
    have hsmall : m < 2 ^ 32 := by
      have := hbad.1
      simp only [maxLen] at this
      omega
    rw [Nat.mod_eq_of_lt hsmall, ← hm]
    exact toBe_ofBe_of_length hlen
  have hnumberBytes : toBe 2 (UInt16.ofNat (ofBe number.val)).toNat = number.val := by
    have hlt := ofBe_lt number.val
    rw [hnumber] at hlt
    rw [UInt16.toNat_ofNat', Nat.mod_eq_of_lt (by simpa using hlt)]
    exact toBe_ofBe_of_length hnumber
  have henc : RawFrame.encode
      ⟨id, UInt16.ofNat (ofBe number.val), tail.take m, tail[m]⟩ ++ tail.drop (m + 1) =
      id.val ++ (number.val ++ (len.val ++ tail)) := by
    conv_rhs => rw [hget]
    simp only [RawFrame.encode, hdata, hlenBytes, hnumberBytes, append_assoc, singleton_append]
  refine ⟨⟨id, UInt16.ofNat (ofBe number.val), tail.take m, tail[m]⟩, tail.drop (m + 1),
    ?_, henc.symm, ?_, ?_⟩
  · simpa only [RawFrame.Bounded, hdata] using hbad.1
  · simp [RawFrame.encode_length, hdata]
  · have hflag : (tail[m]? == some 1) = (tail[m] == 1) := by
      rw [getElem?_eq_getElem hbad.2, Option.some_beq_some]
    rw [hflag]
    rfl

theorem decode_reads : Records.Reads decode RawFrame.Bounded RawFrame.encode RawFrame.toFrame where
  nonempty := RawFrame.encode_ne_nil
  complete := fun r rest hr => decode_raw r rest hr
  sound := fun _ _ _ h => decode_eq_ok h

/-- A payload is accepted exactly when it is a version byte and one or more records. -/
theorem parseFrames_eq_ok_iff (b : Bytes) (fs : List Frame) :
    parseFrames b = .ok fs ↔ ∃ rs : List RawFrame, rs ≠ [] ∧ (∀ r ∈ rs, r.Bounded) ∧
      b = derivationVersion0 :: rs.flatMap RawFrame.encode ∧ fs = rs.map RawFrame.toFrame := by
  constructor
  · intro h
    unfold parseFrames at h
    split at h
    · cases h
    · split_ifs at h with hversion
      split at h
      · cases h
      · rename_i offset frames hwalk
        obtain ⟨-, rs, hrs, rfl, rfl⟩ := (Records.walk_eq_ok_iff decode_reads _ _ _).mp hwalk
        split_ifs at h with hmismatch hempty
        cases h
        refine ⟨rs, ?_, hrs, ?_, rfl⟩
        · rintro rfl
          exact hempty rfl
        · rw [not_ne_iff.mp hversion]
  · rintro ⟨rs, hne, hrs, rfl, rfl⟩
    have hwalk := (Records.walk_eq_ok_iff decode_reads (rs.flatMap RawFrame.encode) _
      (rs.map RawFrame.toFrame)).mpr ⟨rfl, rs, hrs, rfl, rfl⟩
    have hempty : (rs.map RawFrame.toFrame).isEmpty = false := by simpa using hne
    simp only [parseFrames, hwalk, ne_eq, not_true_eq_false, if_false, hempty, Bool.false_eq_true]

end Frame

/-! ## Canonical payloads -/

/-- `b` is the payload of `fs` as the encoder writes it. -/
def Frame.Canonical (b : Bytes) (fs : List Frame) : Prop :=
  fs ≠ [] ∧ (∀ f ∈ fs, f.data.length ≤ Frame.maxLen) ∧ b = derivationVersion0 :: fs.flatMap Frame.encode

/-- Every record of `b` ends in 0 or 1. -/
def Frame.FlagsCanonical (b : Bytes) : Prop :=
  ∀ rs : List RawFrame, (∀ r ∈ rs, r.Bounded) →
    b = derivationVersion0 :: rs.flatMap RawFrame.encode → ∀ r ∈ rs, r.flag = 0 ∨ r.flag = 1

namespace RawFrame

/-- The record that the frame read from `r` is encoded as. -/
def normalize (r : RawFrame) : RawFrame := r.toFrame.toRaw

theorem normalize_eq_iff (r : RawFrame) : r.normalize = r ↔ r.flag = 0 ∨ r.flag = 1 := by
  cases r with
  | mk id number data flag =>
    by_cases h1 : flag = 1
    · subst h1
      simp [normalize, toFrame, Frame.toRaw]
    · simp only [normalize, toFrame, Frame.toRaw, mk.injEq, true_and, h1, or_false, beq_iff_eq]
      exact eq_comm

/-- Two record sequences of the same shape with the same bytes have the same flags. -/
theorem normalize_eq_of_flatMap (rs : List RawFrame)
    (h : rs.flatMap (fun r => r.normalize.encode) = rs.flatMap encode) :
    ∀ r ∈ rs, r.normalize = r := by
  induction rs with
  | nil => simp
  | cons r rs ih =>
    obtain ⟨hhead, htail⟩ := append_inj h (by rw [encode_length, encode_length]; rfl)
    intro x hx
    rcases mem_cons.mp hx with rfl | hx
    · cases x
      simpa [normalize, toFrame, Frame.toRaw, encode] using hhead
    · exact ih htail x hx

end RawFrame

namespace Frame

/-- A canonical payload is read back as the frames it was written from. -/
theorem parseFrames_canonical {b : Bytes} {fs : List Frame} (h : Canonical b fs) :
    parseFrames b = .ok fs := by
  obtain ⟨hne, hlen, rfl⟩ := h
  refine (parseFrames_eq_ok_iff _ _).mpr ⟨fs.map toRaw, by simpa using hne, ?_, ?_, ?_⟩
  · intro r hr
    obtain ⟨f, hf, rfl⟩ := mem_map.mp hr
    exact hlen f hf
  · rw [flatMap_map]
    rfl
  · simp [Function.comp_def]

/-- The parser accepts exactly the canonical payloads on the strings whose records all end in 0
or 1, and on no other string. -/
theorem parseFrames_exact_iff (b : Bytes) :
    (∀ fs, parseFrames b = .ok fs ↔ Canonical b fs) ↔ FlagsCanonical b := by
  constructor
  · intro h rs hrs hb
    by_cases hne : rs = []
    · simp [hne]
    have hparse := (parseFrames_eq_ok_iff b _).mpr ⟨rs, hne, hrs, hb, rfl⟩
    obtain ⟨-, -, hcanon⟩ := (h _).mp hparse
    rw [hb, cons.injEq, flatMap_map] at hcanon
    intro r hr
    exact r.normalize_eq_iff.mp (RawFrame.normalize_eq_of_flatMap rs hcanon.2.symm r hr)
  · intro h fs
    refine ⟨fun hparse => ?_, parseFrames_canonical⟩
    obtain ⟨rs, hne, hrs, hb, rfl⟩ := (parseFrames_eq_ok_iff b fs).mp hparse
    have hflags := h rs hrs hb
    refine ⟨by simpa using hne, ?_, ?_⟩
    · intro f hf
      obtain ⟨r, hr, rfl⟩ := mem_map.mp hf
      exact hrs r hr
    · have hsame : rs.map (fun r => r.toFrame.encode) = rs.map RawFrame.encode := by
        apply map_congr_left
        intro r hr
        exact congrArg RawFrame.encode (r.normalize_eq_iff.mpr (hflags r hr))
      rw [hb, flatMap_map, flatMap_def, flatMap_def, hsame]

/-- A payload of one empty frame whose last byte is 2. -/
def strayFlagPayload : Bytes := derivationVersion0 :: (replicate 22 0 ++ [2])

/-- The stray byte is read as `false`, so the payload is accepted although no encoder writes it. -/
theorem strayFlagPayload_accepted :
    parseFrames strayFlagPayload = .ok [⟨FixedBytes.zero 16, 0, [], false⟩] ∧
      ¬ Canonical strayFlagPayload [⟨FixedBytes.zero 16, 0, [], false⟩] := by
  refine ⟨by decide +kernel, ?_⟩
  rintro ⟨-, -, h⟩
  exact absurd h (by decide)

end Frame

end NodeReth
