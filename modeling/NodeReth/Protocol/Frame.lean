import NodeReth.Lib.Records

/-!
# Frames

The frame codec of `consensus/protocol/src/frame.rs`: `Frame.encode` writes
`channel_id ++ frame_number ++ frame_data_length ++ frame_data ++ is_last`, `Frame.decode` reads
one frame off the front of a byte string and `Frame.parseFrames` reads the whole payload of an L1
transaction or blob, a version byte followed by one or more frames.
-/

namespace NodeReth

open Bytes List

abbrev ChannelId := FixedBytes 16

instance : LawfulBEq ChannelId := inferInstance

def derivationVersion0 : UInt8 := 0

/-- Derivation payload bytes that fit in one blob. -/
def blobMaxDataSize : ℕ := (4 * 31 + 3) * 1024 - 4

def blobDerivationPrefixSize : ℕ := 1

/-- The largest encoded frame that fits in one blob behind the version byte. -/
def maxBlobFrameSize : ℕ := blobMaxDataSize - blobDerivationPrefixSize

inductive FrameDecodingError
  | dataTooLarge (len : ℕ)
  | dataTooShort (len : ℕ)
  | invalidId
  | invalidNumber
  | invalidDataLength
  deriving DecidableEq, Repr

inductive FrameParseError
  | frameDecodingError (e : FrameDecodingError)
  | noFrames
  | unsupportedVersion
  | dataLengthMismatch
  | noFramesDecoded
  deriving DecidableEq, Repr

structure Frame where
  id : ChannelId
  number : UInt16
  data : Bytes
  isLast : Bool
  deriving DecidableEq

namespace Frame

/-- Metadata bytes of an encoded frame. -/
def encodedOverhead : ℕ := 16 + 2 + 4 + 1

/-- Bytes charged for a frame on top of its data. -/
def overhead : ℕ := 200

/-- The most data bytes a decoded frame may carry. -/
def maxLen : ℕ := 1000000

def encodedLen (f : Frame) : ℕ := encodedOverhead + f.data.length

/-- Appends the encoded frame; the length field is a `u32`, so longer data would be cut there. -/
def encodeInto (f : Frame) (encoded : Bytes) : Bytes :=
  encoded ++ f.id.val ++ toBe 2 f.number.toNat ++ toBe 4 (f.data.length % 2 ^ 32) ++ f.data ++
    [if f.isLast then 1 else 0]

def encode (f : Frame) : Bytes := f.encodeInto []

/-- Size charged against the channel limits of the reader. -/
def size (f : Frame) : ℕ := f.data.length + overhead

/-- Reads one frame; the result says how many bytes it took. -/
def decode (encoded : Bytes) : Except FrameDecodingError (ℕ × Frame) :=
  if encoded.length < encodedOverhead then .error (.dataTooShort encoded.length)
  else
    match FixedBytes.tryFrom 16 (encoded.slice 0 16) with
    | none => .error .invalidId
    | some id =>
      match FixedBytes.tryFrom 2 (encoded.slice 16 18) with
      | none => .error .invalidNumber
      | some number =>
        match FixedBytes.tryFrom 4 (encoded.slice 18 22) with
        | none => .error .invalidDataLength
        | some len =>
          let dataLen := ofBe len.val
          if dataLen > maxLen ∨ dataLen ≥ encoded.length - (encodedOverhead - 1) then
            .error (.dataTooLarge dataLen)
          else
            -- every last byte other than 1 is read as `false`
            .ok (encodedOverhead + dataLen,
              { id := id
                number := UInt16.ofNat (ofBe number.val)
                data := encoded.slice 22 (22 + dataLen)
                isLast := encoded[22 + dataLen]? == some 1 })

/-- Reads the payload of one L1 transaction or blob. -/
def parseFrames (encoded : Bytes) : Except FrameParseError (List Frame) :=
  match encoded with
  | [] => .error .noFrames
  | version :: data =>
    if version ≠ derivationVersion0 then .error .unsupportedVersion
    else
      match Records.walk decode data.length data 0 [] with
      | .error e => .error (.frameDecodingError e)
      | .ok (offset, frames) =>
        if offset ≠ data.length then .error .dataLengthMismatch
        else if frames.isEmpty then .error .noFramesDecoded
        else .ok frames

end Frame

/-! ## The records that are read

A record has the shape of an encoded frame with any byte in the place of `is_last`. -/

/-- An encoded frame with its last byte as it stands on the wire. -/
structure RawFrame where
  id : ChannelId
  number : UInt16
  data : Bytes
  flag : UInt8
  deriving DecidableEq

namespace RawFrame

def encode (r : RawFrame) : Bytes :=
  r.id.val ++ toBe 2 r.number.toNat ++ toBe 4 (r.data.length % 2 ^ 32) ++ r.data ++ [r.flag]

def toFrame (r : RawFrame) : Frame := ⟨r.id, r.number, r.data, r.flag == 1⟩

def Bounded (r : RawFrame) : Prop := r.data.length ≤ Frame.maxLen

theorem encode_length (r : RawFrame) : r.encode.length = Frame.encodedOverhead + r.data.length := by
  have hid := r.id.2
  simp only [encode, length_append, toBe_length, length_singleton, Frame.encodedOverhead]
  omega

theorem encode_ne_nil (r : RawFrame) : r.encode ≠ [] := by
  intro h
  have hlen := r.encode_length
  rw [h, Frame.encodedOverhead, length_nil] at hlen
  omega

end RawFrame

namespace Frame

def toRaw (f : Frame) : RawFrame := ⟨f.id, f.number, f.data, if f.isLast then 1 else 0⟩

@[simp] theorem toFrame_toRaw (f : Frame) : f.toRaw.toFrame = f := by
  cases f with
  | mk id number data isLast => cases isLast <;> rfl

theorem encode_length (f : Frame) : f.encode.length = f.encodedLen :=
  f.toRaw.encode_length

theorem decode_split (id : FixedBytes 16) (number : FixedBytes 2) (len : FixedBytes 4)
    (tail : Bytes) (htail : tail ≠ []) :
    decode (id.val ++ (number.val ++ (len.val ++ tail))) =
      if ofBe len.val > maxLen ∨ ofBe len.val ≥ tail.length then
        .error (.dataTooLarge (ofBe len.val))
      else
        .ok (encodedOverhead + ofBe len.val,
          ⟨id, UInt16.ofNat (ofBe number.val), tail.take (ofBe len.val),
            tail[ofBe len.val]? == some 1⟩) := by
  have hpos : 0 < tail.length := length_pos_iff.mpr htail
  have hid := id.2
  have hnumber := number.2
  have hlen := len.2
  have htotal : (id.val ++ (number.val ++ (len.val ++ tail))).length = 22 + tail.length := by
    simp only [length_append]
    omega
  have h0 : slice (id.val ++ (number.val ++ (len.val ++ tail))) 0 16 = id.val :=
    slice_append_left hid
  have h1 : slice (id.val ++ (number.val ++ (len.val ++ tail))) 16 18 = number.val := by
    exact (slice_append_right hid (i := 0)).trans (slice_append_left hnumber)
  have h2 : slice (id.val ++ (number.val ++ (len.val ++ tail))) 18 22 = len.val := by
    exact (slice_append_right hid).trans
      ((slice_append_right hnumber (i := 0)).trans (slice_append_left hlen))
  have hdrop : (id.val ++ (number.val ++ (len.val ++ tail))).drop 22 = tail := by
    rw [← append_assoc, ← append_assoc]
    exact drop_left' (by simp [hid, hnumber, hlen])
  have h3 : slice (id.val ++ (number.val ++ (len.val ++ tail))) 22 (22 + ofBe len.val) =
      tail.take (ofBe len.val) := by
    rw [slice]
    congr 1
    omega
  have h4 : (id.val ++ (number.val ++ (len.val ++ tail)))[22 + ofBe len.val]? =
      tail[ofBe len.val]? := by
    rw [← hdrop, getElem?_drop, hdrop]
  have hoverhead : ¬ 22 + tail.length < encodedOverhead := by
    simp only [encodedOverhead]
    omega
  have hrest : 22 + tail.length - (encodedOverhead - 1) = tail.length := by
    simp only [encodedOverhead]
    omega
  unfold decode
  simp [htotal, if_neg hoverhead, h0, h1, h2, h3, h4, hrest]

end Frame

end NodeReth
