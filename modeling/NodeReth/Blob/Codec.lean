import NodeReth.Protocol.Frame

/-!
# The blob codec

`BlobEncoder::encode` and `BlobDecoder::decode` of `batcher/blobs`, and `BlobData::decode` of
`consensus/derive`. A blob is 4096 field elements of 32 bytes; one round packs 127 payload bytes
into four of them: 31 bytes each behind a high byte, and three more bytes, in six-bit pieces, in
the four high bytes. Round 0 gives the first four bytes to the version and the payload length.

The two decoders read field elements with the same arithmetic and report errors of their own, so
the reading is one definition with the error as a parameter.
-/

namespace NodeReth

open Bytes List

def bytesPerBlob : ℕ := 131072

/-- A blob of 4096 field elements. -/
abbrev Blob := FixedBytes bytesPerBlob

/-- The value of `VERSIONED_HASH_VERSION_KZG`, used as the index of the version byte. -/
def versionedHashVersionKzg : ℕ := 1

/-- The byte at position `i` of a buffer that is known to reach that far. -/
def byteAt (b : Bytes) (i : ℕ) : UInt8 := b.getD i 0

theorem byteAt_append_right (a b : Bytes) (i : ℕ) {n : ℕ} (h : a.length = n) :
    byteAt (a ++ b) (n + i) = byteAt b i := by
  subst h
  rw [byteAt, byteAt, getD_eq_getElem?_getD, getD_eq_getElem?_getD,
    getElem?_append_right (by omega), Nat.add_sub_cancel_left]

/-! ## The encoder -/

inductive BlobEncodeError
  | dataTooLarge (size : ℕ)
  deriving DecidableEq, Repr

namespace BlobEncoder

def blobEncodingVersion : UInt8 := 0

def blobEncodingRounds : ℕ := 1024

/-- A high byte that carries the low six bits of `x`. -/
def highLow (x : UInt8) : UInt8 := x &&& 0x3F

/-- The second high byte: the top two bits of `x` over the low four of `y`. -/
def highMid (x y : UInt8) : UInt8 :=
  ((x >>> 6) &&& (0x03 : UInt8)) <<< (4 : UInt8) ||| (y &&& (0x0F : UInt8))

/-- The fourth high byte: the top two bits of `z` over the top four of `y`. -/
def highTop (y z : UInt8) : UInt8 :=
  ((y >>> 4) &&& (0x0F : UInt8)) ||| (((z >>> 6) &&& (0x03 : UInt8)) <<< (4 : UInt8))

/-- Writes the high bytes of the four field elements at `pos`, which carry `x`, `y` and `z`. -/
def writeHighBytes (out : Bytes) (pos : ℕ) (x y z : UInt8) : Bytes :=
  (((out.set pos (highLow x)).set (pos + 32) (highMid x y)).set (pos + 64) (highLow z)).set
    (pos + 96) (highTop y z)

/-- Round 0: the header and 123 bytes of the input. -/
def encodeRound0 (input : Bytes) (len : ℕ) (out : Bytes) : Bytes :=
  let lenBe := toBe 4 (len % 2 ^ 32)
  let out : Bytes := out.set versionedHashVersionKzg blobEncodingVersion
  let out : Bytes := out.set 2 (byteAt lenBe 1)
  let out : Bytes := out.set 3 (byteAt lenBe 2)
  let out : Bytes := out.set 4 (byteAt lenBe 3)
  let out := out.blit 5 (input.slice 0 27)
  let x := byteAt input 27
  let out := out.blit 33 (input.slice 28 59)
  let y := byteAt input 59
  let out := out.blit 65 (input.slice 60 91)
  let z := byteAt input 91
  let out := out.blit 97 (input.slice 92 123)
  writeHighBytes out 0 x y z

/-- A later round: 127 bytes of the input from `ipos` on go to `blobPos`. -/
def encodeRound (input out : Bytes) (ipos blobPos : ℕ) : Bytes :=
  let out := out.blit (blobPos + 1) (input.slice ipos (ipos + 31))
  let x := byteAt input (ipos + 31)
  let out := out.blit (blobPos + 33) (input.slice (ipos + 32) (ipos + 63))
  let y := byteAt input (ipos + 63)
  let out := out.blit (blobPos + 65) (input.slice (ipos + 64) (ipos + 95))
  let z := byteAt input (ipos + 95)
  let out := out.blit (blobPos + 97) (input.slice (ipos + 96) (ipos + 127))
  writeHighBytes out blobPos x y z

/-- The remaining rounds; they stop once the payload of `len` bytes is written. -/
def encodeRounds (input : Bytes) (len : ℕ) : ℕ → Bytes → ℕ → ℕ → Bytes
  | 0, out, _, _ => out
  | n + 1, out, ipos, blobPos =>
    if ipos ≥ len then out
    else encodeRounds input len n (encodeRound input out ipos blobPos) (ipos + 127) (blobPos + 128)

@[simp] theorem writeHighBytes_length (out : Bytes) (pos : ℕ) (x y z : UInt8) :
    (writeHighBytes out pos x y z).length = out.length := by
  simp [writeHighBytes]

@[simp] theorem encodeRound0_length (input : Bytes) (len : ℕ) (out : Bytes) :
    (encodeRound0 input len out).length = out.length := by
  simp [encodeRound0]

@[simp] theorem encodeRound_length (input out : Bytes) (ipos blobPos : ℕ) :
    (encodeRound input out ipos blobPos).length = out.length := by
  simp [encodeRound]

@[simp] theorem encodeRounds_length (input : Bytes) (len n : ℕ) (out : Bytes) (ipos blobPos : ℕ) :
    (encodeRounds input len n out ipos blobPos).length = out.length := by
  induction n generalizing out ipos blobPos with
  | zero => rfl
  | succ n ih =>
    rw [encodeRounds]
    split_ifs
    · rfl
    · rw [ih, encodeRound_length]

/-- The payload padded with zeros to the size of a full blob. -/
def padInput (data : Bytes) : Bytes := data ++ replicate (blobMaxDataSize - data.length) 0

def encode (data : Bytes) : Except BlobEncodeError Blob :=
  if data.length > blobMaxDataSize then .error (.dataTooLarge data.length)
  else
    .ok ⟨encodeRounds (padInput data) data.length (blobEncodingRounds - 1)
      (encodeRound0 (padInput data) data.length (replicate bytesPerBlob 0)) 123 128, by simp⟩

/-- Packs frames into one blob behind the derivation version. -/
def encodePacked (frames : List Frame) : Except BlobEncodeError Blob :=
  encode (derivationVersion0 :: frames.flatMap Frame.encode)

end BlobEncoder

/-! ## Reading field elements -/

/-- What a decoder has read so far: the output buffer and the next positions in it and in the
blob. -/
structure BlobCursor where
  output : Bytes
  outputPos : ℕ
  inputPos : ℕ

namespace BlobCursor

variable {ε : Type}

/-- Reads one field element; `invalid` is the error for a high byte with one of its two top bits
set. -/
def decodeFieldElement (invalid : ℕ → ε) (data : Bytes) (c : BlobCursor) :
    Except ε (UInt8 × BlobCursor) :=
  if byteAt data c.inputPos &&& 0b11000000 ≠ 0 then .error (invalid c.inputPos)
  else
    .ok (byteAt data c.inputPos,
      { output := c.output.blit c.outputPos (data.slice (c.inputPos + 1) (c.inputPos + 32))
        outputPos := c.outputPos + 32
        inputPos := c.inputPos + 32 })

/-- Six low bits of `a` below the bits 4 and 5 of `b`. -/
def joinSix (a b : UInt8) : UInt8 :=
  (a &&& (0b00111111 : UInt8)) ||| ((b &&& (0b00110000 : UInt8)) <<< (2 : UInt8))

/-- Four low bits of `a` below the four low bits of `b`. -/
def joinFour (a b : UInt8) : UInt8 :=
  (a &&& (0b00001111 : UInt8)) ||| ((b &&& (0b00001111 : UInt8)) <<< (4 : UInt8))

/-- Puts the three bytes spread over four high bytes into the gaps left for them. -/
def reassembleBytes (e0 e1 e2 e3 : UInt8) (c : BlobCursor) : BlobCursor :=
  let pos := c.outputPos - 1
  let x := joinSix e0 e1
  let y := joinFour e1 e3
  let z := joinSix e2 e3
  { c with
    output := ((c.output.set (pos - 32) z).set (pos - 32 * 2) y).set (pos - 32 * 3) x
    outputPos := pos }

/-- The last three field elements of a round, and the reassembly with the first high byte. -/
def decodeTail (invalid : ℕ → ε) (data : Bytes) (e0 : UInt8) (c : BlobCursor) :
    Except ε BlobCursor := do
  let (e1, c) ← c.decodeFieldElement invalid data
  let (e2, c) ← c.decodeFieldElement invalid data
  let (e3, c) ← c.decodeFieldElement invalid data
  return c.reassembleBytes e0 e1 e2 e3

/-- Round 0, whose first high byte is not checked. -/
def decodeRound0 (invalid : ℕ → ε) (data : Bytes) (c : BlobCursor) : Except ε BlobCursor :=
  c.decodeTail invalid data (byteAt data 0)

def decodeRound (invalid : ℕ → ε) (data : Bytes) (c : BlobCursor) : Except ε BlobCursor := do
  let (e0, c) ← c.decodeFieldElement invalid data
  c.decodeTail invalid data e0

/-- The remaining rounds; they stop once `length` payload bytes are read. -/
def decodeRounds (invalid : ℕ → ε) (data : Bytes) (length : ℕ) : ℕ → BlobCursor → Except ε BlobCursor
  | 0, c => .ok c
  | n + 1, c =>
    if c.outputPos ≥ length then .ok c
    else do
      let c ← c.decodeRound invalid data
      decodeRounds invalid data length n c

/-- All rounds, from the payload bytes of the first field element on. -/
def decodeAll (invalid : ℕ → ε) (data : Bytes) (length rounds : ℕ) : Except ε BlobCursor := do
  let output := blit (replicate blobMaxDataSize 0) 0 (data.slice 5 32)
  let c ← decodeRound0 invalid data ⟨output, 28, 32⟩
  decodeRounds invalid data length (rounds - 1) c

end BlobCursor

/-- The position of the first non-zero byte from `start` on. -/
def firstNonZero (b : Bytes) (start : ℕ) : Option ℕ :=
  ((b.drop start).findIdx? (· ≠ 0)).map (start + ·)

/-! ## The batcher's decoder -/

inductive BlobDecodeError
  | invalidFieldElement (offset : ℕ)
  | invalidEncodingVersion (version : UInt8)
  | invalidLength (length : ℕ)
  | nonZeroPadding (offset : ℕ)
  deriving DecidableEq, Repr

namespace BlobDecoder

def blobEncodingRounds : ℕ := 1024

def decode (blob : Blob) : Except BlobDecodeError Bytes :=
  let data := blob.val
  let version := byteAt data versionedHashVersionKzg
  if version ≠ 0 then .error (.invalidEncodingVersion version)
  else
    let length := ofBe [0, byteAt data 2, byteAt data 3, byteAt data 4]
    if length > blobMaxDataSize then .error (.invalidLength length)
    else do
      let c ← BlobCursor.decodeAll .invalidFieldElement data length blobEncodingRounds
      match firstNonZero c.output length with
      | some i => .error (.nonZeroPadding i)
      | none =>
        match firstNonZero data c.inputPos with
        | some i => .error (.nonZeroPadding i)
        | none => .ok (c.output.take length)

end BlobDecoder

/-! ## The decoder of the derivation pipeline -/

inductive BlobDecodingError
  | invalidFieldElement
  | invalidEncodingVersion
  | invalidLength
  | missingData
  deriving DecidableEq, Repr

/-- A blob, or the calldata in its place. -/
structure BlobData where
  data : Option Blob
  calldata : Option Bytes

namespace BlobData

def blobEncodingVersion : UInt8 := 0

def blobEncodingRounds : ℕ := 1024

def decode (b : BlobData) : Except BlobDecodingError Bytes :=
  match b.data with
  | none => .error .missingData
  | some blob =>
    let data := blob.val
    if byteAt data versionedHashVersionKzg ≠ blobEncodingVersion then
      .error .invalidEncodingVersion
    else
      let length := ofBe [0, byteAt data 2, byteAt data 3, byteAt data 4]
      if length > blobMaxDataSize then .error .invalidLength
      else do
        let c ← BlobCursor.decodeAll (fun _ => .invalidFieldElement) data length blobEncodingRounds
        if (c.output.drop length).any (· ≠ 0) then .error .invalidFieldElement
        else
          let output := c.output.take length
          if (data.slice c.inputPos bytesPerBlob).any (· ≠ 0) then .error .invalidFieldElement
          else .ok output

end BlobData

end NodeReth
