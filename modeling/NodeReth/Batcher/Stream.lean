import NodeReth.Lib.Stored
import NodeReth.Lib.Words

/-!
# The compression stream of a channel

`CompressionStream` of `batcher/comp` over the Brotli writer. The writer is a package outside the
repository: `Brotli` is its interface as the stream uses it. Writing returns the writer behind the
call, the bytes that it pushed into its output buffer and whether it failed; finishing returns the
bytes that it pushes last.
-/

namespace NodeReth

open Words

inductive CompressionError
  | brotli
  deriving DecidableEq, Repr

/-- Encoder quality, a number from 0 to 11. -/
abbrev BrotliLevel := Fin 12

/-- Prepended to a Brotli channel. -/
def BrotliLevel.channelVersion : UInt8 := 1

structure Brotli where
  Writer : Type
  newWriter : BrotliLevel → Writer
  writeAll : Writer → Bytes → Writer × Bytes × Except CompressionError Unit
  intoInner : Writer → Bytes
  /-- `BrotliEncoderMaxCompressedSize` -/
  maxCompressedSize : ℕ → ℕ

/-- The bound of the package: four bytes for every block of 16384, an overhead for the rest of the
input, which is a byte longer behind such a block, and room for a magic number. -/
def Brotli.encoderMaxCompressedSize (n : ℕ) : ℕ :=
  if n = 0 then 1 + 16
  else n + (2 + 4 * (n / 16384) + (if n < 16384 then 3 else 4) + 1) + 16

/-- A writer that keeps its input until it finishes, with the bound of the package. -/
def Brotli.buffering (finish : Bytes → Bytes) : Brotli where
  Writer := Bytes
  newWriter _ := []
  writeAll w input := (w ++ input, [], .ok ())
  intoInner := finish
  maxCompressedSize := encoderMaxCompressedSize

def Brotli.stored : Brotli := Brotli.buffering Stored.encode

/-- A streaming compressor, the bytes in its output buffer and the count of bytes returned. -/
structure CompressionStream (br : Brotli) where
  compressor : br.Writer
  buffer : Bytes
  outputSize : ℕ

namespace CompressionStream

variable {br : Brotli}

def new (br : Brotli) (level : BrotliLevel) : CompressionStream br where
  compressor := br.newWriter level
  buffer := [BrotliLevel.channelVersion]
  outputSize := 0

/-- Appends input and takes what is in the output buffer; after a failure it stays there. -/
def append (s : CompressionStream br) (input : Bytes) :
    Except CompressionError Bytes × CompressionStream br :=
  match br.writeAll s.compressor input with
  | (w, out, .error e) => (.error e, ⟨w, s.buffer ++ out, s.outputSize⟩)
  | (w, out, .ok ()) =>
    let output := s.buffer ++ out
    (.ok output, ⟨w, [], s.outputSize + output.length⟩)

/-- An upper bound for a finished stream of `inputSize` bytes, the version byte included. -/
def maxOutputSize (_ : CompressionStream br) (inputSize : ℕ) : ℕ :=
  satAdd (br.maxCompressedSize inputSize) 1

def finish (s : CompressionStream br) : Except CompressionError Bytes :=
  .ok (s.buffer ++ br.intoInner s.compressor)

/-- `Fed level failures inputs out s`: the stream took these inputs, returned these bytes and is `s`
now. Where `failures` holds, inputs that the compressor failed on may have come in between. -/
inductive Fed (level : BrotliLevel) (failures : Prop) :
    List Bytes → Bytes → CompressionStream br → Prop
  | new : Fed level failures [] [] (CompressionStream.new br level)
  | append {inputs input out output s s'} (h : Fed level failures inputs out s)
      (happend : s.append input = (.ok output, s')) :
      Fed level failures (inputs ++ [input]) (out ++ output) s'
  | failed {inputs input out s s' e} (hfailures : failures) (h : Fed level failures inputs out s)
      (happend : s.append input = (.error e, s')) : Fed level failures inputs out s'

/-- A stream that buffers returns the version byte at once and the rest at the end. -/
theorem Fed.buffering {finish : Bytes → Bytes} {level : BrotliLevel} {failures : Prop}
    {inputs : List Bytes} {out : Bytes} {s : CompressionStream (Brotli.buffering finish)}
    (h : Fed level failures inputs out s) :
    out ++ s.buffer = [BrotliLevel.channelVersion] ∧ s.compressor = inputs.flatten := by
  induction h with
  | new => exact ⟨rfl, rfl⟩
  | @append inputs input out output s s' _ happend ih =>
    obtain ⟨hout, hs'⟩ := Prod.mk.inj happend
    obtain ⟨hbuffer, hinput⟩ := ih
    obtain rfl := Except.ok.inj hout
    subst hs'
    refine ⟨?_, ?_⟩
    · rw [← hbuffer]
      simp
    · rw [List.flatten_append, List.flatten_singleton, ← hinput]
  | failed _ _ happend => cases (Prod.mk.inj happend).1

end CompressionStream

end NodeReth
