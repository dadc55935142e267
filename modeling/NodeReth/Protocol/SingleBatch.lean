import NodeReth.Lib.Rlp
import NodeReth.Genesis.Rollup

/-!
# Single batches

A `SingleBatch` carries one L2 block. In a channel it stands as an RLP byte string that holds the
batch type byte and the RLP list of its fields.
-/

namespace NodeReth

abbrev B256 := FixedBytes 32

structure BlockNumHash where
  number : ℕ
  hash : B256
  deriving DecidableEq

/-- The block references that the stages pass around. -/
structure BlockInfo where
  hash : B256
  number : ℕ
  parentHash : B256
  timestamp : ℕ
  deriving DecidableEq

structure SingleBatch where
  parentHash : B256
  epochNum : ℕ
  epochHash : B256
  timestamp : ℕ
  transactions : List Bytes
  deriving DecidableEq

/-- `BatchType::Single`, the type byte in front of a single batch. -/
def batchTypeSingle : UInt8 := 0

namespace SingleBatch

open RlpFormat

/-- The derived codec: the list of the fields. -/
def encode (batch : SingleBatch) : Bytes :=
  writeList (writeString batch.parentHash.val ++ (writeNat batch.epochNum ++
    (writeString batch.epochHash.val ++ (writeNat batch.timestamp ++
      writeList (batch.transactions.flatMap writeString)))))

/-- The bytes of one batch in a channel: string header, type byte, payload. -/
def batchWire (batch : SingleBatch) : Bytes :=
  header 0x80 (1 + batch.encode.length) ++ batchTypeSingle :: batch.encode

end SingleBatch

end NodeReth
