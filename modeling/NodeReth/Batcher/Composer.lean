import NodeReth.Protocol.SingleBatch
import NodeReth.Batcher.Stream

/-!
# Block composition

`BatchComposer::block_to_single_batch`: the user transactions of an L2 block, encoded, behind the
L1 origin that its first deposit carries. A header is kept with its hash, and of the L1 info deposit
only the identifier of the L1 block.
-/

namespace NodeReth

/-- A transaction as the batcher sees it: a deposit with its input, or a user transaction with its
EIP-2718 encoding. -/
inductive Batcher.BaseTxEnvelope
  | deposit (input : Bytes)
  | user (encoded2718 : Bytes)
  deriving DecidableEq

structure Header where
  number : ℕ
  parentHash : B256
  timestamp : ℕ
  /-- `hash_slow()` of the header. -/
  hash : B256
  deriving DecidableEq

structure BaseBlock where
  header : Header
  transactions : List Batcher.BaseTxEnvelope
  deriving DecidableEq

inductive BatchComposeError
  | emptyBlock
  | notDepositTx
  | l1InfoDecode
  deriving DecidableEq, Repr

/-! ## The L1 info deposit -/

/-- The calldata layouts of `L1BlockInfoTx`. -/
inductive L1BlockInfoTx
  | bedrock
  | ecotone
  | isthmus
  | jovian
  deriving DecidableEq, Repr

namespace L1BlockInfoTx

def selector : L1BlockInfoTx → Bytes
  | bedrock => [0x01, 0x5d, 0x8e, 0xb9]
  | ecotone => [0x44, 0x0a, 0x5e, 0x20]
  | isthmus => [0x09, 0x89, 0x99, 0xbe]
  | jovian => [0x3d, 0xb6, 0xbe, 0x2b]

/-- `L1_INFO_TX_LEN` -/
def len : L1BlockInfoTx → ℕ
  | bedrock => 4 + 32 * 8
  | ecotone => 4 + 32 * 5
  | isthmus => 4 + 32 * 5 + 4 + 8
  | jovian => 4 + 32 * 5 + 4 + 8 + 2

/-- `decode_calldata` followed by `id`: every layout has the number and the hash of the L1 block at
the same positions. -/
def decodeCalldata (r : Bytes) : Option BlockNumHash :=
  match [bedrock, ecotone, isthmus, jovian].find? (·.selector = r.take 4) with
  | none => none
  | some layout =>
    if r.length ≠ layout.len then none
    else
      match FixedBytes.tryFrom 32 (r.slice 100 132) with
      | none => none
      | some hash => some ⟨Bytes.ofBe (r.slice 28 36), hash⟩

end L1BlockInfoTx

namespace BatchComposer

def userTransactions (block : BaseBlock) : List Bytes :=
  block.transactions.filterMap fun tx =>
    match tx with
    | .deposit _ => none
    | .user encoded => some encoded

def blockToSingleBatch (block : BaseBlock) : Except BatchComposeError SingleBatch :=
  match block.transactions with
  | [] => .error .emptyBlock
  | .user _ :: _ => .error .notDepositTx
  | .deposit input :: _ =>
    match L1BlockInfoTx.decodeCalldata input with
    | none => .error .l1InfoDecode
    | some epoch =>
      .ok
        { parentHash := block.header.parentHash
          epochNum := epoch.number
          epochHash := epoch.hash
          timestamp := block.header.timestamp
          transactions := userTransactions block }

end BatchComposer

end NodeReth
