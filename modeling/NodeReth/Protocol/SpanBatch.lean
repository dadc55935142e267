import NodeReth.Protocol.SpanRebuild

/-!
# Span batches

`RawSpanBatch` of `protocol/src/batch/raw.rs`, with its prefix and its payload. `decode` reads them;
`derive` walks back from the last L1 origin to the origin of each block, rebuilds the transactions
and deals them out to the blocks.

Reading never faults. The derivation subtracts one from the origin number for every origin change and
adds the relative timestamp to the genesis time, without a check that the numbers of the prefix allow
either.
-/

namespace NodeReth.Span

open Bytes Consensus Fallible List Readers

/-! ## Prefix -/

structure SpanBatchPrefix where
  relTimestamp : UInt64
  l1OriginNum : UInt64
  parentCheck : FixedBytes 20
  l1OriginCheck : FixedBytes 20
  deriving DecidableEq

namespace SpanBatchPrefix

variable (varint : Bytes → Option (UInt64 × Bytes))

def decodeRelTimestamp : Reader Stop UInt64 := readVarint varint .relativeTimestamp

def decodeL1OriginNum : Reader Stop UInt64 := readVarint varint .l1OriginNumber

def decodeParentCheck : Reader Stop (FixedBytes 20) := takeFixed 20 (.decoding .parentCheck)

def decodeL1OriginCheck : Reader Stop (FixedBytes 20) := takeFixed 20 (.decoding .l1OriginCheck)

def decodePrefix : Reader Stop SpanBatchPrefix := do
  let relTimestamp ← decodeRelTimestamp varint
  let l1OriginNum ← decodeL1OriginNum varint
  let parentCheck ← decodeParentCheck
  let l1OriginCheck ← decodeL1OriginCheck
  return { relTimestamp, l1OriginNum, parentCheck, l1OriginCheck }

end SpanBatchPrefix

/-! ## Payload -/

structure SpanBatchPayload where
  blockCount : ℕ
  originBits : SpanBatchBits
  blockTxCounts : List ℕ
  txs : SpanBatchTransactions
  deriving DecidableEq

namespace SpanBatchPayload

variable (varint : Bytes → Option (UInt64 × Bytes))

def decodeBlockCount : Reader Stop ℕ := do
  let blockCount ← readVarint varint .blockCount
  rejectIf (maxSpanBatchElements < blockCount.toNat) (.err .tooBigSpanBatchSize)
  rejectIf (blockCount.toNat = 0) (.err .emptySpanBatch)
  return blockCount.toNat

def decodeOriginBits (blockCount : ℕ) : Reader Stop SpanBatchBits := readCountedBits blockCount

def decodeBlockTxCount : Reader Stop ℕ := do
  let blockTxCount ← readVarint varint .blockTxCounts
  rejectIf (maxSpanBatchElements < blockTxCount.toNat) (.err .tooBigSpanBatchSize)
  return blockTxCount.toNat

def decodeBlockTxCounts (blockCount : ℕ) : Reader Stop (List ℕ) :=
  readEach (fun _ => decodeBlockTxCount varint) (range blockCount)

/-- The sum of the counts, which has to stay in range on the way. -/
def totalTxCount (blockTxCounts : List ℕ) : Except Stop ℕ :=
  blockTxCounts.foldlM (fun acc blockTxCount =>
    if 2 ^ 64 ≤ acc + blockTxCount then .error (.err .tooBigSpanBatchSize)
    else .ok (acc + blockTxCount)) 0

def decodeTxs (blockTxCounts : List ℕ) : Reader Stop SpanBatchTransactions := do
  rejectIf (blockTxCounts = []) (.err .emptySpanBatch)
  let total ← liftM (totalTxCount blockTxCounts)
  rejectIf (maxSpanBatchElements < total) (.err .tooBigSpanBatchSize)
  SpanBatchTransactions.decode varint total

def decodePayload : Reader Stop SpanBatchPayload := do
  let blockCount ← decodeBlockCount varint
  let originBits ← decodeOriginBits blockCount
  let blockTxCounts ← decodeBlockTxCounts varint blockCount
  let txs ← decodeTxs varint blockTxCounts
  return { blockCount, originBits, blockTxCounts, txs }

end SpanBatchPayload

/-! ## Derivation -/

structure RawSpanBatch where
  batchPrefix : SpanBatchPrefix
  payload : SpanBatchPayload
  deriving DecidableEq

structure SpanBatchElement where
  epochNum : ℕ
  timestamp : ℕ
  transactions : List Bytes
  deriving DecidableEq

/-- A span batch without the configuration of its chain. -/
structure SpanBatch where
  parentCheck : FixedBytes 20
  l1OriginCheck : FixedBytes 20
  batches : List SpanBatchElement
  deriving DecidableEq

namespace RawSpanBatch

def decode (varint : Bytes → Option (UInt64 × Bytes)) : Reader Stop RawSpanBatch := do
  let batchPrefix ← SpanBatchPrefix.decodePrefix varint
  let payload ← SpanBatchPayload.decodePayload varint
  return { batchPrefix, payload }

/-- The origin number of the block before block `i`: a set bit says that the origin changed with the
block, and the first block has none before it. -/
def stepBack (bit : UInt8) (i l1OriginNumber : ℕ) : Except Stop ℕ :=
  if bit = 1 ∧ 0 < i then subOrFault l1OriginNumber 1 else .ok l1OriginNumber

/-- The origin numbers of the first `n` blocks, when the last of them has the given one. -/
def walkBack (originBits : SpanBatchBits) : ℕ → ℕ → Except Stop (List ℕ)
  | 0, _ => .ok []
  | i + 1, l1OriginNumber => do
    let bit ← orFail (originBits.getBit i) (.err (.decoding .l1OriginCheck))
    let next ← stepBack bit i l1OriginNumber
    let below ← walkBack originBits i next
    return below ++ [l1OriginNumber]

/-- `count` transactions from an index on. -/
def takeTxs (envelopedTxs : List Bytes) : ℕ → ℕ → Except Stop (List Bytes)
  | 0, _ => .ok []
  | count + 1, txIdx => do
    let tx ← indexOrFault envelopedTxs txIdx
    let rest ← takeTxs envelopedTxs count (txIdx + 1)
    return tx :: rest

section Derive

variable (raw : RawSpanBatch) (blockTime genesisTime chainId : UInt64)

/-- `genesis_time + rel_timestamp + block_time * i`. -/
def timestampAt (i : ℕ) : Except Stop ℕ := do
  let start ← addOrFault genesisTime.toNat raw.batchPrefix.relTimestamp.toNat
  let elapsed ← mulOrFault blockTime.toNat i
  addOrFault start elapsed

/-- The first elements, and the index of the next transaction. -/
def batchesTo (blockOriginNums : List ℕ) (envelopedTxs : List Bytes) :
    ℕ → Except Stop (List SpanBatchElement × ℕ)
  | 0 => .ok ([], 0)
  | i + 1 => do
    let (acc, txIdx) ← batchesTo blockOriginNums envelopedTxs i
    let count ← indexOrFault raw.payload.blockTxCounts i
    let transactions ← takeTxs envelopedTxs count txIdx
    let epochNum ← indexOrFault blockOriginNums i
    let timestamp ← raw.timestampAt blockTime genesisTime i
    return (acc ++ [{ epochNum, timestamp, transactions }], txIdx + count)

def derive (encode2718 : BaseTxEnvelope → Bytes) : Except Stop SpanBatch := do
  failIf (raw.payload.blockCount = 0) (.err .emptySpanBatch)
  let blockOriginNums ← walkBack raw.payload.originBits raw.payload.blockCount
    raw.batchPrefix.l1OriginNum.toNat
  let envelopedTxs ← raw.payload.txs.fullTxs chainId encode2718
  let (batches, _) ← raw.batchesTo blockTime genesisTime blockOriginNums envelopedTxs
    raw.payload.blockCount
  return {
    parentCheck := raw.batchPrefix.parentCheck
    l1OriginCheck := raw.batchPrefix.l1OriginCheck
    batches }

end Derive

end RawSpanBatch

/-! ## Reading does not fault -/

/-- What reading ensures of a payload. -/
structure SpanBatchPayload.WellFormed (payload : SpanBatchPayload) : Prop where
  blocks : 0 < payload.blockCount
  bits : payload.originBits.bytes.length = SpanBatchBits.bufferLen payload.blockCount
  counts : payload.blockTxCounts.length = payload.blockCount
  total : payload.blockTxCounts.sum = payload.txs.totalBlockTxCount
  data : payload.txs.txData.length = payload.txs.totalBlockTxCount

theorem SpanBatchPayload.WellFormed.getBit_isSome {payload : SpanBatchPayload}
    (hwf : payload.WellFormed) : ∀ i < payload.blockCount, (payload.originBits.getBit i).isSome :=
  fun _ hi => SpanBatchBits.getBit_isSome hwf.bits hi

section Reading

variable (varint : Bytes → Option (UInt64 × Bytes))

theorem meets_decodePrefix :
    Readers.Meets IsFault (fun _ => True) (SpanBatchPrefix.decodePrefix varint) := by
  refine (meets_readVarint varint _).bind fun relTimestamp _ => ?_
  refine (meets_readVarint varint _).bind fun l1OriginNum _ => ?_
  refine (meets_takeFixed 20 _).bind fun parentCheck _ => ?_
  exact (meets_takeFixed 20 _).bind fun l1OriginCheck _ => meets_pure trivial

namespace SpanBatchPayload

theorem meets_decodeBlockCount :
    Readers.Meets IsFault (fun blockCount => 0 < blockCount) (decodeBlockCount varint) := by
  refine (meets_readVarint varint _).bind fun blockCount _ => ?_
  refine (meets_rejectIf (not_isFault_err _)).bind fun _ _ => ?_
  refine (meets_rejectIf (not_isFault_err _)).bind fun _ hne => ?_
  exact meets_pure (Nat.pos_of_ne_zero hne)

theorem meets_decodeBlockTxCounts (blockCount : ℕ) :
    Readers.Meets IsFault (fun counts => counts.length = blockCount)
      (decodeBlockTxCounts varint blockCount) := by
  have hcount : Readers.Meets IsFault (fun _ => True) (decodeBlockTxCount varint) := by
    refine (meets_readVarint varint _).bind fun count _ => ?_
    exact (meets_rejectIf (not_isFault_err _)).bind fun _ _ => meets_pure trivial
  refine (meets_readEach fun _ _ => hcount).mono fun counts hlen => ?_
  rw [hlen, length_range]

theorem meets_totalTxCount (counts : List ℕ) :
    Fallible.Meets IsFault (fun total => total = counts.sum) (totalTxCount counts) := by
  have hfold : ∀ acc, Fallible.Meets IsFault (fun total => total = acc + counts.sum)
      (counts.foldlM (fun acc blockTxCount =>
        if 2 ^ 64 ≤ acc + blockTxCount then .error (.err .tooBigSpanBatchSize)
        else .ok (acc + blockTxCount)) acc) := by
    induction counts with
    | nil => exact fun acc => rfl
    | cons n counts ih =>
      intro acc
      rw [foldlM_cons]
      split_ifs
      · exact not_isFault_err _
      · exact (ih (acc + n)).mono fun total htotal => by rw [htotal, sum_cons, Nat.add_assoc]
  exact (hfold 0).mono fun total htotal => by rw [htotal, Nat.zero_add]

theorem meets_decodeTxs (counts : List ℕ) :
    Readers.Meets IsFault
      (fun txs => counts.sum = txs.totalBlockTxCount ∧ txs.txData.length = txs.totalBlockTxCount)
      (decodeTxs varint counts) := by
  refine (meets_rejectIf (not_isFault_err _)).bind fun _ _ => ?_
  refine (meets_lift (meets_totalTxCount counts)).bind fun total htotal => ?_
  refine (meets_rejectIf (not_isFault_err _)).bind fun _ hle => ?_
  refine (SpanBatchTransactions.meets_decode varint (not_lt.mp hle)).mono fun txs htxs => ?_
  exact ⟨by rw [htxs.1, htotal], by rw [htxs.1, htxs.2]⟩

theorem meets_decodePayload : Readers.Meets IsFault WellFormed (decodePayload varint) := by
  refine (meets_decodeBlockCount varint).bind fun blockCount hpos => ?_
  refine (meets_readCountedBits blockCount).bind fun originBits hbits => ?_
  refine (meets_decodeBlockTxCounts varint blockCount).bind fun counts hcounts => ?_
  refine (meets_decodeTxs varint counts).bind fun txs htxs => ?_
  exact meets_pure ⟨hpos, hbits.1, hcounts, htxs.1, htxs.2⟩

end SpanBatchPayload

theorem RawSpanBatch.meets_decode :
    Readers.Meets IsFault (fun raw : RawSpanBatch => raw.payload.WellFormed)
      (RawSpanBatch.decode varint) := by
  refine (meets_decodePrefix varint).bind fun batchPrefix _ => ?_
  exact (SpanBatchPayload.meets_decodePayload varint).bind fun payload hwf => meets_pure hwf

end Reading

/-! ## Rebuilding does not fault -/

namespace SpanBatchTransactions

variable (txs : SpanBatchTransactions) (chainId : UInt64)

theorem meets_nextRecipient (i : ℕ) (c : Cursor) :
    Fallible.Meets IsFault (fun _ => True) (txs.nextRecipient i c) := by
  refine (meets_orFail (not_isFault_err _)).bind fun bit _ => ?_
  split_ifs
  · refine (meets_failIf (not_isFault_err _)).bind fun _ hlt => ?_
    unfold indexOrFault
    rw [getElem?_eq_getElem (not_le.mp hlt)]
    exact trivial
  · exact trivial

theorem meets_toSignedTx (d : SpanBatchTransactionData) (nonce gas : UInt64)
    (recipient : Option Address) (sig : Signature) (isProtected : Bool) :
    Fallible.Meets IsFault (fun _ => True)
      (d.toSignedTx nonce gas recipient chainId sig isProtected) := by
  cases d with
  | eip7702 d =>
    cases recipient with
    | none => exact not_isFault_err _
    | some address => exact trivial
  | eip8130 d => exact not_isFault_err _
  | _ => exact trivial

theorem meets_assemble (i : ℕ) (d : SpanBatchTransactionData) (nonce gas : UInt64)
    (recipient : Option Address) (c : Cursor) :
    Fallible.Meets IsFault (fun _ => True) (txs.assemble chainId i d nonce gas recipient c) := by
  cases d with
  | eip8130 d => exact (meets_orFail (not_isFault_err _)).bind fun proofs _ => trivial
  | _ =>
    refine (meets_orFail (not_isFault_err _)).bind fun sig _ => ?_
    exact (meets_toSignedTx chainId _ nonce gas recipient sig _).bind fun e _ => trivial

theorem meets_rebuild {i : ℕ} (hi : i < txs.txData.length) (c : Cursor) :
    Fallible.Meets IsFault (fun _ => True) (txs.rebuild chainId i c) := by
  unfold rebuild indexOrFault
  rw [getElem?_eq_getElem hi]
  refine (meets_mapError _ _).bind fun d _ => ?_
  refine (meets_orFail (not_isFault_err _)).bind fun nonce _ => ?_
  refine (meets_orFail (not_isFault_err _)).bind fun gas _ => ?_
  refine (txs.meets_nextRecipient i c).bind fun p _ => ?_
  exact txs.meets_assemble chainId i d nonce gas p.1 p.2

theorem meets_rebuildTo {n : ℕ} (hn : n ≤ txs.txData.length) :
    Fallible.Meets IsFault (fun p => p.1.length = n) (txs.rebuildTo chainId n) := by
  induction n with
  | zero => exact rfl
  | succ n ih =>
    refine (ih (by omega)).bind fun p hp => ?_
    refine (txs.meets_rebuild chainId hn p.2).bind fun q _ => ?_
    show (p.1 ++ [q.1]).length = n + 1
    rw [length_append, hp, length_singleton]

theorem meets_fullTxs (hdata : txs.txData.length = txs.totalBlockTxCount)
    (encode2718 : BaseTxEnvelope → Bytes) :
    Fallible.Meets IsFault
      (fun envelopedTxs => envelopedTxs.length = txs.totalBlockTxCount ∧ txs.Complete)
      (txs.fullTxs chainId encode2718) := by
  have hmeets := txs.meets_rebuildTo chainId (le_of_eq hdata.symm)
  cases h : txs.rebuildTo chainId txs.totalBlockTxCount with
  | error e =>
    have hfull : txs.fullTxs chainId encode2718 = .error e := by
      unfold fullTxs rebuilt
      rw [h]
      rfl
    rw [hfull]
    exact hmeets.not_barred h
  | ok p =>
    have hrebuilt : txs.rebuilt chainId = .ok p.1 := rebuilt_ok_iff.mpr ⟨p.2, h⟩
    unfold fullTxs
    rw [hrebuilt]
    refine ⟨?_, exists_rebuilt_iff.mp ⟨p.1, hrebuilt⟩⟩
    rw [length_map]
    exact hmeets.of_ok h

end SpanBatchTransactions

/-! ## When the derivation faults -/

namespace RawSpanBatch

/-- The origin changes behind the first block among the first `n` blocks. -/
def originChanges (originBits : SpanBatchBits) (n : ℕ) : ℕ :=
  Nat.count (fun i => originBits.getBit i = some 1 ∧ 0 < i) n

section WalkBack

variable {originBits : SpanBatchBits} {n : ℕ}

theorem originChanges_succ {bit : UInt8} (hbit : originBits.getBit n = some bit) :
    originChanges originBits (n + 1) =
      originChanges originBits n + if bit = 1 ∧ 0 < n then 1 else 0 := by
  unfold originChanges
  rw [Nat.count_succ]
  simp [hbit]

theorem walkBack_succ {bit : UInt8} (hbit : originBits.getBit n = some bit) (l1OriginNumber : ℕ) :
    walkBack originBits (n + 1) l1OriginNumber = (do
      let next ← stepBack bit n l1OriginNumber
      let below ← walkBack originBits n next
      return below ++ [l1OriginNumber]) := by
  rw [walkBack, hbit]
  rfl

/-- With a number for every change the walk comes to its end and never goes up. -/
theorem walkBack_ok (hbits : ∀ i < n, (originBits.getBit i).isSome) {l1OriginNumber : ℕ}
    (h : originChanges originBits n ≤ l1OriginNumber) :
    ∃ nums, walkBack originBits n l1OriginNumber = .ok nums ∧ nums.length = n ∧
      ∀ num ∈ nums, num ≤ l1OriginNumber := by
  induction n generalizing l1OriginNumber with
  | zero => exact ⟨[], rfl, rfl, fun num hnum => absurd hnum not_mem_nil⟩
  | succ n ih =>
    obtain ⟨bit, hbit⟩ := Option.isSome_iff_exists.mp (hbits n (Nat.lt_succ_self n))
    rw [originChanges_succ hbit] at h
    have hnext : ∃ next ≤ l1OriginNumber, originChanges originBits n ≤ next ∧
        stepBack bit n l1OriginNumber = .ok next := by
      unfold stepBack
      by_cases hchange : bit = 1 ∧ 0 < n
      · rw [if_pos hchange] at h ⊢
        refine ⟨l1OriginNumber - 1, Nat.sub_le _ _, by omega, ?_⟩
        unfold subOrFault
        rw [if_neg (by omega)]
      · rw [if_neg hchange] at h ⊢
        exact ⟨l1OriginNumber, le_rfl, h, rfl⟩
    obtain ⟨next, hle, hrest, hnext⟩ := hnext
    obtain ⟨nums, hnums, hlen, hall⟩ := ih (fun i hi => hbits i (Nat.lt_succ_of_lt hi)) hrest
    refine ⟨nums ++ [l1OriginNumber], ?_, by rw [length_append, hlen]; rfl, fun num hnum => ?_⟩
    · rw [walkBack_succ hbit, hnext, ok_bind, hnums]
      rfl
    · rcases mem_append.mp hnum with hnum | hnum
      · exact (hall num hnum).trans hle
      · exact (mem_singleton.mp hnum).le

/-- With more changes than the number allows the walk goes below zero. -/
theorem walkBack_fault (hbits : ∀ i < n, (originBits.getBit i).isSome) {l1OriginNumber : ℕ}
    (h : l1OriginNumber < originChanges originBits n) :
    walkBack originBits n l1OriginNumber = .error (.fault .underflow) := by
  induction n generalizing l1OriginNumber with
  | zero => exact absurd h (Nat.not_lt_zero _)
  | succ n ih =>
    obtain ⟨bit, hbit⟩ := Option.isSome_iff_exists.mp (hbits n (Nat.lt_succ_self n))
    have ih' := fun next => @ih (fun i hi => hbits i (Nat.lt_succ_of_lt hi)) next
    rw [originChanges_succ hbit] at h
    rw [walkBack_succ hbit]
    unfold stepBack
    by_cases hchange : bit = 1 ∧ 0 < n
    · rw [if_pos hchange] at h ⊢
      unfold subOrFault
      by_cases hzero : l1OriginNumber < 1
      · rw [if_pos hzero]
        rfl
      · have hrest := ih' (l1OriginNumber - 1) (by omega)
        rw [if_neg hzero, ok_bind, hrest]
        rfl
    · rw [if_neg hchange] at h ⊢
      rw [ok_bind, ih' _ h]
      rfl

end WalkBack

theorem takeTxs_eq {envelopedTxs : List Bytes} {count txIdx : ℕ}
    (h : txIdx + count ≤ envelopedTxs.length) :
    takeTxs envelopedTxs count txIdx = .ok ((envelopedTxs.drop txIdx).take count) := by
  induction count generalizing txIdx with
  | zero => rfl
  | succ count ih =>
    have hlt : txIdx < envelopedTxs.length := by omega
    unfold takeTxs indexOrFault
    rw [getElem?_eq_getElem hlt, ih (by omega), drop_eq_getElem_cons hlt]
    rfl

section Elements

variable (raw : RawSpanBatch) (blockTime genesisTime : UInt64)

/-- The timestamp of a block as a number without a bound. -/
def idealTimestamp (i : ℕ) : ℕ :=
  genesisTime.toNat + raw.batchPrefix.relTimestamp.toNat + blockTime.toNat * i

theorem timestampAt_ok {i : ℕ} (h : raw.idealTimestamp blockTime genesisTime i < 2 ^ 64) :
    raw.timestampAt blockTime genesisTime i = .ok (raw.idealTimestamp blockTime genesisTime i) := by
  unfold idealTimestamp at h
  unfold timestampAt addOrFault mulOrFault
  rw [if_neg (by omega), ok_bind, if_neg (by omega), ok_bind, if_neg (by omega)]
  rfl

theorem timestampAt_fault {i : ℕ} (h : 2 ^ 64 ≤ raw.idealTimestamp blockTime genesisTime i) :
    raw.timestampAt blockTime genesisTime i = .error (.fault .overflow) := by
  unfold idealTimestamp at h
  unfold timestampAt addOrFault mulOrFault
  by_cases hstart : 2 ^ 64 ≤ genesisTime.toNat + raw.batchPrefix.relTimestamp.toNat
  · rw [if_pos hstart]
    rfl
  · rw [if_neg hstart, ok_bind]
    by_cases helapsed : 2 ^ 64 ≤ blockTime.toNat * i
    · rw [if_pos helapsed]
      rfl
    · rw [if_neg helapsed, ok_bind, if_pos h]

variable {raw blockTime genesisTime} {nums : List ℕ} {envelopedTxs : List Bytes} {n : ℕ}

theorem batchesTo_succ {acc : List SpanBatchElement} {txIdx : ℕ}
    (hacc : raw.batchesTo blockTime genesisTime nums envelopedTxs n = .ok (acc, txIdx))
    (hcounts : n < raw.payload.blockTxCounts.length) (hnums : n < nums.length)
    (htxs : txIdx + raw.payload.blockTxCounts[n] ≤ envelopedTxs.length) :
    raw.batchesTo blockTime genesisTime nums envelopedTxs (n + 1) = (do
      let timestamp ← raw.timestampAt blockTime genesisTime n
      return (acc ++ [{
        epochNum := nums[n]
        timestamp
        transactions := (envelopedTxs.drop txIdx).take raw.payload.blockTxCounts[n] }],
        txIdx + raw.payload.blockTxCounts[n])) := by
  unfold batchesTo indexOrFault
  rw [hacc, ok_bind, getElem?_eq_getElem hcounts, getElem?_eq_getElem hnums]
  dsimp only [orFail]
  rw [ok_bind, takeTxs_eq htxs, ok_bind, ok_bind]

theorem batchesTo_ok (hcounts : n ≤ raw.payload.blockTxCounts.length) (hnums : n ≤ nums.length)
    (htxs : raw.payload.blockTxCounts.sum ≤ envelopedTxs.length)
    (hfits : ∀ i < n, raw.idealTimestamp blockTime genesisTime i < 2 ^ 64) :
    ∃ acc, raw.batchesTo blockTime genesisTime nums envelopedTxs n =
        .ok (acc, (raw.payload.blockTxCounts.take n).sum) ∧
      ∀ el ∈ acc, el.epochNum ∈ nums ∧ genesisTime.toNat ≤ el.timestamp := by
  induction n with
  | zero => exact ⟨[], rfl, fun el hel => absurd hel not_mem_nil⟩
  | succ n ih =>
    obtain ⟨acc, hacc, hall⟩ := ih (by omega) (by omega) fun i hi => hfits i (Nat.lt_succ_of_lt hi)
    have hnext := sum_take_succ raw.payload.blockTxCounts n (by omega)
    have hle := (take_sublist (n + 1) raw.payload.blockTxCounts).sum_le_sum (by simp)
    have hstep := batchesTo_succ hacc (by omega) (by omega) (by omega)
    rw [timestampAt_ok raw blockTime genesisTime (hfits n (Nat.lt_succ_self n))] at hstep
    refine ⟨_, by rw [hstep, hnext]; rfl, fun el hel => ?_⟩
    rcases mem_append.mp hel with hel | hel
    · exact hall el hel
    · rw [mem_singleton.mp hel]
      refine ⟨getElem_mem _, ?_⟩
      show genesisTime.toNat ≤ raw.idealTimestamp blockTime genesisTime n
      unfold idealTimestamp
      omega

/-- The first timestamp that does not fit is a fault. -/
theorem batchesTo_fault (hcounts : n ≤ raw.payload.blockTxCounts.length) (hnums : n ≤ nums.length)
    (htxs : raw.payload.blockTxCounts.sum ≤ envelopedTxs.length)
    (hwide : ∃ i < n, 2 ^ 64 ≤ raw.idealTimestamp blockTime genesisTime i) :
    raw.batchesTo blockTime genesisTime nums envelopedTxs n = .error (.fault .overflow) := by
  induction n with
  | zero =>
    obtain ⟨i, hi, -⟩ := hwide
    exact absurd hi (Nat.not_lt_zero i)
  | succ n ih =>
    by_cases hearlier : ∃ i < n, 2 ^ 64 ≤ raw.idealTimestamp blockTime genesisTime i
    · have herr := ih (by omega) (by omega) hearlier
      unfold batchesTo
      rw [herr]
      rfl
    · have hfits : ∀ i < n, raw.idealTimestamp blockTime genesisTime i < 2 ^ 64 := fun i hi =>
        not_le.mp fun hle => hearlier ⟨i, hi, hle⟩
      have hlast : 2 ^ 64 ≤ raw.idealTimestamp blockTime genesisTime n := by
        obtain ⟨i, hi, hle⟩ := hwide
        obtain rfl : i = n := by
          by_contra hne
          exact hearlier ⟨i, by omega, hle⟩
        exact hle
      have hn : n ≤ nums.length := by omega
      obtain ⟨acc, hacc, -⟩ := batchesTo_ok (by omega) hn htxs hfits
      have hnext := sum_take_succ raw.payload.blockTxCounts n (by omega)
      have hle := (take_sublist (n + 1) raw.payload.blockTxCounts).sum_le_sum (by simp)
      rw [batchesTo_succ hacc (by omega) (by omega) (by omega),
        timestampAt_fault raw blockTime genesisTime hlast]
      rfl

end Elements

section Derivation

variable (raw : RawSpanBatch) (blockTime genesisTime chainId : UInt64)

/-- The numbers of the prefix allow what the payload asks of them: there is an L1 block for every
origin change, and if the transactions are there, the last timestamp is one. -/
def Fits : Prop :=
  originChanges raw.payload.originBits raw.payload.blockCount ≤ raw.batchPrefix.l1OriginNum.toNat ∧
  (raw.payload.txs.Complete →
    raw.idealTimestamp blockTime genesisTime (raw.payload.blockCount - 1) < 2 ^ 64)

variable {raw blockTime genesisTime chainId} {encode2718 : BaseTxEnvelope → Bytes}

theorem derive_eq (hblocks : 0 < raw.payload.blockCount) :
    raw.derive blockTime genesisTime chainId encode2718 = (do
      let blockOriginNums ← walkBack raw.payload.originBits raw.payload.blockCount
        raw.batchPrefix.l1OriginNum.toNat
      let envelopedTxs ← raw.payload.txs.fullTxs chainId encode2718
      let (batches, _) ← raw.batchesTo blockTime genesisTime blockOriginNums envelopedTxs
        raw.payload.blockCount
      return {
        parentCheck := raw.batchPrefix.parentCheck
        l1OriginCheck := raw.batchPrefix.l1OriginCheck
        batches }) := by
  unfold derive
  rw [failIf_bind_neg (by omega)]

/-- A batch that fits is derived without a fault, with origins up to the one of the prefix and
timestamps from genesis on. -/
theorem meets_derive (hwf : raw.payload.WellFormed) (hfits : raw.Fits blockTime genesisTime) :
    Fallible.Meets IsFault
      (fun batch => ∀ el ∈ batch.batches,
        el.epochNum ≤ raw.batchPrefix.l1OriginNum.toNat ∧ genesisTime.toNat ≤ el.timestamp)
      (raw.derive blockTime genesisTime chainId encode2718) := by
  obtain ⟨nums, hnums, hlen, hall⟩ := walkBack_ok hwf.getBit_isSome hfits.1
  rw [derive_eq hwf.blocks, hnums]
  refine (raw.payload.txs.meets_fullTxs chainId hwf.data encode2718).bind fun envelopedTxs htxs => ?_
  have htimes : ∀ i < raw.payload.blockCount,
      raw.idealTimestamp blockTime genesisTime i < 2 ^ 64 := fun i hi =>
    lt_of_le_of_lt (Nat.add_le_add_left (Nat.mul_le_mul_left _ (by omega)) _) (hfits.2 htxs.2)
  obtain ⟨acc, hacc, helements⟩ := batchesTo_ok (le_of_eq hwf.counts.symm) (le_of_eq hlen.symm)
    (le_of_eq (hwf.total.trans htxs.1.symm)) htimes
  rw [hacc]
  intro el hel
  exact ⟨hall _ (helements el hel).1, (helements el hel).2⟩

/-- A batch that does not fit is derived with a fault. -/
theorem derive_fault (chainId : UInt64) (encode2718 : BaseTxEnvelope → Bytes)
    (hwf : raw.payload.WellFormed) (hfits : ¬raw.Fits blockTime genesisTime) :
    ∃ f, raw.derive blockTime genesisTime chainId encode2718 = .error (.fault f) := by
  rw [derive_eq hwf.blocks]
  by_cases hchanges : originChanges raw.payload.originBits raw.payload.blockCount ≤
      raw.batchPrefix.l1OriginNum.toNat
  · obtain ⟨hcomplete, hwide⟩ : raw.payload.txs.Complete ∧
        2 ^ 64 ≤ raw.idealTimestamp blockTime genesisTime (raw.payload.blockCount - 1) := by
      by_contra hnot
      exact hfits ⟨hchanges, fun hcomplete => not_le.mp fun hle => hnot ⟨hcomplete, hle⟩⟩
    obtain ⟨nums, hnums, hlen, -⟩ := walkBack_ok hwf.getBit_isSome hchanges
    obtain ⟨l, hl⟩ : ∃ l, raw.payload.txs.rebuilt chainId = .ok l :=
      SpanBatchTransactions.exists_rebuilt_iff.mpr hcomplete
    have hfull : raw.payload.txs.fullTxs chainId encode2718 = .ok (l.map encode2718) := by
      unfold SpanBatchTransactions.fullTxs
      rw [hl]
      rfl
    have hcount := ((raw.payload.txs.meets_fullTxs chainId hwf.data encode2718).of_ok hfull).1
    have hblocks := hwf.blocks
    have hfault := batchesTo_fault (le_of_eq hwf.counts.symm) (le_of_eq hlen.symm)
      (le_of_eq (hwf.total.trans hcount.symm)) ⟨raw.payload.blockCount - 1, by omega, hwide⟩
    refine ⟨.overflow, ?_⟩
    rw [hnums, ok_bind, hfull, ok_bind, hfault]
    rfl
  · refine ⟨.underflow, ?_⟩
    rw [walkBack_fault hwf.getBit_isSome (not_le.mp hchanges)]
    rfl

end Derivation

/-! ## Arbitrary input -/

section Input

variable (varint : Bytes → Option (UInt64 × Bytes)) (encode2718 : BaseTxEnvelope → Bytes)
  (blockTime genesisTime chainId : UInt64) (b : Bytes)

def decodeAndDerive : Except Stop SpanBatch := do
  let (raw, _) ← decode varint b
  raw.derive blockTime genesisTime chainId encode2718

/-- No fault on this input, and a result has origins up to the one of the prefix and timestamps from
genesis on. -/
def TotalOn : Prop :=
  (∀ f, decodeAndDerive varint encode2718 blockTime genesisTime chainId b ≠ .error (.fault f)) ∧
  ∀ raw rest batch, decode varint b = .ok (raw, rest) →
    raw.derive blockTime genesisTime chainId encode2718 = .ok batch →
    ∀ el ∈ batch.batches,
      el.epochNum ≤ raw.batchPrefix.l1OriginNum.toNat ∧ genesisTime.toNat ≤ el.timestamp

/-- Every input that is read as a batch is derived without a fault exactly when the batch fits. -/
theorem span_batch_total_iff :
    TotalOn varint encode2718 blockTime genesisTime chainId b ↔
      ∀ raw rest, decode varint b = .ok (raw, rest) → raw.Fits blockTime genesisTime := by
  have hdecode := meets_decode varint b
  constructor
  · rintro ⟨hfault, -⟩ raw rest hraw
    by_contra hfits
    have hwf : raw.payload.WellFormed := hdecode.of_ok hraw
    obtain ⟨f, hf⟩ := derive_fault chainId encode2718 hwf hfits
    refine hfault f ?_
    unfold decodeAndDerive
    rwa [hraw]
  · intro h
    constructor
    · intro f hf
      unfold decodeAndDerive at hf
      cases hraw : decode varint b with rw [hraw] at hf
      | error stop =>
        cases hf
        exact hdecode.not_barred hraw trivial
      | ok p => exact (meets_derive (hdecode.of_ok hraw) (h p.1 p.2 hraw)).not_barred hf trivial
    · intro raw rest batch hraw hbatch
      exact (meets_derive (hdecode.of_ok hraw) (h raw rest hraw)).of_ok hbatch

end Input

/-- A prefix with the given varints and zeros for the checks, and a payload of two empty blocks of
which the second changes the origin. -/
def twoBlocks (relTimestamp l1OriginNum : Bytes) : Bytes :=
  relTimestamp ++ l1OriginNum ++ replicate 40 0 ++ [2, 2, 0, 0]

/-- An origin change behind origin zero, and a relative timestamp of `2 ^ 64 - 1`. -/
theorem span_batch_faults :
    decodeAndDerive leb128 (fun _ => []) 2 1686789347 8453 (twoBlocks [0] [0]) =
        .error (.fault .underflow) ∧
      decodeAndDerive leb128 (fun _ => []) 2 1686789347 8453
          (twoBlocks (replicate 9 0xff ++ [1]) [1]) = .error (.fault .overflow) ∧
      ¬TotalOn leb128 (fun _ => []) 2 1686789347 8453 (twoBlocks [0] [0]) := by
  have hunderflow : decodeAndDerive leb128 (fun _ => []) 2 1686789347 8453 (twoBlocks [0] [0]) =
      .error (.fault .underflow) := by decide +kernel
  exact ⟨hunderflow, by decide +kernel, fun h => h.1 _ hunderflow⟩

end RawSpanBatch

end NodeReth.Span
