import NodeReth.Lib.Fallible
import NodeReth.Protocol.SingleBatch

/-!
# Checking a single batch

`SingleBatch::check_batch` of `protocol/src/batch/single.rs`: what derivation makes of a batch that
claims to hold the block behind the safe head. The checks come one after the other, and the first one
that fails decides. `checkBatch_eq` says what is left to decide for a batch that passes the checks
of its position: the transactions are looked at last.
-/

namespace NodeReth

open Words Fallible

structure L2BlockInfo where
  blockInfo : BlockInfo
  l1Origin : BlockNumHash
  seqNum : ℕ
  deriving DecidableEq

inductive BatchDropReason
  | futureTimestampHolocene | pastTimestampPreHolocene
  | parentHashMismatch | includedTooLate | epochTooOld | epochTooFarInFuture | epochHashMismatch
  | timestampBeforeL1Origin | sequencerDriftOverflow | sequencerDriftExceeded
  | sequencerDriftNotAdoptedNextOrigin
  | emptyTransaction | depositTransaction | eip7702PreIsthmus | eip8130PreZenith
  | nonEmptyTransitionBlock
  | spanBatchPreDelta | spanBatchPostCobalt | spanBatchNoNewBlocksPreHolocene
  | spanBatchMisalignedTimestamp | spanBatchNotOverlappedExactly | l1OriginBeforeSafeHead
  | missingL1Origin | overlappedTxCountMismatch | overlappedTxMismatch | l2BlockInfoExtractionFailed
  | overlappedL1OriginMismatch
  deriving DecidableEq, Repr

inductive BatchValidity
  | drop (reason : BatchDropReason)
  | accept
  | undecided
  | future
  | past
  deriving DecidableEq, Repr

def depositTxType : UInt8 := 0x7e
def eip7702TxType : UInt8 := 0x04
def eip8130TxTypeByte : UInt8 := 0x79

namespace SingleBatch

variable (batch : SingleBatch) (cfg : RollupConfig)

def checkBatchTimestamp (l2SafeHead : L2BlockInfo) (inclusionBlock : BlockInfo) : BatchValidity :=
  let nextTimestamp := cfg.l2BlockTimestamp (satAdd l2SafeHead.blockInfo.number 1)
  if batch.timestamp > nextTimestamp then
    if cfg.isHoloceneActive inclusionBlock.timestamp then .drop .futureTimestampHolocene else .future
  else if batch.timestamp < nextTimestamp then
    if cfg.isHoloceneActive inclusionBlock.timestamp then .past else .drop .pastTimestampPreHolocene
  else .accept

/-- Why a single transaction keeps a batch out, at the timestamp of the batch. -/
def checkTransaction (timestamp : ℕ) (tx : Bytes) : Option BatchDropReason :=
  match tx with
  | [] => some .emptyTransaction
  | first :: _ =>
    if first = depositTxType then some .depositTransaction
    else if ¬cfg.isIsthmusActive timestamp ∧ first = eip7702TxType then some .eip7702PreIsthmus
    else if ¬cfg.isZenithActive timestamp ∧ first = eip8130TxTypeByte then some .eip8130PreZenith
    else none

def checkTransactions (timestamp : ℕ) : List Bytes → BatchValidity
  | [] => .accept
  | tx :: txs =>
    match checkTransaction cfg timestamp tx with
    | some reason => .drop reason
    | none => checkTransactions timestamp txs

/-- The block that the batch names as its origin, given the current epoch and the block after it. -/
def batchOrigin (epoch : BlockInfo) (next : Option BlockInfo) : Except BatchValidity BlockInfo :=
  if batch.epochNum < epoch.number then .error (.drop .epochTooOld)
  else if batch.epochNum = epoch.number then .ok epoch
  else if batch.epochNum = wrapAdd epoch.number 1 then
    match next with
    | none => .error .undecided
    | some next => .ok next
  else .error (.drop .epochTooFarInFuture)

/-- A batch that is past the sequencer drift has to be empty, and may stay in its epoch only if it
could not have adopted the next one. -/
def checkDrift (epoch origin : BlockInfo) (next : Option BlockInfo) : Except BatchValidity Unit :=
  let max := origin.timestamp + cfg.maxSequencerDriftAt origin.timestamp
  if max > u64Max then .error (.drop .sequencerDriftOverflow)
  else if batch.timestamp > max ∧ batch.transactions ≠ [] then .error (.drop .sequencerDriftExceeded)
  else if batch.timestamp > max ∧ epoch.number = origin.number then
    match next with
    | none => .error .undecided
    | some next =>
      if batch.timestamp ≥ next.timestamp then .error (.drop .sequencerDriftNotAdoptedNextOrigin)
      else .ok ()
  else .ok ()

/-- The checks in front of those of the transactions. -/
def checkPosition (epoch : BlockInfo) (next : Option BlockInfo) (l2SafeHead : L2BlockInfo)
    (inclusionBlock : BlockInfo) : Except BatchValidity Unit := do
  let timestampCheck := batch.checkBatchTimestamp cfg l2SafeHead inclusionBlock
  failIf (timestampCheck ≠ .accept) timestampCheck
  failIf (batch.parentHash ≠ l2SafeHead.blockInfo.hash) (.drop .parentHashMismatch)
  failIf (wrapAdd batch.epochNum cfg.seqWindowSize < inclusionBlock.number) (.drop .includedTooLate)
  let origin ← batch.batchOrigin epoch next
  failIf (batch.epochHash ≠ origin.hash) (.drop .epochHashMismatch)
  failIf (batch.timestamp < origin.timestamp) (.drop .timestampBeforeL1Origin)
  batch.checkDrift cfg epoch origin next
  failIf (cfg.isFirstJovianBlock batch.timestamp l2SafeHead.blockInfo.timestamp = true ∧
    batch.transactions ≠ []) (.drop .nonEmptyTransitionBlock)

def checkBatch (l1Blocks : List BlockInfo) (l2SafeHead : L2BlockInfo) (inclusionBlock : BlockInfo) :
    BatchValidity :=
  match l1Blocks with
  | [] => .undecided
  | epoch :: rest =>
    match batch.checkPosition cfg epoch rest.head? l2SafeHead inclusionBlock with
    | .error validity => validity
    | .ok () => checkTransactions cfg batch.timestamp batch.transactions

/-! ## Batches in their place -/

/-- The reasons for a drop that look at a single transaction. -/
def transactionReasons : List BatchDropReason :=
  [.emptyTransaction, .depositTransaction, .eip7702PreIsthmus, .eip8130PreZenith]

variable {batch cfg}

theorem checkTransactions_cases (cfg : RollupConfig) (timestamp : ℕ) (txs : List Bytes) :
    checkTransactions cfg timestamp txs = .accept ∨
      ∃ reason ∈ transactionReasons, checkTransactions cfg timestamp txs = .drop reason := by
  induction txs with
  | nil => exact .inl rfl
  | cons tx txs ih =>
    unfold checkTransactions
    cases htx : checkTransaction cfg timestamp tx with
    | some reason =>
      refine .inr ⟨reason, ?_, rfl⟩
      unfold checkTransaction at htx
      split at htx
      · cases htx
        decide
      · split_ifs at htx <;> cases htx <;> decide
    | none => exact ih

variable {epoch next origin : BlockInfo}

theorem batchOrigin_current {next : Option BlockInfo}
    (h : batch.epochNum = epoch.number) : batch.batchOrigin epoch next = .ok epoch := by
  unfold batchOrigin
  rw [h, if_neg (lt_irrefl _), if_pos rfl]

theorem batchOrigin_next (h : batch.epochNum = epoch.number + 1)
    (hbound : epoch.number < u64Max) : batch.batchOrigin epoch (some next) = .ok next := by
  unfold batchOrigin
  rw [h, wrapAdd_eq (by omega), if_neg (by omega), if_neg (by omega), if_pos rfl]

theorem checkDrift_ok (hfits : origin.timestamp + cfg.maxSequencerDriftAt origin.timestamp ≤ u64Max)
    (hempty : origin.timestamp + cfg.maxSequencerDriftAt origin.timestamp < batch.timestamp →
      batch.transactions = [])
    (hstays : origin.timestamp + cfg.maxSequencerDriftAt origin.timestamp < batch.timestamp →
      epoch.number = origin.number → batch.timestamp < next.timestamp) :
    batch.checkDrift cfg epoch origin (some next) = .ok () := by
  unfold checkDrift
  dsimp only
  rw [if_neg (not_lt.mpr hfits), if_neg fun h => h.2 (hempty h.1)]
  split_ifs with hpast hadopt
  · exact absurd (hstays hpast.1 hpast.2) (not_lt.mpr hadopt)
  · rfl
  · rfl

/-- A batch with the timestamp, the parent, the epoch and the drift that derivation expects is
dropped for being late or for one of its transactions only. -/
theorem checkBatch_eq {inclusionBlock : BlockInfo} {rest : List BlockInfo} {l2SafeHead : L2BlockInfo}
    (htime : batch.timestamp = cfg.l2BlockTimestamp (satAdd l2SafeHead.blockInfo.number 1))
    (hparent : batch.parentHash = l2SafeHead.blockInfo.hash)
    (horigin : batch.batchOrigin epoch (some next) = .ok origin)
    (hhash : batch.epochHash = origin.hash) (hafter : origin.timestamp ≤ batch.timestamp)
    (hdrift : batch.checkDrift cfg epoch origin (some next) = .ok ())
    (hjovian : cfg.isFirstJovianBlock batch.timestamp l2SafeHead.blockInfo.timestamp = true →
      batch.transactions = []) :
    batch.checkBatch cfg (epoch :: next :: rest) l2SafeHead inclusionBlock =
      if wrapAdd batch.epochNum cfg.seqWindowSize < inclusionBlock.number then .drop .includedTooLate
      else checkTransactions cfg batch.timestamp batch.transactions := by
  have htimestamp : batch.checkBatchTimestamp cfg l2SafeHead inclusionBlock = .accept := by
    unfold checkBatchTimestamp
    rw [htime, if_neg (lt_irrefl _), if_neg (lt_irrefl _)]
  have htransition : ¬(cfg.isFirstJovianBlock batch.timestamp l2SafeHead.blockInfo.timestamp = true ∧
      batch.transactions ≠ []) := fun h => h.2 (hjovian h.1)
  have hposition : batch.checkPosition cfg epoch (some next) l2SafeHead inclusionBlock =
      failIf (wrapAdd batch.epochNum cfg.seqWindowSize < inclusionBlock.number)
        (.drop .includedTooLate) := by
    unfold checkPosition
    rw [htimestamp, failIf_bind_neg (not_not.mpr rfl), failIf_bind_neg (not_not.mpr hparent)]
    by_cases hlate : wrapAdd batch.epochNum cfg.seqWindowSize < inclusionBlock.number
    · rw [failIf_pos hlate]
      rfl
    · rw [failIf_bind_neg hlate, failIf_neg hlate, horigin, ok_bind,
        failIf_bind_neg (not_not.mpr hhash), failIf_bind_neg (not_lt.mpr hafter), hdrift, ok_bind,
        failIf_neg htransition]
  show (match batch.checkPosition cfg epoch (some next) l2SafeHead inclusionBlock with
    | .error validity => validity
    | .ok () => checkTransactions cfg batch.timestamp batch.transactions) = _
  rw [hposition]
  unfold failIf
  split_ifs <;> rfl

end SingleBatch

end NodeReth
