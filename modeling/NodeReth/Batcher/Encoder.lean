import NodeReth.Batcher.Composer
import NodeReth.Batcher.Egress

/-!
# The batch encoder

The state machine of `batcher/encoder/src/encoder.rs`: it queues L2 blocks, appends them to the open
channel at the tail of a FIFO, and hands out L1 submissions built from the channels' output. Every
method is a function on the state. A channel identifier that the random generator draws is an
argument of `step`. Logging and metrics are left out.
-/

namespace NodeReth

open PushNew Words

inductive StepResult
  | blockEncoded
  | channelClosed
  | idle
  deriving DecidableEq, Repr

inductive StepError
  | compositionFailed (cursor : ℕ) (source : BatchComposeError)
  | blockExceedsChannelLimit (cursor : ℕ) (limit : ChannelLimit)
  | channel (e : ChannelError)
  deriving DecidableEq, Repr

inductive ReorgError
  | parentMismatch (expected got : B256)
  deriving DecidableEq

inductive DerivationReconciliation
  | consistent
  | safeHeadMismatch
  | stalledChannel
  deriving DecidableEq, Repr

structure BatchEncoder (br : Brotli) where
  rollupConfig : RollupConfig
  config : EncoderConfig
  l1Head : ℕ
  /-- Buffered L2 blocks above the latest observed safe head. -/
  blocks : List BaseBlock
  /-- The next block that is not yet appended to a channel. -/
  blockCursor : ℕ
  /-- Hash of the last accepted block or safe-head anchor. -/
  tip : Option B256
  channels : List (Channel br)
  egress : DaEgress
  nextId : SubmissionId
  blobOverride : Bool
  deferredStepError : Option StepError

namespace BatchEncoder

variable {br : Brotli}

def initial (br : Brotli) (rollupConfig : RollupConfig) (config : EncoderConfig) :
    BatchEncoder br where
  rollupConfig := rollupConfig
  config := config
  l1Head := 0
  blocks := []
  blockCursor := 0
  tip := none
  channels := []
  egress := DaEgress.new
  nextId := 0
  blobOverride := false
  deferredStepError := none

def new (br : Brotli) (rollupConfig : RollupConfig) (config : EncoderConfig) :
    Except EncoderConfigError (BatchEncoder br) :=
  match config.validate with
  | .error e => .error e
  | .ok () => .ok (initial br rollupConfig config)

theorem new_ok {rollupConfig : RollupConfig} {config : EncoderConfig} {e : BatchEncoder br}
    (h : new br rollupConfig config = .ok e) :
    config.validate = .ok () ∧ e = initial br rollupConfig config := by
  unfold new at h
  split at h
  · cases h
  · rename_i hvalid
    cases h
    exact ⟨hvalid, rfl⟩

/-- DA bytes of the transactions of a block that are not deposits. -/
def blockDaBacklogBytes (block : BaseBlock) : ℕ :=
  ((BatchComposer.userTransactions block).map (·.length)).sum

variable (e : BatchEncoder br)

def setBack (channel : Channel br) : BatchEncoder br :=
  { e with channels := e.channels.dropLast ++ [channel] }

/-! ## Closing and opening channels -/

/-- Closes the writable channel, unless it is empty. -/
def closeCurrentChannel : Except StepError (BatchEncoder br) :=
  match e.channels.getLast? with
  | none => .ok e
  | some channel =>
    if !channel.isOpen || channel.isEmpty then .ok e
    else
      match channel.close with
      | .error err => .error (.channel err)
      | .ok channel => .ok (e.setBack channel)

/-- Keeps a fatal error for the next `step`; an earlier one takes precedence. -/
def deferStepError (error : StepError) : BatchEncoder br :=
  match e.deferredStepError with
  | none => { e with deferredStepError := some error }
  | some _ => e

def openNewChannel (id : ChannelId) (blockStart : ℕ) : Except Panic (BatchEncoder br) :=
  match Channel.new br id e.rollupConfig e.config blockStart e.l1Head with
  | .error err => .error (.configurationValidated err)
  | .ok channel => .ok { e with channels := e.channels ++ [channel] }

/-- Closes the writable channel if its deadline is due; the flag says that it was. -/
def checkChannelTimeout : Except StepError (Bool × BatchEncoder br) :=
  let shouldClose :=
    match e.channels.getLast? with
    | none => false
    | some channel => channel.isOpen && channel.deadlineDue e.l1Head
  if shouldClose then
    match e.closeCurrentChannel with
    | .error err => .error err
    | .ok e => .ok (true, e)
  else .ok (false, e)

/-! ## Replay of expired channels -/

/-- What a replay takes along so far. -/
structure Affected where
  channels : List ChannelId
  artifacts : List ArtifactId

/-- An artifact that shares a channel with the affected ones, or is itself affected, is taken along
with all its channels. -/
def extendArtifact (st : Affected) (a : DaArtifact) : Affected :=
  if a.channelIds.any (· ∈ st.channels) || a.id ∈ st.artifacts then
    ⟨pushAllNew st.channels a.channelIds, pushNew st.artifacts a.id⟩
  else st

/-- Every channel behind the first affected one is taken along. -/
def extendTail (channels : List (Channel br)) (affected : List ChannelId) : List ChannelId :=
  match channels.findIdx? (·.id ∈ affected) with
  | none => affected
  | some replayIdx => pushAllNew affected ((channels.drop replayIdx).map (·.id))

/-- One round of the closure. -/
def extendAffected (st : Affected) : Affected :=
  let st := e.egress.artifacts.artifacts.foldl extendArtifact st
  ⟨extendTail e.channels st.channels, e.egress.extendWithSubmissionArtifacts st.artifacts⟩

def Affected.size (st : Affected) : ℕ := st.channels.length + st.artifacts.length

/-- A bound on what the closure can collect. -/
def closureBound : ℕ :=
  1 + e.channels.length + (e.egress.artifacts.artifacts.flatMap (·.channelIds)).length +
    e.egress.artifacts.artifacts.length + (e.egress.pending.flatMap (·.2)).length

/-- Blobs and transactions are atomic: the closure takes along every channel that contributes to
an affected artifact or submission. -/
def affectedBy (id : ChannelId) : Affected :=
  untilStable Affected.size e.extendAffected (e.closureBound + 1) ⟨[id], []⟩

/-- Invalidates one channel and what depends on it, and rewinds to its first block. -/
def invalidateChannel (channelIdx : ℕ) : BatchEncoder br :=
  match e.channels[channelIdx]? with
  | none => e
  | some channel =>
    let affected := e.affectedBy channel.id
    let replayIdx :=
      match e.channels.findIdx? (·.id ∈ affected.channels) with
      | some i => i
      | none => channelIdx
    match e.channels[replayIdx]? with
    | none => e
    | some replay =>
      { e with
        egress := e.egress.invalidateArtifacts affected.artifacts
        channels := e.channels.take replayIdx
        blockCursor := min e.blockCursor replay.blockStart }

/-- The confirmation window of a channel has expired. -/
def expired (channel : Channel br) : Bool :=
  let channelTimeout := EncoderConfig.confirmationChannelTimeout e.rollupConfig
  match channel.firstConfirmedL1Block with
  | none => false
  | some first =>
    let inclusionSpan := (channel.lastConfirmedL1Block.getD first) - first
    if inclusionSpan > channelTimeout then true
    else
      !e.egress.channelFullyConfirmed channel && decide (e.l1Head > satAdd first channelTimeout)

def invalidateExpiredChannels : BatchEncoder br :=
  match e.channels.findIdx? e.expired with
  | none => e
  | some channelIdx => e.invalidateChannel channelIdx

/-! ## Safe-head pruning -/

/-- Shifts every offset into the block queue. -/
def rebaseAfterBlockPrune (pruneCount : ℕ) : BatchEncoder br :=
  { e with
    blockCursor := e.blockCursor - pruneCount
    channels := e.channels.map (·.rebaseAfterPrune pruneCount) }

/-- Drops the channels that end within the first `pruneCount` blocks. -/
def pruneSafeChannels (pruneCount : ℕ) : BatchEncoder br :=
  let covered := e.channels.takeWhile fun c => decide (c.blockEnd ≤ pruneCount)
  if covered.length > 0 then
    { e with
      channels := e.channels.drop covered.length
      egress := e.egress.pruneChannels (covered.map (·.id)) }
  else e

/-- The state after the first `pruneCount` blocks became safe. -/
def dropSafe (pruneCount : ℕ) : BatchEncoder br :=
  let e := e.pruneSafeChannels pruneCount
  let e := { e with blocks := e.blocks.drop pruneCount }
  e.rebaseAfterBlockPrune pruneCount

/-- Drops buffered blocks at or below the safe L2 head; `false` when it is not on the buffered
chain. -/
def pruneSafe (safeL2 : BlockInfo) : Bool × BatchEncoder br :=
  match e.blocks with
  | [] => (true, { e with tip := some safeL2.hash })
  | oldest :: _ =>
    let nextSafe := safeL2.number + 1
    if nextSafe < oldest.header.number then (false, e)
    else
      let pruneCount := nextSafe - oldest.header.number
      if pruneCount > e.blocks.length then (false, e)
      else if pruneCount = 0 then (decide (oldest.header.parentHash = safeL2.hash), e)
      else if (e.blocks[pruneCount - 1]?).map (·.header.hash) ≠ some safeL2.hash then (false, e)
      else
        let e := e.dropSafe pruneCount
        (true, if e.blocks.isEmpty then { e with tip := some safeL2.hash } else e)

/-- Derivation passed a fully confirmed channel whose last block is not safe. -/
def isDerivationStalled (currentL1 : ℕ) (safeL2 : BlockInfo) : Bool :=
  e.channels.any fun channel =>
    e.egress.channelFullyConfirmed channel &&
      match channel.lastConfirmedL1Block with
      | none => false
      | some lastInclusion =>
        decide (currentL1 > lastInclusion) && decide (channel.blockEnd > 0) &&
          match e.blocks[channel.blockEnd - 1]? with
          | none => false
          | some lastBlock => decide (safeL2.number < lastBlock.header.number)

/-! ## The pipeline methods -/

def addBlock (block : BaseBlock) : Except ReorgError Unit × BatchEncoder br :=
  match e.tip with
  | some expected =>
    if block.header.parentHash ≠ expected then
      (.error (.parentMismatch expected block.header.parentHash), e)
    else (.ok (), { e with tip := some block.header.hash, blocks := e.blocks ++ [block] })
  | none => (.ok (), { e with tip := some block.header.hash, blocks := e.blocks ++ [block] })

/-- Opens a channel unless the last one is open. -/
def ensureOpen (freshId : ChannelId) : Except Panic (BatchEncoder br) :=
  match e.channels.getLast? with
  | some channel => if channel.isOpen then .ok e else e.openNewChannel freshId e.blockCursor
  | none => e.openNewChannel freshId e.blockCursor

/-- What follows on the answer of the channel: the cursor moves only when the batch was taken. -/
def afterAddBatch (outcome : ChannelAddOutcome) (channel : Channel br) :
    Except StepError StepResult × BatchEncoder br :=
  let e := e.setBack channel
  match outcome with
  | .accepted => (.ok .blockEncoded, { e with blockCursor := e.blockCursor + 1 })
  | .targetReached =>
    let e := { e with blockCursor := e.blockCursor + 1 }
    match e.closeCurrentChannel with
    | .error err => (.error err, e)
    | .ok e => (.ok .channelClosed, e)
  | .rejected limit =>
    if channel.isEmpty then
      -- the block fits in no channel
      (.error (.blockExceedsChannelLimit e.blockCursor limit),
        { e with channels := e.channels.dropLast })
    else
      match e.closeCurrentChannel with
      | .error err => (.error err, e)
      | .ok e => (.ok .channelClosed, e)

/-- Appends the composed batch to the open channel. -/
def encodeBatch (e : BatchEncoder br) (freshId : ChannelId) (batch : SingleBatch)
    (daBacklogBytes : ℕ) : Except Panic (Except StepError StepResult × BatchEncoder br) :=
  match e.ensureOpen freshId with
  | .error panic => .error panic
  | .ok e =>
    match e.channels.getLast? with
    | none => .error .channelExists
    | some channel =>
      match channel.addBatch batch daBacklogBytes with
      | (.error err, channel) => .ok (.error (.channel err), e.setBack channel)
      | (.ok outcome, channel) => .ok (e.afterAddBatch outcome channel)

end BatchEncoder

namespace BatchEncoder

/-- One transition: a deferred error, a timeout close, or one queued block. -/
def step {br : Brotli} (e : BatchEncoder br) (freshId : ChannelId) :
    Except Panic (Except StepError StepResult × BatchEncoder br) :=
  match e.deferredStepError with
  | some error => .ok (.error error, { e with deferredStepError := none })
  | none =>
    match e.checkChannelTimeout with
    | .error err => .ok (.error err, e)
    | .ok (true, e) => .ok (.ok .channelClosed, e)
    | .ok (false, e) =>
      match e.blocks[e.blockCursor]? with
      | none => .ok (.ok .idle, e)
      | some block =>
        match BatchComposer.blockToSingleBatch block with
        | .error source => .ok (.error (.compositionFailed e.blockCursor source), e)
        | .ok batch => e.encodeBatch freshId batch (blockDaBacklogBytes block)

variable {br : Brotli} (e : BatchEncoder br)

/-- Blobs when throttling asks for them, else as configured. -/
def effectiveDaType : DaType :=
  if e.blobOverride ∧ e.config.daType = .calldata then .blob else e.config.daType

def nextSubmission : Except Panic (Option BatchSubmission × BatchEncoder br) :=
  match e.egress.nextSubmission e.channels e.effectiveDaType e.l1Head e.config.maxBlobsPerTx
      e.nextId with
  | .error panic => .error panic
  | .ok (none, egress, channels) =>
    .ok (none, { e with egress := egress, channels := channels })
  | .ok (some submission, egress, channels) =>
    .ok (some submission, { e with egress := egress, channels := channels, nextId := e.nextId + 1 })

def recordConfirmation (id : ChannelId) (l1Block : ℕ) : List (Channel br) → List (Channel br)
  | [] => []
  | c :: cs =>
    if c.id = id then c.recordConfirmation l1Block :: cs else c :: recordConfirmation id l1Block cs

def confirm (id : SubmissionId) (l1Block : ℕ) : BatchEncoder br :=
  match e.egress.confirm id with
  | (none, egress) => { e with egress := egress }
  | (some channelIds, egress) =>
    { e with
      egress := egress
      channels := channelIds.foldl (fun cs id => recordConfirmation id l1Block cs) e.channels }

def requeue (id : SubmissionId) : BatchEncoder br :=
  { e with egress := (e.egress.requeue id).2 }

/-- Closes the writable tail and makes retained partial output eligible. -/
def flush : Except StepError Unit × BatchEncoder br :=
  match e.closeCurrentChannel with
  | .error err => (.error err, e)
  | .ok e => (.ok (), { e with channels := e.channels.map (·.releaseAt e.l1Head) })

def advanceL1Head (l1Block : ℕ) : BatchEncoder br :=
  let advanced := decide (l1Block > e.l1Head)
  let e := if advanced then { e with l1Head := l1Block } else e
  if e.deferredStepError.isSome then e
  else
    let e :=
      if advanced then
        match e.checkChannelTimeout with
        | .error err => e.deferStepError err
        | .ok (_, e) => e
      else e
    e.invalidateExpiredChannels

/-- Drops everything buffered; the counters of identifiers stay. -/
def reset : BatchEncoder br :=
  { e with
    blocks := []
    blockCursor := 0
    tip := none
    channels := []
    egress := e.egress.reset
    deferredStepError := none }

def reconcileDerivation (safeL2 : BlockInfo) (currentL1 : Option ℕ) :
    DerivationReconciliation × BatchEncoder br :=
  match e.pruneSafe safeL2 with
  | (false, e) => (.safeHeadMismatch, e)
  | (true, e) =>
    match currentL1 with
    | none => (.consistent, e)
    | some currentL1 =>
      if e.isDerivationStalled currentL1 safeL2 then (.stalledChannel, e) else (.consistent, e)

def setBlobOverride (active : Bool) : BatchEncoder br :=
  if e.blobOverride = active then e else { e with blobOverride := active }

end BatchEncoder

/-! ## Runs -/

/-- A call of the `BatchPipeline` interface. -/
inductive PipelineCall
  | addBlock (block : BaseBlock)
  | step (freshId : ChannelId)
  | nextSubmission
  | confirm (id : SubmissionId) (l1Block : ℕ)
  | requeue (id : SubmissionId)
  | flush
  | advanceL1Head (l1Block : ℕ)
  | reset
  | reconcileDerivation (safeL2 : BlockInfo) (currentL1 : Option ℕ)
  | setBlobOverride (active : Bool)

/-- The identifiers that the random generator may draw during a call. -/
def PipelineCall.drawn : PipelineCall → List ChannelId
  | step freshId => [freshId]
  | _ => []

inductive PipelineReply
  | unit
  | added (r : Except ReorgError Unit)
  | stepped (r : Except StepError StepResult)
  | submission (r : Option BatchSubmission)
  | flushed (r : Except StepError Unit)
  | reconciled (r : DerivationReconciliation)

/-- The call reports an error of the compressor. -/
def PipelineReply.compressorFailed : PipelineReply → Bool
  | stepped (.error (.channel (.compression _))) => true
  | flushed (.error (.channel (.compression _))) => true
  | _ => false

namespace BatchEncoder

def call {br : Brotli} (e : BatchEncoder br) :
    PipelineCall → Except Panic (PipelineReply × BatchEncoder br)
  | .addBlock block =>
    let (r, e) := e.addBlock block
    .ok (.added r, e)
  | .step freshId =>
    match e.step freshId with
    | .error panic => .error panic
    | .ok (r, e) => .ok (.stepped r, e)
  | .nextSubmission =>
    match e.nextSubmission with
    | .error panic => .error panic
    | .ok (r, e) => .ok (.submission r, e)
  | .confirm id l1Block => .ok (.unit, e.confirm id l1Block)
  | .requeue id => .ok (.unit, e.requeue id)
  | .flush =>
    let (r, e) := e.flush
    .ok (.flushed r, e)
  | .advanceL1Head l1Block => .ok (.unit, e.advanceL1Head l1Block)
  | .reset => .ok (.unit, e.reset)
  | .reconcileDerivation safeL2 currentL1 =>
    let (r, e) := e.reconcileDerivation safeL2 currentL1
    .ok (.reconciled r, e)
  | .setBlobOverride active => .ok (.unit, e.setBlobOverride active)

/-- The replies to a list of calls and the state afterwards; `none` when a call panics. -/
def runCalls {br : Brotli} : BatchEncoder br → List PipelineCall →
    Option (List PipelineReply × BatchEncoder br)
  | e, [] => some ([], e)
  | e, op :: ops =>
    match e.call op with
    | .error _ => none
    | .ok (reply, e) => (runCalls e ops).map fun (replies, e) => (reply :: replies, e)

end BatchEncoder

/-! ## A small run -/

def sampleHash (n : ℕ) : B256 := ⟨List.replicate 32 (UInt8.ofNat n), List.length_replicate⟩

/-- Block `n` with its L1 info deposit and one user transaction. -/
def sampleBlock (n : ℕ) : BaseBlock where
  header := ⟨n, sampleHash (n - 1), 2 * n, sampleHash n⟩
  transactions :=
    [.deposit (L1BlockInfoTx.bedrock.selector ++ List.replicate 256 0), .user [2, UInt8.ofNat n]]

/-- Two blocks go into two channels; the first channel is submitted and confirmed. -/
def sampleCalls : List PipelineCall :=
  [.addBlock (sampleBlock 1), .step (FixedBytes.zero 16), .flush, .addBlock (sampleBlock 2),
    .nextSubmission, .step ⟨List.replicate 16 1, List.length_replicate⟩, .confirm 0 7]

end NodeReth
