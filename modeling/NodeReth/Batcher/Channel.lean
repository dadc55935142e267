import NodeReth.Protocol.SingleBatch
import NodeReth.Batcher.Config

/-!
# Encoding channels

`Channel` of `batcher/encoder/src/channel.rs`: batches go in through the compression stream, the
compressed bytes wait in a FIFO of chunks and leave it as numbered frames. A batch is admitted only
when the finished channel, compressed as badly as the compressor may, stays within the limits of
the reader.
-/

namespace NodeReth

open List Words

/-- Hard derivation limit preventing one batch from joining a channel. -/
inductive ChannelLimit
  | rlpBytes (required maximum : ℕ)
  | frameCount (required maximum : ℕ)
  | assembledBytes (required maximum : ℕ)
  deriving DecidableEq, Repr

inductive ChannelAddOutcome
  | accepted
  | targetReached
  | rejected (limit : ChannelLimit)
  deriving DecidableEq, Repr

def ChannelAddOutcome.Taken (outcome : ChannelAddOutcome) : Prop :=
  outcome = accepted ∨ outcome = targetReached

inductive ChannelError
  | compression (e : CompressionError)
  | closed
  | outputUnderflow (requested available : ℕ)
  | tooManyFrames (frameCount maximum : ℕ)
  | invalidTerminalTransition
  deriving DecidableEq, Repr

/-- The `expect`s of the encoder, each with the error it would report. -/
inductive Panic
  | outputLengthValidated
  | plannedChannelRemains
  | blobPlanSatisfiesLimits (e : ChannelError)
  | calldataPlanSatisfiesLimits (e : ChannelError)
  | configurationValidated (e : EncoderConfigError)
  | channelExists
  deriving DecidableEq, Repr

/-- One encoding channel, from its first batch until the safe head covers it. -/
structure Channel (br : Brotli) where
  id : ChannelId
  rollupConfig : RollupConfig
  /-- Present only while the channel accepts batches. -/
  compressor : Option (CompressionStream br)
  /-- Compressed bytes that no frame carries yet. -/
  output : List Bytes
  availableOutput : ℕ
  compressedBytes : ℕ
  maxFrameSize : ℕ
  compressedSizeTarget : Option ℕ
  inputBytes : ℕ
  blockStart : ℕ
  blocksAdded : ℕ
  daBacklogBytes : ℕ
  openedL1Block : ℕ
  deadlineL1Block : ℕ
  nextFrameNumber : ℕ
  terminalPending : Bool
  firstConfirmedL1Block : Option ℕ
  lastConfirmedL1Block : Option ℕ
  /-- The batches accepted so far. The source does not keep them and no function here reads
  them: they are there to say what the other fields are made from. -/
  batches : List SingleBatch

namespace Channel

variable {br : Brotli} {c : Channel br} {batch : SingleBatch} {c' : Channel br} {da : ℕ}

/-- `u16::MAX`: the reader cannot reassemble a frame with that number. -/
def maxFrames : ℕ := 65535

def fresh (br : Brotli) (id : ChannelId) (rollupConfig : RollupConfig) (config : EncoderConfig)
    (blockStart openedL1Block : ℕ) : Channel br where
  id := id
  rollupConfig := rollupConfig
  compressor := some (CompressionStream.new br config.brotliLevel)
  output := []
  availableOutput := 0
  compressedBytes := 0
  maxFrameSize := config.maxFrameSize
  compressedSizeTarget := config.compressedSizeTarget
  inputBytes := 0
  blockStart := blockStart
  blocksAdded := 0
  daBacklogBytes := 0
  openedL1Block := openedL1Block
  deadlineL1Block := satAdd openedL1Block (config.maxChannelDuration - config.subSafetyMargin)
  nextFrameNumber := 0
  terminalPending := false
  firstConfirmedL1Block := none
  lastConfirmedL1Block := none
  batches := []

def new (br : Brotli) (id : ChannelId) (rollupConfig : RollupConfig) (config : EncoderConfig)
    (blockStart openedL1Block : ℕ) : Except EncoderConfigError (Channel br) :=
  match config.validate with
  | .error e => .error e
  | .ok () => .ok (fresh br id rollupConfig config blockStart openedL1Block)

theorem new_ok {id : ChannelId} {rollupConfig : RollupConfig} {config : EncoderConfig}
    {blockStart openedL1Block : ℕ}
    (h : new br id rollupConfig config blockStart openedL1Block = .ok c) :
    config.validate = .ok () ∧ c = fresh br id rollupConfig config blockStart openedL1Block := by
  unfold new at h
  split at h
  · cases h
  · rename_i hvalid
    cases h
    exact ⟨hvalid, rfl⟩

def isOpen (c : Channel br) : Bool := c.compressor.isSome

def isEmpty (c : Channel br) : Bool := c.blocksAdded == 0

def maxFrameData (c : Channel br) : ℕ := c.maxFrameSize - Frame.encodedOverhead

def deadlineDue (c : Channel br) (l1Head : ℕ) : Bool := decide (l1Head ≥ c.deadlineL1Block)

def releaseAt (c : Channel br) (l1Head : ℕ) : Channel br :=
  { c with deadlineL1Block := min c.deadlineL1Block l1Head }

/-- The end of the accepted block range, which starts at `blockStart`. -/
def blockEnd (c : Channel br) : ℕ := c.blockStart + c.blocksAdded

/-- The terminal frame has been emitted. -/
def framingComplete (c : Channel br) : Bool := c.compressor.isNone && !c.terminalPending

def pushOutput (c : Channel br) (output : Bytes) : Channel br :=
  if output.isEmpty then c
  else
    { c with
      output := c.output ++ [output]
      availableOutput := c.availableOutput + output.length
      compressedBytes := c.compressedBytes + output.length }

/-- The FIFO with new bytes; an empty chunk is never kept. -/
def enqueueOutput (output : List Bytes) (o : Bytes) : List Bytes :=
  if o.isEmpty then output else output ++ [o]

theorem flatten_enqueueOutput (output : List Bytes) (o : Bytes) :
    (enqueueOutput output o).flatten = output.flatten ++ o := by
  unfold enqueueOutput
  split_ifs with h
  · simp [isEmpty_iff.mp h]
  · simp

theorem pushOutput_eq (o : Bytes) :
    c.pushOutput o =
      { c with
        output := enqueueOutput c.output o
        availableOutput := c.availableOutput + o.length
        compressedBytes := c.compressedBytes + o.length } := by
  unfold pushOutput enqueueOutput
  split_ifs with h
  · rw [isEmpty_iff.mp h]
    rfl
  · rfl

/-! ## Admission -/

/-- Frame bytes of one blob behind the version byte. -/
def blobPayloadCapacity : ℕ := blobMaxDataSize - blobDerivationPrefixSize

/-- The projected frame count of a channel of `maxCompressedBytes`: cuts at the frame size, and
cuts at blob boundaries with one more. -/
def maxTotalFrames (maxFrameData maxCompressedBytes : ℕ) : ℕ :=
  let maxFrameCount := divCeil maxCompressedBytes maxFrameData
  let maxBlobBoundaryFrames :=
    satAdd (divCeil maxCompressedBytes (blobPayloadCapacity - Frame.encodedOverhead)) 1
  satAdd maxFrameCount maxBlobBoundaryFrames

theorem maxTotalFrames_eq {maxFrameData maxCompressedBytes : ℕ}
    (h : maxTotalFrames maxFrameData maxCompressedBytes ≤ maxFrames) :
    maxTotalFrames maxFrameData maxCompressedBytes = divCeil maxCompressedBytes maxFrameData +
      (divCeil maxCompressedBytes (blobPayloadCapacity - Frame.encodedOverhead) + 1) := by
  have hlt : maxFrames < u64Max := by decide
  unfold maxTotalFrames at h ⊢
  have houter := satAdd_eq_of_lt (h.trans_lt hlt)
  rw [houter] at h ⊢
  rw [satAdd_eq_of_lt (((Nat.le_add_left _ _).trans h).trans_lt hlt)]

def maxAssembledBytes (maxFrameData maxCompressedBytes : ℕ) : ℕ :=
  satAdd maxCompressedBytes (satMul (maxTotalFrames maxFrameData maxCompressedBytes) Frame.overhead)

/-- Appends a batch if the hard limits hold; otherwise rejects it without touching the stream. -/
def addBatch (c : Channel br) (batch : SingleBatch) (daBacklogBytes : ℕ) :
    Except ChannelError ChannelAddOutcome × Channel br :=
  let maxChannelBytes := c.rollupConfig.maxRlpBytesPerChannel batch.timestamp
  match c.compressor with
  | none => (.error .closed, c)
  | some compressor =>
    let candidate := batch.batchWire
    let nextInputBytes := satAdd c.inputBytes candidate.length
    if nextInputBytes > maxChannelBytes then
      (.ok (.rejected (.rlpBytes nextInputBytes maxChannelBytes)), c)
    else
      let maxCompressedBytes := compressor.maxOutputSize nextInputBytes
      let totalFrames := maxTotalFrames c.maxFrameData maxCompressedBytes
      let assembled := maxAssembledBytes c.maxFrameData maxCompressedBytes
      if totalFrames > maxFrames then (.ok (.rejected (.frameCount totalFrames maxFrames)), c)
      else if assembled > maxChannelBytes then
        (.ok (.rejected (.assembledBytes assembled maxChannelBytes)), c)
      else
        match compressor.append candidate with
        | (.error e, compressor) =>
          (.error (.compression e), { c with compressor := some compressor })
        | (.ok output, compressor) =>
          let c := pushOutput { c with compressor := some compressor } output
          let c :=
            { c with
              inputBytes := nextInputBytes
              blocksAdded := c.blocksAdded + 1
              daBacklogBytes := c.daBacklogBytes + daBacklogBytes
              batches := c.batches ++ [batch] }
          match c.compressedSizeTarget with
          | some target =>
            if compressor.outputSize ≥ target then (.ok .targetReached, c) else (.ok .accepted, c)
          | none => (.ok .accepted, c)

/-- The limits within which a channel takes a batch. -/
structure Admits (c : Channel br) (s : CompressionStream br) (batch : SingleBatch) :
    Prop where
  rlpBytes : satAdd c.inputBytes batch.batchWire.length ≤
    c.rollupConfig.maxRlpBytesPerChannel batch.timestamp
  frameCount : maxTotalFrames c.maxFrameData
    (s.maxOutputSize (satAdd c.inputBytes batch.batchWire.length)) ≤ maxFrames
  assembledBytes : maxAssembledBytes c.maxFrameData
    (s.maxOutputSize (satAdd c.inputBytes batch.batchWire.length)) ≤
      c.rollupConfig.maxRlpBytesPerChannel batch.timestamp

/-- The channel with a batch that its compressor has taken. -/
def extend (c : Channel br) (s : CompressionStream br) (output : Bytes)
    (batch : SingleBatch) (daBacklogBytes : ℕ) : Channel br :=
  { c with
    compressor := some s
    output := enqueueOutput c.output output
    availableOutput := c.availableOutput + output.length
    compressedBytes := c.compressedBytes + output.length
    inputBytes := satAdd c.inputBytes batch.batchWire.length
    blocksAdded := c.blocksAdded + 1
    daBacklogBytes := c.daBacklogBytes + daBacklogBytes
    batches := c.batches ++ [batch] }

/-- A batch is rejected without effect, or it is within the limits and taken. -/
theorem addBatch_cases {outcome : ChannelAddOutcome} (h : c.addBatch batch da = (.ok outcome, c')) :
    (∃ limit, outcome = .rejected limit ∧ c' = c) ∨
      outcome.Taken ∧
        ∃ s s' out, c.compressor = some s ∧ s.append batch.batchWire = (.ok out, s') ∧
          Admits c s batch ∧ c' = c.extend s' out batch da := by
  unfold addBatch at h
  simp only at h
  split at h
  · cases h
  rename_i s hs
  split_ifs at h with hrlp hframes hbytes
  iterate 3
    · cases h
      exact .inl ⟨_, rfl, rfl⟩
  · refine .inr ?_
    split at h
    · cases h
    rename_i out s' hout
    have hc' : outcome.Taken ∧ c' = c.extend s' out batch da := by
      rw [pushOutput_eq] at h
      split at h
      · split_ifs at h <;> cases h
        · exact ⟨.inr rfl, rfl⟩
        · exact ⟨.inl rfl, rfl⟩
      · cases h
        exact ⟨.inl rfl, rfl⟩
    exact ⟨hc'.1, s, s', out, hs, hout, ⟨not_lt.mp hrlp, not_lt.mp hframes, not_lt.mp hbytes⟩, hc'.2⟩

theorem addBatch_of_admits {s s' : CompressionStream br} {out : Bytes}
    (hs : c.compressor = some s) (hadmits : Admits c s batch)
    (happend : s.append batch.batchWire = (.ok out, s'))
    (htarget : c.compressedSizeTarget = none) :
    c.addBatch batch da = (.ok .accepted, c.extend s' out batch da) := by
  unfold addBatch extend
  simp [hs, not_lt.mpr hadmits.rlpBytes, not_lt.mpr hadmits.frameCount,
    not_lt.mpr hadmits.assembledBytes, happend, pushOutput_eq, htarget]

/-- An open channel fails with its compressor, and only the compressor changes. -/
theorem addBatch_error {e : ChannelError} (hopen : c.isOpen)
    (h : c.addBatch batch da = (.error e, c')) :
    ∃ source s s', e = .compression source ∧ c.compressor = some s ∧
      s.append batch.batchWire = (.error source, s') ∧
      c' = { c with compressor := some s' } := by
  unfold addBatch at h
  simp only at h
  split at h
  · rename_i hnone
    simp [isOpen, hnone] at hopen
  · rename_i s hs
    split_ifs at h
    · cases h
    · cases h
    · cases h
    · split at h
      · rename_i source s' happend
        cases h
        exact ⟨source, s, s', rfl, hs, happend, rfl⟩
      · split at h
        · split_ifs at h <;> cases h
        · cases h

def close (c : Channel br) : Except ChannelError (Channel br) :=
  match c.compressor with
  | none => .ok c
  | some compressor =>
    match compressor.finish with
    | .error e => .error (.compression e)
    | .ok output => .ok (pushOutput { c with compressor := none, terminalPending := true } output)

/-- The channel behind the end of its stream. -/
def finished (c : Channel br) (s : CompressionStream br) : Channel br :=
  { c with
    compressor := none
    terminalPending := true
    output := enqueueOutput c.output (s.buffer ++ br.intoInner s.compressor)
    availableOutput := c.availableOutput + (s.buffer ++ br.intoInner s.compressor).length
    compressedBytes := c.compressedBytes + (s.buffer ++ br.intoInner s.compressor).length }

theorem close_eq {s : CompressionStream br} (hs : c.compressor = some s) :
    c.close = .ok (c.finished s) := by
  unfold close finished
  rw [hs]
  simp [CompressionStream.finish, pushOutput_eq]

theorem close_ok (c : Channel br) : ∃ c', c.close = .ok c' := by
  cases hs : c.compressor with
  | none => exact ⟨c, by rw [close, hs]⟩
  | some s => exact ⟨_, close_eq hs⟩

/-! ## Frames -/

/-- Drains `len` bytes from the FIFO of chunks; `none` when the FIFO runs out. -/
def takeOutput : List Bytes → ℕ → Option (Bytes × List Bytes)
  | output, 0 => some ([], output)
  | [], _ + 1 => none
  | chunk :: rest, len + 1 =>
    let consumed := min (len + 1) chunk.length
    if consumed < chunk.length then some (chunk.take consumed, chunk.drop consumed :: rest)
    else
      match takeOutput rest (len + 1 - consumed) with
      | none => none
      | some (data, rest) => some (chunk.take consumed ++ data, rest)

/-- The channel behind a frame of `dataLen` bytes, with what the frame leaves of the FIFO. -/
def behindFrame (c : Channel br) (dataLen : ℕ) (isLast : Bool) (output : List Bytes) : Channel br :=
  { c with
    output := output
    availableOutput := c.availableOutput - dataLen
    nextFrameNumber := c.nextFrameNumber + 1
    terminalPending := if isLast then false else c.terminalPending }

/-- Cuts the next numbered frame from the compressed FIFO. -/
def takeFrame (c : Channel br) (dataLen : ℕ) (isLast : Bool) :
    Except Panic (Except ChannelError (Frame × Channel br)) :=
  if dataLen > c.availableOutput then
    .ok (.error (.outputUnderflow dataLen c.availableOutput))
  else if c.nextFrameNumber ≥ maxFrames then
    .ok (.error (.tooManyFrames (c.nextFrameNumber + 1) maxFrames))
  else if isLast && (c.isOpen || dataLen != c.availableOutput || !c.terminalPending) then
    .ok (.error .invalidTerminalTransition)
  else
    match takeOutput c.output dataLen with
    | none => .error .outputLengthValidated
    | some (data, output) =>
      .ok (.ok
        (⟨c.id, UInt16.ofNat c.nextFrameNumber, data, isLast⟩, c.behindFrame dataLen isLast output))

/-- The drained bytes and what stays make up the FIFO. -/
theorem takeOutput_spec {output rest : List Bytes} {len : ℕ} {data : Bytes}
    (h : takeOutput output len = some (data, rest)) :
    data.length = len ∧ data ++ rest.flatten = output.flatten := by
  fun_induction takeOutput output len generalizing data rest with
  | case1 =>
    obtain ⟨rfl, rfl⟩ := Prod.mk.inj (Option.some.inj h)
    exact ⟨rfl, rfl⟩
  | case2 | case4 => cases h
  | case3 =>
    obtain ⟨rfl, rfl⟩ := Prod.mk.inj (Option.some.inj h)
    refine ⟨?_, ?_⟩
    · rw [length_take]
      omega
    · rw [flatten_cons, flatten_cons, ← append_assoc, take_append_drop]
  | case5 =>
    rename_i chunk tail len consumed hge data' rest' htail ih
    obtain ⟨rfl, rfl⟩ := Prod.mk.inj (Option.some.inj h)
    obtain ⟨hlen, hflat⟩ := ih htail
    refine ⟨?_, ?_⟩
    · rw [length_append, length_take]
      omega
    · rw [append_assoc, hflat, flatten_cons, take_of_length_le (by omega)]

theorem takeOutput_isSome {output : List Bytes} {len : ℕ} (h : len ≤ output.flatten.length) :
    ∃ data rest, takeOutput output len = some (data, rest) := by
  fun_induction takeOutput output len with
  | case1 | case3 | case5 => exact ⟨_, _, rfl⟩
  | case2 => simp at h
  | case4 chunk tail len consumed hge htail ih =>
    rw [flatten_cons, length_append] at h
    obtain ⟨data, rest, hsome⟩ := ih (by omega)
    rw [htail] at hsome
    cases hsome

theorem takeFrame_ok {dataLen : ℕ} {isLast : Bool} {frame : Frame}
    (h : c.takeFrame dataLen isLast = .ok (.ok (frame, c'))) :
    ∃ data output, takeOutput c.output dataLen = some (data, output) ∧
      dataLen ≤ c.availableOutput ∧ c.nextFrameNumber < maxFrames ∧
      (isLast = true → c.isOpen = false ∧ dataLen = c.availableOutput ∧ c.terminalPending = true) ∧
      frame = ⟨c.id, UInt16.ofNat c.nextFrameNumber, data, isLast⟩ ∧
      c' = c.behindFrame dataLen isLast output := by
  unfold takeFrame at h
  split_ifs at h with havail hmax hlast
  · cases h
  · cases h
  · cases h
  · split at h
    · cases h
    rename_i data output htake
    cases h
    refine ⟨data, output, htake, not_lt.mp havail, not_le.mp hmax, fun hl => ?_, rfl, rfl⟩
    simp only [hl, Bool.true_and, Bool.or_eq_true, not_or, bne_iff_ne, not_not, Bool.not_eq_true,
      Bool.not_eq_false, Bool.not_eq_true'] at hlast
    exact ⟨hlast.1.1, hlast.1.2, hlast.2⟩

/-! ## Confirmation and pruning -/

def recordConfirmation (c : Channel br) (l1Block : ℕ) : Channel br :=
  { c with
    firstConfirmedL1Block := some
      (match c.firstConfirmedL1Block with
        | none => l1Block
        | some first => min first l1Block)
    lastConfirmedL1Block := some
      (match c.lastConfirmedL1Block with
        | none => l1Block
        | some last => max last l1Block) }

/-- Shifts the block range after `pruneCount` blocks were dropped. -/
def rebaseAfterPrune (c : Channel br) (pruneCount : ℕ) : Channel br :=
  let oldEnd := c.blockStart + c.blocksAdded
  let blockStart := c.blockStart - pruneCount
  { c with blockStart := blockStart, blocksAdded := oldEnd - pruneCount - blockStart }

end Channel

end NodeReth
