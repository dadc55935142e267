import NodeReth.Batcher.Budget

/-!
# Frame plans and the limits of the reader

A run whose admitted batches all satisfy `PacksWithin` never panics, and every channel stays within
the frame count and the assembled size that its last batch was admitted with. Without that condition
the projection can be too small: with `shortFrames` one block already gives more frames than
projected.
-/

namespace NodeReth

open BatchEncoder Brotli Channel DaEgress List Nat RlpFormat Runs Words

variable {br : Brotli} {tx : Bytes}

section

variable {e e' : BatchEncoder br}

/-! ## No call panics -/

theorem BatchEncoder.Budgeted.buildBlobs (h : e.Budgeted) (hbr : br.Bounded)
    (hids : (e.channels.map (·.id)).Nodup) (l1Head maxBlobs fuel : ℕ) :
    ∃ egress channels,
      buildBlobs l1Head maxBlobs fuel e.egress e.channels = .ok (egress, channels) := by
  induction fuel generalizing e with
  | zero => exact ⟨_, _, rfl⟩
  | succ fuel ih =>
    unfold buildBlobs
    split_ifs
    · cases hplan : planBlob e.channels l1Head with
      | none => exact ⟨_, _, rfl⟩
      | some plan =>
        obtain ⟨egress, channels, hcommit, h'⟩ := h.commitBlob hbr hids hplan
        simp only [hcommit]
        obtain ⟨frames, htake, -⟩ := commitBlob_ok hcommit
        exact ih h' (takePlan_map (f := Channel.id) (fun _ _ _ _ => rfl) htake ▸ hids)
    · exact ⟨_, _, rfl⟩

theorem BatchEncoder.nextSubmission_of_prepared {e : BatchEncoder br} {egress : DaEgress}
    {channels : List (Channel br)} (h : e.prepared = .ok (egress, channels)) :
    ∃ r e', e.nextSubmission = .ok (r, e') ∧ e'.channels = channels := by
  unfold prepared at h
  unfold BatchEncoder.nextSubmission DaEgress.nextSubmission
  simp only [h]
  cases egress.artifacts.lease e.nextId e.config.maxBlobsPerTx <;> exact ⟨_, _, rfl, rfl⟩

theorem BatchEncoder.Budgeted.nextSubmission (h : e.Budgeted) (hbr : br.Bounded)
    (hids : (e.channels.map (·.id)).Nodup) : ∃ r e', e.nextSubmission = .ok (r, e') := by
  obtain ⟨egress, channels, hbuilt⟩ : ∃ egress channels, e.prepared = .ok (egress, channels) := by
    unfold prepared
    split_ifs
    · exact ⟨_, _, rfl⟩
    · unfold buildReadyArtifacts
      cases e.effectiveDaType with
      | blob => exact h.buildBlobs hbr hids _ _ _
      | calldata =>
        cases hplan : planCalldata e.channels with
        | none => exact ⟨_, _, rfl⟩
        | some p =>
          obtain ⟨egress, channels, hcommit, -⟩ := h.commitCalldata hbr hids hplan
          exact ⟨egress, channels, hcommit⟩
  obtain ⟨r, e', hnext, -⟩ := nextSubmission_of_prepared hbuilt
  exact ⟨r, e', hnext⟩

theorem BatchEncoder.Budgeted.step (h : e.Budgeted) (freshId : ChannelId) :
    ∃ r e', e.step freshId = .ok (r, e') := by
  unfold BatchEncoder.step
  split
  · exact ⟨_, _, rfl⟩
  split
  · exact ⟨_, _, rfl⟩
  · exact ⟨_, _, rfl⟩
  rename_i e₁ htimeout
  obtain ⟨due, e₂, hok, -, hsame⟩ := checkChannelTimeout_ok e
  rw [htimeout] at hok
  cases hok
  obtain rfl := hsame rfl
  split
  · exact ⟨_, _, rfl⟩
  split
  · exact ⟨_, _, rfl⟩
  -- the channel that takes the batch exists
  obtain ⟨e₃, hopen, c, hlast⟩ : ∃ e₃, e₁.ensureOpen freshId = .ok e₃ ∧
      ∃ c, e₃.channels.getLast? = some c := by
    have hnew : ∃ e₃, e₁.openNewChannel freshId e₁.blockCursor = .ok e₃ ∧
        ∃ c, e₃.channels.getLast? = some c := by
      refine ⟨{ e₁ with channels := e₁.channels ++ [.fresh br freshId e₁.rollupConfig
        e₁.config e₁.blockCursor e₁.l1Head] }, ?_, _, getLast?_concat⟩
      unfold openNewChannel Channel.new
      rw [h.valid]
    unfold ensureOpen
    split
    · rename_i c hc
      split_ifs
      · exact ⟨e₁, rfl, c, hc⟩
      · exact hnew
    · exact hnew
  unfold encodeBatch
  rw [hopen]
  simp only [hlast]
  split <;> exact ⟨_, _, rfl⟩

theorem BatchEncoder.Budgeted.call (h : e.Budgeted) (hbr : br.Bounded)
    (hids : (e.channels.map (·.id)).Nodup) (op : PipelineCall) :
    ∃ reply e', e.call op = .ok (reply, e') := by
  cases op with
  | step freshId =>
    obtain ⟨r, e', hstep⟩ := h.step freshId
    exact ⟨.stepped r, e', by simp [BatchEncoder.call, hstep]⟩
  | nextSubmission =>
    obtain ⟨r, e', hnext⟩ := h.nextSubmission hbr hids
    exact ⟨.submission r, e', by simp [BatchEncoder.call, hnext]⟩
  | _ => exact ⟨_, _, rfl⟩

/-! ## Runs -/

/-- A condition holds before every call of a run. -/
def BatchEncoder.Throughout {br : Brotli} (P : BatchEncoder br → PipelineCall → Prop) :
    BatchEncoder br → List PipelineCall → Prop
  | _, [] => True
  | e, op :: ops => P e op ∧
      ∀ reply e', e.call op = .ok (reply, e') → BatchEncoder.Throughout P e' ops

/-- The batch that a step offers to a channel satisfies `PacksWithin`. -/
def BatchEncoder.PacksWithin {br : Brotli} (e : BatchEncoder br) : PipelineCall → Prop
  | .step _ => ∀ batch inputBytes, e.Offers batch inputBytes →
      NodeReth.PacksWithin br e.config e.rollupConfig batch inputBytes
  | _ => True

/-- What holds in every state of a run within the budget; `used` are the identifiers drawn. -/
structure BatchEncoder.Sound (used : List ChannelId) (e : BatchEncoder br) : Prop where
  budgeted : e.Budgeted
  leased : e.Leased
  conserves : e.Conserves True used

theorem BatchEncoder.Sound.call {used : List ChannelId} (h : e.Sound used)
    (hbr : br.Bounded) {op : PipelineCall} {reply : PipelineReply}
    (hcall : e.call op = .ok (reply, e')) (hpacks : e.PacksWithin op)
    (hfresh : (used ++ op.drawn).Nodup) :
    ∃ drawn, drawn.Sublist op.drawn ∧ e'.Sound (used ++ drawn) := by
  obtain ⟨evs, ⟨hdrawn, htook, -⟩, hmoves⟩ := moves_of_call hcall
  refine ⟨_, hdrawn, ?_⟩
  have hnodup : (used ++ evs.filterMap MoveEvent.drawn?).Nodup :=
    (hdrawn.append_left used).nodup hfresh
  have hlimit : ∀ batch n, .took batch n ∈ evs →
      NodeReth.PacksWithin br e.config e.rollupConfig batch n := by
    intro batch n hmem
    obtain ⟨⟨id, rfl⟩, hoffers⟩ := htook batch n hmem
    exact hpacks batch n hoffers
  have hinv := Steps.invariant
    (fun evs t => (used ++ evs.filterMap MoveEvent.drawn?).Nodup →
      (∀ batch n, .took batch n ∈ evs →
        NodeReth.PacksWithin br e.config e.rollupConfig batch n) →
      t.Sound (used ++ evs.filterMap MoveEvent.drawn?) ∧ t.config = e.config ∧
        t.rollupConfig = e.rollupConfig)
    (fun xs ys t u ih hmove hxys hlim => ?_) (fun _ _ => ⟨?_, rfl, rfl⟩) hmoves hnodup hlimit
  · exact hinv.1
  · rw [filterMap_append, ← append_assoc] at hxys ⊢
    obtain ⟨ht, hconfig, hrollup⟩ := ih (nodup_append.mp hxys).1
      fun batch n hmem => hlim batch n (mem_append_left _ hmem)
    have hids := ht.conserves.ids_nodup
    refine ⟨⟨?_, (ht.leased.move hmove).1, ?_⟩, hmove.config.1.trans hconfig,
      hmove.config.2.trans hrollup⟩
    · refine ht.budgeted.move hbr hids hmove fun batch n hmem => ?_
      rw [hconfig, hrollup]
      exact hlim batch n (mem_append_right _ hmem)
    · exact ht.conserves.move ht.leased hmove (fun _ => trivial)
        fun id hid hmem => (nodup_append.mp hxys).2.2 id hmem id hid rfl
  · simpa using h

/-- A run within the budget does not panic, and every state that it reaches is sound. -/
theorem BatchEncoder.Sound.run {used : List ChannelId} (h : e.Sound used)
    (hbr : br.Bounded) {ops : List PipelineCall}
    (hpacks : BatchEncoder.Throughout BatchEncoder.PacksWithin e ops)
    (hfresh : (used ++ ops.flatMap PipelineCall.drawn).Nodup) :
    ∃ replies e' used', e.runCalls ops = some (replies, e') ∧ e'.Sound used' := by
  induction ops generalizing e used with
  | nil => exact ⟨[], e, used, rfl, h⟩
  | cons op ops ih =>
    rw [flatMap_cons, ← append_assoc] at hfresh
    obtain ⟨reply, e₁, hcall⟩ := h.budgeted.call hbr h.conserves.ids_nodup op
    obtain ⟨drawn, hdrawn, h₁⟩ := h.call hbr hcall hpacks.1 (nodup_append.mp hfresh).1
    have hsub : (used ++ drawn ++ ops.flatMap PipelineCall.drawn).Sublist
        (used ++ op.drawn ++ ops.flatMap PipelineCall.drawn) :=
      (hdrawn.append_left used).append_right _
    obtain ⟨replies, e', used', hrun, h'⟩ :=
      ih h₁ (hpacks.2 reply e₁ hcall) (hsub.nodup hfresh)
    refine ⟨reply :: replies, e', used', ?_, h'⟩
    rw [runCalls, hcall]
    simp [hrun]

end

/-! ## The limits -/

theorem sum_size (fs : List Frame) :
    (fs.map Frame.size).sum = (fs.flatMap (·.data)).length + fs.length * Frame.overhead := by
  induction fs with
  | nil => rfl
  | cons f fs ih =>
    rw [map_cons, sum_cons, flatMap_cons, length_append, length_cons, succ_mul, Frame.size]
    omega

variable {c c' : Channel br}

/-- A channel with frames has taken a batch, and its frames are within what that batch was admitted
with. -/
theorem Channel.Budgeted.limits {src : Feed} {fs : List Frame} (h : c.Budgeted)
    (hbr : br.Bounded) (hstreams : c.Streams src fs) (hframes : fs ≠ []) :
    ∃ batch, c.batches.getLast? = some batch ∧
      fs.length ≤ maxTotalFrames c.maxFrameData c.maxCompressedBytes ∧
      (fs.map Frame.size).sum ≤ c.rollupConfig.maxRlpBytesPerChannel batch.timestamp := by
  have hcount : fs.length = c.nextFrameNumber := by
    have := congrArg length hstreams.numbers
    rwa [length_map, length_range] at this
  have hpos : 0 < fs.length := length_pos_iff.mpr hframes
  cases hlast : c.batches.getLast? with
  | none =>
    -- a channel without a batch has emitted nothing, and it is open
    obtain ⟨hopen, hzero⟩ := h.empty (getLast?_eq_none_iff.mp hlast)
    have hcut := h.cut
    rw [framingComplete_of_open hopen, hzero, Nat.zero_sub] at hcut
    have hnone := hcut.eq_zero h.frameData_pos
    omega
  | some batch =>
    have hadmitted := h.admitted batch hlast
    have hframes := h.frames_le hbr hlast h.cut (sub_le _ _)
    rw [← hcount] at hframes
    refine ⟨batch, rfl, hframes, ?_⟩
    have heq := hadmitted.maxCompressedBytes_eq h.frameData_pos h.frameData_le
    have hsize := h.compressedBytes_le hbr
    have hcompressed := hstreams.compressed
    have hassembled := hadmitted.assembled_le
    have hlimit : c.rollupConfig.maxRlpBytesPerChannel batch.timestamp < u64Max :=
      (c.rollupConfig.maxRlpBytesPerChannel_le _).trans_lt (by decide)
    unfold maxAssembledBytes at hassembled
    have hadd := satAdd_eq_of_lt (hassembled.trans_lt hlimit)
    have hmul := satMul_eq_of_lt (a := maxTotalFrames c.maxFrameData c.maxCompressedBytes)
      (b := Frame.overhead) (by omega)
    have hcharge := mul_le_mul_right Frame.overhead hframes
    rw [sum_size]
    omega

/-- In every run whose admitted batches satisfy `PacksWithin`, with a compressor within its bound
and no repeated channel identifier: no call panics, and the frames cut from a channel are within the
projection and the size limit of its last admission. -/
theorem frame_limits (br : Brotli) (rollupConfig : RollupConfig) (config : EncoderConfig)
    (e₀ : BatchEncoder br) (ops : List PipelineCall)
    (hnew : new br rollupConfig config = .ok e₀) (hbr : br.Bounded)
    (hids : (ops.flatMap PipelineCall.drawn).Nodup)
    (hpacks : BatchEncoder.Throughout BatchEncoder.PacksWithin e₀ ops) :
    ∃ replies e, e₀.runCalls ops = some (replies, e) ∧ ∀ c ∈ e.channels,
      (framesOf c.id e.egress.artifacts.artifacts).length = c.nextFrameNumber ∧
      (framesOf c.id e.egress.artifacts.artifacts ≠ [] →
        ∃ batch, c.batches.getLast? = some batch ∧
          (framesOf c.id e.egress.artifacts.artifacts).length ≤
            maxTotalFrames c.maxFrameData c.maxCompressedBytes ∧
          ((framesOf c.id e.egress.artifacts.artifacts).map Frame.size).sum ≤
            c.rollupConfig.maxRlpBytesPerChannel batch.timestamp) := by
  obtain ⟨hvalid, rfl⟩ := new_ok hnew
  have hinit : (initial br rollupConfig config).Sound [] :=
    ⟨.initial hvalid, Leased.new, .initial rollupConfig config⟩
  obtain ⟨replies, e, used, hrun, h⟩ := hinit.run hbr hpacks (by simpa using hids)
  refine ⟨replies, e, hrun, fun c hc => ?_⟩
  have hstreams := h.conserves.streams c hc
  refine ⟨?_, (h.budgeted.channels c hc).limits hbr hstreams⟩
  have hlength := congrArg length hstreams.numbers
  rwa [length_map, length_range] at hlength

/-- A configuration with the default frame size satisfies `PacksWithin` throughout. -/
theorem packsWithin_maxBlobFrame (br : Brotli) {config : EncoderConfig}
    (hsize : config.maxFrameSize = maxBlobFrameSize) (rollupConfig : RollupConfig)
    (batch : SingleBatch) (n : ℕ) : PacksWithin br config rollupConfig batch n := by
  intro _ hframes _
  have hdata : config.maxFrameSize - Frame.encodedOverhead = 130020 := by
    rw [hsize]
    decide
  have hfull : Packing.fullPieces blobCapacity Frame.encodedOverhead 130020 = 0 := by
    decide
  have htail : Packing.leastTail blobCapacity Frame.encodedOverhead 130020 = 129997 := by
    decide
  have hcapacity : blobPayloadCapacity - Frame.encodedOverhead = 130020 := by decide
  have hpos : 1 ≤ satAdd (br.maxCompressedSize n) 1 :=
    le_min (le_add_left 1 _) (by decide)
  generalize satAdd (br.maxCompressedSize n) 1 = C at hframes hpos ⊢
  rw [maxTotalFrames_eq hframes, hcapacity, hdata]
  have hceil := le_divCeil_mul C (show 0 < 130020 by decide)
  unfold packedFrames Packing.worstCount
  simp only [hfull, htail]
  -- one frame a blob, where the projection has two
  omega

theorem BatchEncoder.config_call {e e' : BatchEncoder br} {op : PipelineCall}
    {reply : PipelineReply} (hcall : e.call op = .ok (reply, e')) : e'.config = e.config := by
  obtain ⟨evs, -, hmoves⟩ := moves_of_call hcall
  exact Steps.preserved (fun t => t.config = e.config)
    (fun _ _ _ ht hmove => hmove.config.1.trans ht) rfl hmoves

theorem BatchEncoder.throughout_maxBlobFrame {e : BatchEncoder br}
    (hsize : e.config.maxFrameSize = maxBlobFrameSize) (ops : List PipelineCall) :
    BatchEncoder.Throughout BatchEncoder.PacksWithin e ops := by
  induction ops generalizing e with
  | nil => trivial
  | cons op ops ih =>
    refine ⟨?_, fun reply e' hcall => ih (by rw [config_call hcall, hsize])⟩
    cases op with
    | step id => exact fun batch n _ => packsWithin_maxBlobFrame br hsize _ batch n
    | _ => trivial

/-- A writer that keeps its bound when it finishes keeps it always. -/
theorem Brotli.buffering_bounded {finish : Bytes → Bytes}
    (h : ∀ b : Bytes, (finish b).length ≤ encoderMaxCompressedSize b.length) :
    (buffering finish).Bounded := by
  intro level inputs out s hfed
  obtain ⟨hbuffer, hinput⟩ := hfed.buffering
  rw [← append_assoc, hbuffer, length_append, length_singleton, add_comm 1]
  refine succ_le_succ ?_
  rw [hinput]
  exact h inputs.flatten

theorem Brotli.stored_bounded : stored.Bounded := by
  refine buffering_bounded fun b => ?_
  have hbound : b.length + 4 * (b.length / 16384) + 6 ≤ encoderMaxCompressedSize b.length := by
    unfold encoderMaxCompressedSize
    split_ifs <;> omega
  unfold Stored.encode
  split_ifs
  · rw [length_singleton]
    omega
  · obtain ⟨k, hlen, hk⟩ := Stored.length_blocks (s := 4) (le_refl b.length)
    rw [length_append, length_singleton]
    unfold Stored.blockSize at hk
    omega

theorem frame_limits_sample : ∃ (e₀ : BatchEncoder Brotli.stored),
    new Brotli.stored sampleRollup EncoderConfig.defaultConfig = .ok e₀ ∧
      Brotli.stored.Bounded ∧ (sampleCalls.flatMap PipelineCall.drawn).Nodup ∧
      BatchEncoder.Throughout BatchEncoder.PacksWithin e₀ sampleCalls ∧
      ∃ replies e, e₀.runCalls sampleCalls = some (replies, e) ∧ ∀ c ∈ e.channels,
        (framesOf c.id e.egress.artifacts.artifacts).length = c.nextFrameNumber := by
  have hids : (sampleCalls.flatMap PipelineCall.drawn).Nodup := by decide
  have hpacks : BatchEncoder.Throughout BatchEncoder.PacksWithin
      (.initial stored sampleRollup EncoderConfig.defaultConfig) sampleCalls :=
    throughout_maxBlobFrame rfl sampleCalls
  obtain ⟨replies, e, hrun, hlimits⟩ := frame_limits Brotli.stored sampleRollup
    EncoderConfig.defaultConfig _ sampleCalls rfl stored_bounded hids hpacks
  exact ⟨_, rfl, stored_bounded, hids, hpacks, replies, e, hrun, fun c hc => (hlimits c hc).1⟩

/-! ## A projection that is too small

With 14 data bytes a frame, a blob of one channel holds 3514 whole frames and one of two bytes, so it
carries 49198 bytes in 3515 frames. Five such blobs make 17575 frames; the projection for their
245990 bytes is 17571 whole frames, two blob boundaries and one. -/

/-- A writer that pads what it stores up to its bound. -/
def Brotli.padded : Brotli :=
  buffering fun b => b ++ replicate (encoderMaxCompressedSize b.length - b.length) 0

theorem Brotli.length_padded (b : Bytes) :
    (padded.intoInner b).length = encoderMaxCompressedSize b.length := by
  have hle : b.length ≤ encoderMaxCompressedSize b.length := by
    unfold encoderMaxCompressedSize
    split_ifs <;> omega
  show (b ++ replicate (encoderMaxCompressedSize b.length - b.length) 0).length = _
  rw [length_append, length_replicate]
  omega

theorem Brotli.padded_bounded : padded.Bounded :=
  buffering_bounded fun b => (length_padded b).le

/-- Frames of 37 bytes, 14 of them data. -/
def shortFrames : EncoderConfig := { EncoderConfig.defaultConfig with maxFrameSize := 37 }

def largeBlock (tx : Bytes) : BaseBlock where
  header := (sampleBlock 1).header
  transactions :=
    [.deposit (L1BlockInfoTx.bedrock.selector ++ replicate 256 0), .user tx]

def largeBatch (tx : Bytes) : SingleBatch where
  parentHash := sampleHash 0
  epochNum := 0
  epochHash := FixedBytes.zero 32
  timestamp := 2
  transactions := [tx]

theorem blockToSingleBatch_largeBlock :
    BatchComposer.blockToSingleBatch (largeBlock tx) = .ok (largeBatch tx) := by
  have hepoch : L1BlockInfoTx.decodeCalldata (L1BlockInfoTx.bedrock.selector ++
      replicate 256 0) = some ⟨0, FixedBytes.zero 32⟩ := by decide +kernel
  simp only [BatchComposer.blockToSingleBatch, largeBlock, hepoch]
  rfl

/-- The length of the transaction takes three bytes, and so do those of the lists around it. -/
theorem length_batchWire_largeBatch (hlen : tx.length = 245821) :
    (largeBatch tx).batchWire.length = 245906 := by
  have hhash : ∀ h : B256, (writeString h.val).length = 33 := by
    intro h
    rw [writeString_eq (by rw [h.2]; decide), length_append, h.2]
    rfl
  have htx : (writeString tx).length = 245825 := by
    rw [writeString_eq (by omega), length_append, hlen]
    rfl
  have hbatch : (largeBatch tx).encode.length = 245901 := by
    have hsmall : (writeNat 0).length = 1 ∧ (writeNat 2).length = 1 := by decide
    simp only [SingleBatch.encode, largeBatch, flatMap_singleton, writeList, length_append, hhash,
      hsmall, htx]
    rfl
  rw [SingleBatch.batchWire, length_append, length_cons, hbatch]
  rfl

/-- A closed channel with `available` bytes of output left, behind so many frames and input bytes. -/
structure Loaded (available frames inputBytes : ℕ) (c : Channel padded) : Prop where
  compressor : c.compressor = none
  terminalPending : c.terminalPending = decide (0 < available)
  available : c.availableOutput = available
  output : c.availableOutput = c.output.flatten.length
  frames : c.nextFrameNumber = frames
  maxFrameSize : c.maxFrameSize = 37
  deadline : c.deadlineL1Block = 0
  inputBytes : c.inputBytes = inputBytes

section

variable {a k n : ℕ} {c : Channel padded}

theorem Loaded.maxFrameData (h : Loaded a k n c) : c.maxFrameData = 14 := by
  unfold Channel.maxFrameData
  rw [h.maxFrameSize]
  rfl

theorem Loaded.isOpen (h : Loaded a k n c) : c.isOpen = false := by
  rw [Channel.isOpen, h.compressor]
  rfl

theorem Loaded.framingComplete (h : Loaded a k n c) : c.framingComplete = !decide (0 < a) := by
  rw [Channel.framingComplete, h.compressor, h.terminalPending]
  rfl

theorem DaEgress.planBlob_singleton {c : Channel br} (l1Head : ℕ) (hM : 0 < c.maxFrameData)
    (hclosed : c.isOpen = false) (hincomplete : c.framingComplete = false)
    (hdue : c.deadlineDue l1Head = true) (havailable : 0 < c.availableOutput) :
    ∃ plan a' t' r', planBlob [c] l1Head = some plan ∧
      Cuts c.id c.maxFrameData c.availableOutput c.terminalPending blobCapacity plan a' t' r' ∧
      ((a' = 0 ∧ t' = false) ∨ r' ≤ Frame.encodedOverhead) := by
  rcases hnext : planChannelFrames c ⟨blobCapacity, []⟩ with ⟨complete, next⟩
  obtain ⟨ps, hframes, a', t', hcuts, hcomplete, hend⟩ := planChannelFrames_cut hM hnext
  rw [nil_append] at hframes
  have hrest : (a' = 0 ∧ t' = false) ∨ next.remaining ≤ Frame.encodedOverhead := by
    cases complete with
    | true =>
      rw [hclosed] at hcomplete
      exact .inl (by simpa using hcomplete)
    | false =>
      rcases hend rfl with hfull | ⟨hopen, -⟩
      · exact .inr hfull
      · rw [hclosed] at hopen
        cases hopen
  have hne : ps ≠ [] := by
    rintro rfl
    obtain ⟨ha, hr⟩ := hcuts.of_nil
    have hcapacity : Frame.encodedOverhead < blobCapacity := by decide
    simp only at hr
    omega
  refine ⟨ps, a', t', next.remaining, ?_, hcuts, hrest⟩
  have hmore : decide (next.frames.length > 0) = true := by
    rw [hframes]
    exact decide_eq_true (length_pos_iff.mpr hne)
  have hempty : next.frames.isEmpty = false := by
    rw [hframes]
    simpa using hne
  unfold planBlob
  simp only [hincomplete, hnext, Bool.false_eq_true, if_false, length_nil, hmore, hclosed,
    Bool.not_false, Bool.and_self, if_true, hdue, Bool.or_true, planChannels, ite_self, hempty]
  rw [hframes]

theorem Loaded.planBlob (h : Loaded a k n c) (ha : 0 < a) :
    ∃ plan a' t' r', planBlob [c] 0 = some plan ∧ Cuts c.id 14 a true 130043 plan a' t' r' ∧
      ((a' = 0 ∧ t' = false) ∨ r' ≤ 23) := by
  have hplan := planBlob_singleton (c := c) 0 (by rw [h.maxFrameData]; decide) h.isOpen
    (by rw [h.framingComplete, decide_eq_true ha]; rfl)
    (by rw [deadlineDue, h.deadline]; rfl) (by rwa [h.available])
  rwa [h.maxFrameData, h.available, h.terminalPending, decide_eq_true ha] at hplan

theorem Loaded.commitBlob (h : Loaded (49198 + a) k n c) (hfit : k + 3515 ≤ maxFrames)
    (egress : DaEgress) :
    ∃ plan frames c', DaEgress.planBlob [c] 0 = some plan ∧
      egress.commitBlob [c] plan = .ok (⟨egress.artifacts.push (.blob frames)
        (contributingChannels frames), egress.pending⟩, [c']) ∧
      Loaded a (k + 3515) n c' := by
  obtain ⟨plan, a', t', r', hplan, hcuts, hrest⟩ := h.planBlob (by omega)
  -- the blob is filled by 3514 whole frames and one of two bytes
  have hcount : plan.length = 3515 ∧ a' = a ∧ t' = decide (0 < a) := by
    have hoverhead : Frame.encodedOverhead = 23 := by decide
    obtain ⟨j, ⟨hps, rfl, ha, hr⟩ | ⟨p, hps, ha, hr, ⟨-, hpM, rfl, hend, hmore⟩ |
      ⟨hpM, -, rfl, rfl⟩⟩⟩ := hcuts.shape
    · rw [hoverhead] at hr
      omega
    · rw [hoverhead] at hr
      have hpos : 0 < a := by
        have := hmore rfl
        omega
      exact ⟨by omega, by omega, by simp [hpos]⟩
    · rw [hoverhead] at hr
      have hzero : a = 0 := by omega
      subst hzero
      exact ⟨by omega, rfl, rfl⟩
  obtain ⟨hlength, rfl, ht'⟩ := hcount
  have hframes := h.frames
  obtain ⟨frames, output, htake, hout⟩ := hcuts.take .blobPlanSatisfiesLimits [] [] rfl h.available
    (by rw [h.terminalPending]; exact decide_eq_true (by omega)) h.output (by simp [h.isOpen])
    (by omega) nofun
  refine ⟨plan, frames, c.behindFrames output t' plan.length, hplan, ?_, ?_⟩
  · rw [commitBlob, ← nil_append [c], htake]
    rfl
  · refine ⟨h.compressor, ht', hout, rfl, ?_, h.maxFrameSize, h.deadline, h.inputBytes⟩
    simp only [behindFrames]
    omega

end

theorem DaArtifacts.readyBlobCount_push (s : DaArtifacts) (frames : List Frame)
    (channelIds : List ChannelId) :
    (s.push (.blob frames) channelIds).readyBlobCount = s.readyBlobCount + 1 := by
  simp [readyBlobCount, push, DaArtifactPayload.isBlob]

/-- Full blobs, to the end of the output. -/
theorem Loaded.buildBlobs {m k n fuel : ℕ} {c : Channel padded} (h : Loaded (m * 49198) k n c)
    (hfit : k + m * 3515 ≤ maxFrames) (egress : DaEgress) (hfuel : m ≤ fuel)
    (hready : egress.artifacts.readyBlobCount + m ≤ 6) :
    ∃ egress' c', buildBlobs 0 6 fuel egress [c] = .ok (egress', [c']) ∧
      Loaded 0 (k + m * 3515) n c' := by
  induction m generalizing k c egress fuel with
  | zero =>
    refine ⟨egress, c, ?_, h⟩
    cases fuel with
    | zero => rfl
    | succ fuel =>
      unfold DaEgress.buildBlobs
      have hplan : DaEgress.planBlob [c] 0 = none := by
        simp [DaEgress.planBlob, DaEgress.planChannels, h.framingComplete]
      rw [hplan, ite_self]
  | succ m ih =>
    obtain ⟨fuel, rfl⟩ : ∃ n, fuel = n + 1 := ⟨fuel - 1, by omega⟩
    rw [succ_mul, add_comm] at h
    obtain ⟨plan, frames, c₁, hplan, hcommit, h₁⟩ := h.commitBlob (by omega) egress
    unfold DaEgress.buildBlobs
    rw [if_pos (by omega)]
    simp only [hplan, hcommit]
    rw [show k + (m + 1) * 3515 = k + 3515 + m * 3515 by omega] at hfit ⊢
    refine ih h₁ hfit _ (by omega) ?_
    rw [DaArtifacts.readyBlobCount_push]
    omega

def largeQueued (tx : Bytes) (channels : List (Channel padded)) (blockCursor : ℕ) :
    BatchEncoder padded :=
  { initial padded sampleRollup shortFrames with
    tip := some (sampleHash 1)
    blocks := [largeBlock tx]
    channels := channels
    blockCursor := blockCursor }

/-- The open channel that has taken the large block: its stream has returned the version byte. -/
def largeChannel (id : ChannelId) (tx : Bytes) : Channel padded :=
  (fresh padded id sampleRollup shortFrames 0 0).extend
    ⟨(largeBatch tx).batchWire, [], 1⟩ [BrotliLevel.channelVersion] (largeBatch tx)
    (blockDaBacklogBytes (largeBlock tx))

theorem Loaded.nextSubmission {n : ℕ} {c : Channel padded} (h : Loaded 245990 0 n c) (tx : Bytes) :
    ∃ r e c', (largeQueued tx [c] 1).nextSubmission = .ok (r, e) ∧ e.channels = [c'] ∧
      Loaded 0 17575 n c' := by
  obtain ⟨egress, c', hbuilt, h'⟩ := Loaded.buildBlobs (m := 5) h (by decide)
    (largeQueued tx [c] 1).egress (le_succ 5) (le_succ 5)
  obtain ⟨r, e, hnext, hchannels⟩ := nextSubmission_of_prepared (e := largeQueued tx [c] 1) hbuilt
  exact ⟨r, e, c', hnext, hchannels, h'⟩

section

variable (id : ChannelId) (hwire : (largeBatch tx).batchWire.length = 245906)

include hwire

theorem step_largeQueued : (largeQueued tx [] 0).step id =
    .ok (.ok .blockEncoded, largeQueued tx [largeChannel id tx] 1) := by
  have hopen : (largeQueued tx [] 0).ensureOpen id = .ok
      (largeQueued tx [fresh padded id sampleRollup shortFrames 0 0] 0) := rfl
  have hadmits : Channel.Admits (fresh padded id sampleRollup shortFrames 0 0)
      (CompressionStream.new padded shortFrames.brotliLevel) (largeBatch tx) := by
    have hdata : (fresh padded id sampleRollup shortFrames 0 0).maxFrameData = 14 :=
      rfl
    have hbound : (CompressionStream.new padded shortFrames.brotliLevel).maxOutputSize
        (satAdd (fresh padded id sampleRollup shortFrames 0 0).inputBytes 245906) = 245990 := by
      show (CompressionStream.new padded shortFrames.brotliLevel).maxOutputSize (satAdd 0 245906) = _
      decide
    refine ⟨?_, ?_, ?_⟩ <;> rw [hwire]
    · show satAdd 0 245906 ≤ sampleRollup.maxRlpBytesPerChannel 2
      decide
    · rw [hdata, hbound]
      decide
    · rw [hdata, hbound]
      show _ ≤ sampleRollup.maxRlpBytesPerChannel 2
      decide
  have happend (wire : Bytes) : (CompressionStream.new padded shortFrames.brotliLevel).append wire =
      (.ok [BrotliLevel.channelVersion], ⟨wire, [], 1⟩) := rfl
  have hadd : (fresh padded id sampleRollup shortFrames 0 0).addBatch
      (largeBatch tx) (blockDaBacklogBytes (largeBlock tx)) = (.ok .accepted, largeChannel id tx) :=
    addBatch_of_admits rfl hadmits (happend _) rfl
  have hblock : (largeQueued tx [] 0).blocks[(largeQueued tx [] 0).blockCursor]? =
      some (largeBlock tx) := rfl
  have htimeout : (largeQueued tx [] 0).checkChannelTimeout = .ok (false, largeQueued tx [] 0) := rfl
  unfold BatchEncoder.step
  simp only [htimeout, hblock, blockToSingleBatch_largeBlock]
  unfold encodeBatch
  rw [hopen]
  dsimp only [largeQueued, getLast?_singleton]
  rw [hadd]
  rfl

theorem loaded_largeChannel : ∃ c, (largeChannel id tx).close = .ok c ∧
    Loaded 245990 0 245906 (c.releaseAt 0) := by
  have hfinish : ([] ++ padded.intoInner (largeBatch tx).batchWire).length = 245989 := by
    rw [nil_append, length_padded, hwire]
    decide
  have hinput : (largeChannel id tx).inputBytes = 245906 := by
    unfold largeChannel Channel.extend
    rw [hwire]
    show satAdd 0 245906 = _
    decide
  have hclose := close_eq (c := largeChannel id tx) rfl
  unfold Channel.finished at hclose
  generalize [] ++ padded.intoInner (largeBatch tx).batchWire = rest at hfinish hclose
  refine ⟨_, hclose, rfl, ?_, ?_, ?_, rfl, rfl, rfl, hinput⟩
  · exact (decide_eq_true (by omega)).symm
  · show 0 + 1 + rest.length = _
    omega
  · show 0 + 1 + rest.length = (enqueueOutput [[BrotliLevel.channelVersion]] rest).flatten.length
    rw [flatten_enqueueOutput, length_append]
    rfl

theorem run_largeBlock : ∃ c, (initial Brotli.padded sampleRollup shortFrames).runCalls
      [.addBlock (largeBlock tx), .step id, .flush] =
        some ([.added (.ok ()), .stepped (.ok .blockEncoded), .flushed (.ok ())],
          largeQueued tx [c] 1) ∧
    Loaded 245990 0 245906 c := by
  have hadd : (initial padded sampleRollup shortFrames).addBlock
      (largeBlock tx) = (.ok (), largeQueued tx [] 0) := rfl
  have hstep := step_largeQueued id hwire
  obtain ⟨c, hclose, h⟩ := loaded_largeChannel id hwire
  have hflush : (largeQueued tx [largeChannel id tx] 1).flush =
      (.ok (), largeQueued tx [c.releaseAt 0] 1) := by
    unfold flush closeCurrentChannel
    dsimp only [largeQueued, getLast?_singleton]
    rw [hclose]
    rfl
  refine ⟨_, ?_, h⟩
  simp [runCalls, call, hadd, hstep, hflush]

end

/-- One block, flushed and submitted with frames of 37 bytes: a compressor that reaches its bound
makes the encoder cut more frames than the projection that admitted the block. -/
theorem frame_limits_exceeded :
    ∃ (e₀ : BatchEncoder Brotli.padded) (replies : List PipelineReply)
      (e : BatchEncoder Brotli.padded) (c : Channel Brotli.padded),
      new Brotli.padded sampleRollup shortFrames = .ok e₀ ∧
      Brotli.padded.Bounded ∧
      e₀.runCalls [.addBlock (largeBlock (replicate 245821 0)),
        .step (FixedBytes.zero 16), .flush, .nextSubmission] = some (replies, e) ∧
      e.channels = [c] ∧
      maxTotalFrames c.maxFrameData c.maxCompressedBytes < c.nextFrameNumber := by
  have hlen : (replicate 245821 (0 : UInt8)).length = 245821 := length_replicate
  generalize replicate 245821 (0 : UInt8) = tx at hlen ⊢
  obtain ⟨c₁, hrun, h₁⟩ :=
    run_largeBlock (FixedBytes.zero 16) (length_batchWire_largeBatch hlen)
  obtain ⟨r, e, c, hnext, hchannels, h⟩ := h₁.nextSubmission tx
  have hall := runCalls_append hrun
    (show runCalls _ [.nextSubmission] = some ([.submission r], e) by
      simp [runCalls, call, hnext])
  refine ⟨_, _, e, c, rfl, padded_bounded, hall, hchannels, ?_⟩
  have hbound : c.maxCompressedBytes = 245990 := by
    unfold maxCompressedBytes
    rw [h.inputBytes]
    decide
  have hframes := h.frames
  have hprojected : maxTotalFrames 14 245990 = 17574 := by decide
  rw [h.maxFrameData, hbound]
  omega

end NodeReth
