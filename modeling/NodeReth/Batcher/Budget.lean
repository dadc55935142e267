import NodeReth.Lib.Packing
import NodeReth.Batcher.Conservation

/-!
# The frame budget of a channel

How many frames the packer cuts from a channel, against the projection with which `add_batch` admits
a batch. A channel cuts whole frames, at most one shorter frame in a blob that it shares with the
channels before it, one shorter frame in a blob that it fills alone, and the terminal frame. The
projection counts one cut for every 130020 bytes at a blob boundary, as if a blob held one frame;
`PacksWithin` is the condition under which it is enough.
-/

namespace NodeReth

open Channel DaEgress List Nat Runs Words

/-! ## Cutting a plan -/

variable {br : Brotli} {c c' : Channel br} {cs : List (Channel br)} {batch : SingleBatch}
  {id : ChannelId} {ps : List PlannedFrame}

namespace Channel

theorem takeFrame_eq {dataLen : ℕ} {isLast : Bool}
    (havailable : c.availableOutput = c.output.flatten.length) (hle : dataLen ≤ c.availableOutput)
    (hmax : c.nextFrameNumber < maxFrames)
    (hlast : isLast = true → c.isOpen = false ∧ dataLen = c.availableOutput ∧
      c.terminalPending = true) :
    ∃ frame output, c.takeFrame dataLen isLast =
        .ok (.ok (frame, c.behindFrame dataLen isLast output)) ∧
      output.flatten.length = c.availableOutput - dataLen := by
  obtain ⟨data, rest, htake⟩ := takeOutput_isSome (havailable ▸ hle)
  obtain ⟨hlen, hflat⟩ := takeOutput_spec htake
  have hterminal : (isLast && (c.isOpen || dataLen != c.availableOutput || !c.terminalPending)) =
      false := by
    cases isLast with
    | false => rfl
    | true =>
      obtain ⟨hopen, hall, hpending⟩ := hlast rfl
      simp [hopen, hall, hpending]
  refine ⟨⟨c.id, UInt16.ofNat c.nextFrameNumber, data, isLast⟩, rest, ?_, ?_⟩
  · unfold takeFrame
    rw [if_neg (by omega), if_neg (by omega), hterminal, htake]
    rfl
  · have := congrArg length hflat
    rw [length_append] at this
    omega

/-- The channel behind `n` frames: what is left of its output and whether the terminal frame is
still due. -/
def behindFrames (c : Channel br) (output : List Bytes) (terminalPending : Bool) (n : ℕ) : Channel br :=
  { c with
    output := output
    availableOutput := output.flatten.length
    nextFrameNumber := c.nextFrameNumber + n
    terminalPending := terminalPending }

end Channel

namespace DaEgress

variable {refused : ChannelError → Panic}

theorem takePlanned_eq {p : PlannedFrame} {pre post : List (Channel br)}
    {frame : Frame} (hpre : ∀ d ∈ pre, d.id ≠ p.channelId) (hc : c.id = p.channelId)
    (hcut : c.takeFrame p.dataLen p.isLast = .ok (.ok (frame, c'))) :
    takePlanned refused p (pre ++ c :: post) = .ok (frame, pre ++ c' :: post) := by
  induction pre with
  | nil => simp [takePlanned, if_pos hc, hcut]
  | cons d pre ih =>
    have hd := hpre d mem_cons_self
    have ih' := ih fun x hx => hpre x (mem_cons_of_mem d hx)
    simp [takePlanned, if_neg hd, ih']

theorem takePlanned_ok_of_plan (refused : ChannelError → Panic) (isLast : Bool)
    (post : List (Channel br)) {pre : List (Channel br)} {len : ℕ}
    (hpre : ∀ d ∈ pre, d.id ≠ id) (hid : c.id = id)
    (havailable : c.availableOutput = c.output.flatten.length) (hle : len ≤ c.availableOutput)
    (hmax : c.nextFrameNumber < maxFrames) (hpending : c.isOpen = true → c.terminalPending = false)
    (hlast : isLast = true → len = c.availableOutput ∧ c.terminalPending = true) :
    ∃ frame output, takePlanned refused ⟨id, len, isLast⟩ (pre ++ c :: post) =
        .ok (frame, pre ++ c.behindFrame len isLast output :: post) ∧
      output.flatten.length = c.availableOutput - len := by
  have hclosed : isLast = true → c.isOpen = false := by
    intro hl
    by_contra hopen
    have hfalse := hpending (Bool.eq_true_of_not_eq_false hopen)
    rw [(hlast hl).2] at hfalse
    cases hfalse
  obtain ⟨frame, output, hcut, hout⟩ :=
    takeFrame_eq havailable hle hmax fun hl => ⟨hclosed hl, hlast hl⟩
  exact ⟨frame, output, takePlanned_eq hpre hid hcut, hout⟩

theorem takePlan_append {qs : List PlannedFrame} {cs₁ cs₂ : List (Channel br)}
    {frames frames' : List Frame} (h : takePlan refused ps cs = .ok (frames, cs₁))
    (h' : takePlan refused qs cs₁ = .ok (frames', cs₂)) :
    takePlan refused (ps ++ qs) cs = .ok (frames ++ frames', cs₂) := by
  induction ps generalizing cs frames with
  | nil =>
    cases h
    exact h'
  | cons p ps ih =>
    obtain ⟨frame, cs', frames₁, hfirst, hrest, rfl⟩ := takePlan_cons_ok h
    simp [takePlan, hfirst, ih hrest]

end DaEgress

variable {M a a' r r' : ℕ}

theorem Cuts.take (refused : ChannelError → Panic) (pre post : List (Channel br)) {t t' : Bool}
    (h : Cuts id M a t r ps a' t' r') (hid : c.id = id)
    (ha : c.availableOutput = a) (ht : c.terminalPending = t)
    (havailable : c.availableOutput = c.output.flatten.length)
    (hpending : c.isOpen = true → c.terminalPending = false)
    (hroom : c.nextFrameNumber + ps.length ≤ maxFrames) (hpre : ∀ d ∈ pre, d.id ≠ id) :
    ∃ frames output, takePlan refused ps (pre ++ c :: post) =
        .ok (frames, pre ++ c.behindFrames output t' ps.length :: post) ∧
      output.flatten.length = a' := by
  induction h generalizing c with
  | done =>
    refine ⟨[], c.output, ?_, by omega⟩
    have hsame : c.behindFrames c.output c.terminalPending 0 = c := by
      simp [behindFrames, ← havailable]
    rw [← ht, length_nil, hsame]
    rfl
  | @data a a' r r' len t t' ps hpos hlen hle hr hcut hrest ih =>
    subst ha ht
    rw [length_cons] at hroom
    obtain ⟨frame, output, htake, hout⟩ := takePlanned_ok_of_plan refused
      (len == c.availableOutput && c.terminalPending) post hpre hid havailable hle (by omega)
      hpending (by simp)
    have hterminal : (c.behindFrame len (len == c.availableOutput && c.terminalPending)
        output).terminalPending = (c.terminalPending && len != c.availableOutput) := by
      unfold behindFrame
      cases c.terminalPending <;> cases hl : len == c.availableOutput <;> simp_all
    obtain ⟨frames, output', hrun, hout'⟩ := ih
      (c := c.behindFrame len (len == c.availableOutput && c.terminalPending) output) hid rfl
      hterminal hout.symm (fun hopen => by rw [hterminal, hpending hopen]; rfl)
      (by simp [behindFrame]; omega)
    refine ⟨frame :: frames, output', ?_, hout'⟩
    simp only [takePlan, htake, hrun]
    have hsame : (c.behindFrame len (len == c.availableOutput && c.terminalPending)
        output).behindFrames output' t' ps.length = c.behindFrames output' t' (ps.length + 1) := by
      simp [behindFrame, behindFrames, add_assoc, add_comm 1]
    rw [hsame]
    rfl
  | terminal hr =>
    obtain ⟨frame, output, htake, hout⟩ := takePlanned_ok_of_plan refused true post hpre
      hid havailable (zero_le _) (by simpa using hroom) hpending fun _ => ⟨ha.symm, ht⟩
    refine ⟨[frame], output, ?_, by omega⟩
    simp only [takePlan, htake]
    have hsame : c.behindFrame 0 true output = c.behindFrames output false 1 := by
      simp [behindFrame, behindFrames, hout]
    rw [hsame]
    rfl

/-! ## The budget -/

/-- The stream returns no more than its bound for what it took, up to the bytes that finishing
would add. -/
def Brotli.Bounded (br : Brotli) : Prop :=
  ∀ (level : BrotliLevel) (inputs : List Bytes) (out : Bytes) (s : CompressionStream br),
    CompressionStream.Fed level True inputs out s →
      (out ++ (s.buffer ++ br.intoInner s.compressor)).length ≤
        br.maxCompressedSize inputs.flatten.length + 1

/-- The most frames that the packer cuts from `maxCompressedBytes`. -/
def packedFrames (maxFrameData maxCompressedBytes : ℕ) : ℕ :=
  Packing.worstCount blobCapacity Frame.encodedOverhead maxFrameData maxCompressedBytes

namespace Channel

/-- `max_output_size` of the input that the channel has taken. -/
def maxCompressedBytes (c : Channel br) : ℕ := satAdd (br.maxCompressedSize c.inputBytes) 1

/-- The limits that held when the channel took its last batch, and the packer's own count. -/
structure Admitted (c : Channel br) (batch : SingleBatch) : Prop where
  frames_le : maxTotalFrames c.maxFrameData c.maxCompressedBytes ≤ maxFrames
  assembled_le : maxAssembledBytes c.maxFrameData c.maxCompressedBytes ≤
    c.rollupConfig.maxRlpBytesPerChannel batch.timestamp
  packed_le : packedFrames c.maxFrameData c.maxCompressedBytes ≤
    maxTotalFrames c.maxFrameData c.maxCompressedBytes

/-- `Packing.Packed` for frames in blobs. -/
abbrev FramesCut (maxFrameData : ℕ) (complete : Bool) (frames size : ℕ) : Prop :=
  Packing.Packed blobCapacity Frame.encodedOverhead maxFrameData complete frames size

/-- What the stream of a channel has emitted, from the inputs it took. -/
def Fed (c : Channel br) : Prop :=
  (∃ level inputs out s, c.compressor = some s ∧ CompressionStream.Fed level True inputs out s ∧
      out.length = c.compressedBytes ∧ inputs.flatten.length = c.inputBytes) ∨
    (c.compressor = none ∧ c.compressedBytes ≤ br.maxCompressedSize c.inputBytes + 1)

structure Budgeted (c : Channel br) : Prop where
  frameData_pos : 0 < c.maxFrameData
  frameData_le : c.maxFrameData ≤ blobCapacity
  available : c.availableOutput = c.output.flatten.length
  pending : c.isOpen = true → c.terminalPending = false
  fed : c.Fed
  blocksAdded_le : c.blocksAdded ≤ c.batches.length
  /-- A channel that never took a batch is open and has emitted nothing. -/
  empty : c.batches = [] → c.isOpen = true ∧ c.compressedBytes = 0
  admitted : ∀ batch ∈ c.batches.getLast?, c.Admitted batch
  available_le : c.availableOutput ≤ c.compressedBytes
  cut : FramesCut c.maxFrameData c.framingComplete c.nextFrameNumber
    (c.compressedBytes - c.availableOutput)

theorem Admitted.maxCompressedBytes_eq (h : c.Admitted batch)
    (hpos : 0 < c.maxFrameData) (hle : c.maxFrameData ≤ blobCapacity) :
    c.maxCompressedBytes = br.maxCompressedSize c.inputBytes + 1 := by
  refine satAdd_eq_of_lt ?_
  have hframes := h.frames_le
  rw [maxTotalFrames_eq hframes] at hframes
  have hcount := (le_add_right _ _).trans hframes
  have hsize := le_divCeil_mul c.maxCompressedBytes hpos
  have hbound : divCeil c.maxCompressedBytes c.maxFrameData * c.maxFrameData ≤
      maxFrames * blobCapacity := Nat.mul_le_mul hcount hle
  have hnum : maxFrames * blobCapacity < u64Max := by decide
  exact hsize.trans_lt (hbound.trans_lt hnum)

theorem Budgeted.compressedBytes_le (h : c.Budgeted) (hbr : br.Bounded) :
    c.compressedBytes ≤ br.maxCompressedSize c.inputBytes + 1 := by
  rcases h.fed with ⟨level, inputs, out, s, -, hfed, hout, hin⟩ | ⟨-, hle⟩
  · have hle := hbr level inputs out s hfed
    rw [length_append, hin] at hle
    omega
  · exact hle

end Channel

/-- A plan adds frames to those cut so far. A short frame that is not the terminal one fills a blob,
or it is among the first frames of the channel. -/
theorem Cuts.framesCut {n size : ℕ} {t t' : Bool} (h : Cuts id M a t r ps a' t' r')
    (hcut : Channel.FramesCut M false n size)
    (hfill : n = 0 ∨ ∀ j p, 0 < p → p < M → t' = t → a = a' + j * M + p →
      r = r' + j * (Frame.encodedOverhead + M) + Frame.encodedOverhead + p →
        j = Packing.fullPieces blobCapacity Frame.encodedOverhead M ∧
          Packing.leastTail blobCapacity Frame.encodedOverhead M ≤ p) :
    a' ≤ a ∧ Channel.FramesCut M (t && !t') (n + ps.length) (size + (a - a')) := by
  have hsame : ∀ t : Bool, (t && !t) = false := by decide
  obtain ⟨j, ⟨hps, rfl, ha, -⟩ | ⟨p, hps, ha, hr, ⟨hp, hpM, rfl, -⟩ | ⟨-, rfl, rfl, rfl⟩⟩⟩ :=
    h.shape
  · rw [hsame, hps]
    exact ⟨by omega, (hcut.whole j).mono (by omega)⟩
  · rw [hsame, hps]
    refine ⟨by omega, ?_⟩
    rcases hfill with rfl | hfill
    · rw [zero_add]
      exact (Packing.Packed.first size j hp).mono (by omega)
    · obtain ⟨rfl, htail⟩ := hfill j p hp hpM rfl ha hr
      exact (hcut.fill htail).mono (by omega)
  · rw [hps]
    exact ⟨by omega, (hcut.whole j).last.mono (by omega)⟩

namespace Channel

theorem framingComplete_eq_false (hpending : c.isOpen = true → c.terminalPending = false)
    (hincomplete : c.framingComplete = false) : c.terminalPending = !c.isOpen := by
  cases hopen : c.isOpen with
  | true => exact hpending hopen
  | false =>
    simp only [isOpen, Option.isSome_eq_false_iff] at hopen
    simpa [framingComplete, hopen] using hincomplete

namespace Budgeted

variable (h : c.Budgeted) (hbr : br.Bounded)

include h hbr

theorem frames_le (hbatch : batch ∈ c.batches.getLast?) {complete : Bool} {n size : ℕ}
    (hcut : FramesCut c.maxFrameData complete n size) (hsize : size ≤ c.compressedBytes) :
    n ≤ maxTotalFrames c.maxFrameData c.maxCompressedBytes := by
  have hadmitted := h.admitted batch hbatch
  have heq := hadmitted.maxCompressedBytes_eq h.frameData_pos h.frameData_le
  have hle := hsize.trans (h.compressedBytes_le hbr)
  exact (hcut.le_worstCount h.frameData_pos (heq ▸ hle)).trans hadmitted.packed_le

theorem frames_le_maxFrames {complete : Bool} {n size : ℕ}
    (hcut : FramesCut c.maxFrameData complete n size) (hsize : size ≤ c.compressedBytes) :
    n ≤ maxFrames := by
  cases hlast : c.batches.getLast? with
  | some batch =>
    exact (h.frames_le hbr hlast hcut hsize).trans (h.admitted batch hlast).frames_le
  | none =>
    -- without a batch nothing was emitted
    have hzero := (h.empty (getLast?_eq_none_iff.mp hlast)).2
    have hle := hcut.le_worstCount h.frameData_pos (C := 0) (by omega)
    have htwo : Packing.worstCount blobCapacity Frame.encodedOverhead c.maxFrameData 0 =
        2 := by simp [Packing.worstCount]
    rw [htwo] at hle
    exact hle.trans (by decide)

theorem take (refused : ChannelError → Panic)
    (post : List (Channel br)) (hincomplete : c.framingComplete = false) {a' r r' : ℕ} {t' : Bool}
    (hcuts : Cuts c.id c.maxFrameData c.availableOutput c.terminalPending r ps a' t' r')
    (hfill : c.nextFrameNumber = 0 ∨
      (r = blobCapacity ∧ (t' = c.terminalPending → r' ≤ Frame.encodedOverhead)) ∨
      (t' = c.terminalPending → a' + c.maxFrameData = c.availableOutput))
    {pre : List (Channel br)} (hpre : ∀ d ∈ pre, d.id ≠ c.id) :
    ∃ frames output, takePlan refused ps (pre ++ c :: post) =
        .ok (frames, pre ++ c.behindFrames output t' ps.length :: post) ∧
      (c.behindFrames output t' ps.length).Budgeted ∧
      (c.behindFrames output t' ps.length).framingComplete = (!c.isOpen && a' == 0 && !t') := by
  have hterminal := framingComplete_eq_false h.pending hincomplete
  have hcut := h.cut
  rw [hincomplete] at hcut
  obtain ⟨hle, hcut'⟩ := hcuts.framesCut hcut <| by
    rcases hfill with hzero | ⟨rfl, hfull⟩ | hwhole
    · exact .inl hzero
    · refine .inr fun j p hp hpM ht ha hr => ?_
      have hr' := hfull ht
      exact Packing.tail_spec hp hpM (by omega) (by omega)
    · refine .inr fun j p hp hpM ht ha hr => ?_
      have hM := hwhole ht
      cases j with
      | zero => omega
      | succ j =>
        rw [succ_mul] at ha
        omega
  have hsize : c.compressedBytes - c.availableOutput + (c.availableOutput - a') =
      c.compressedBytes - a' := by
    have := h.available_le
    omega
  rw [hsize] at hcut'
  obtain ⟨frames, output, htake, rfl⟩ := hcuts.take refused pre post rfl rfl rfl h.available
    h.pending (h.frames_le_maxFrames hbr hcut' (sub_le _ _)) hpre
  have hcomplete : (c.behindFrames output t' ps.length).framingComplete = (!c.isOpen && !t') := by
    simp [framingComplete, behindFrames, isOpen]
  refine ⟨frames, output, htake, ?_, ?_⟩
  · refine { h with
      available := rfl
      pending := fun hopen => ?_
      admitted := fun batch hb => { h.admitted batch hb with }
      available_le := hle.trans h.available_le
      cut := ?_ }
    · rcases hcuts.terminal_or with ht | ⟨-, ht, -⟩
      · exact ht.trans (h.pending hopen)
      · exact ht
    · rw [hcomplete, ← hterminal]
      exact hcut'
  · rw [hcomplete]
    rcases hcuts.terminal_or with rfl | ⟨-, -, ha⟩
    · rw [hterminal]
      cases c.isOpen <;> simp
    · rw [ha]
      simp

end Budgeted

end Channel

/-- A channel has frames only when those before it are complete. -/
def Fifo {br : Brotli} (cs : List (Channel br)) : Prop :=
  cs.Pairwise fun c d => 0 < d.nextFrameNumber → c.framingComplete = true

/-- Behind a channel that is not complete there are no frames. -/
theorem Fifo.noFrames (h : Fifo (c :: cs))
    (hincomplete : c.framingComplete = false) : ∀ d ∈ cs, d.nextFrameNumber = 0 := by
  intro d hd
  by_contra hne
  have hcomplete := (pairwise_cons.mp h).1 d hd (pos_of_ne_zero hne)
  rw [hincomplete] at hcomplete
  cases hcomplete

/-- A blob plan can be cut. The first channel with frames in it fills the blob unless it is
completed; the others have no frames before. -/
theorem FifoPlan.take (hbr : br.Bounded) (refused : ChannelError → Panic)
    {plan : List PlannedFrame} (h : FifoPlan cs r plan r') (pre : List (Channel br))
    (hids : ((pre ++ cs).map (·.id)).Nodup)
    (hbudget : ∀ c ∈ cs, c.Budgeted) (hfifo : Fifo cs) (hstart : (∀ c ∈ cs, c.nextFrameNumber = 0) ∨
      (r = blobCapacity ∧ (r' ≤ Frame.encodedOverhead ∨ ∃ c ∈ cs, c.isOpen = false ∧
        c.framingComplete = false ∧ ∃ p ∈ plan, p.channelId = c.id))) :
    ∃ frames cs', takePlan refused plan (pre ++ cs) = .ok (frames, pre ++ cs') ∧
      (∀ c ∈ cs', c.Budgeted) ∧ Fifo cs' := by
  induction h generalizing pre with
  | nil => exact ⟨[], [], rfl, nofun, .nil⟩
  | @skip c cs ps r r' hcomplete hrest ih =>
    have happend : pre ++ c :: cs = (pre ++ [c]) ++ cs := by simp
    obtain ⟨hc, hrest⟩ := forall_mem_cons.mp hbudget
    obtain ⟨frames, cs', htake, hbudget', hfifo'⟩ := ih (pre ++ [c]) (happend ▸ hids) hrest
      hfifo.tail <| by
        rcases hstart with hzero | ⟨hr, hfull | ⟨d, hd, hclosed, hincomplete, hp⟩⟩
        · exact .inl fun d hd => hzero d (mem_cons_of_mem c hd)
        · exact .inr ⟨hr, .inl hfull⟩
        · rcases mem_cons.mp hd with rfl | hd
          · rw [hcomplete] at hincomplete
            cases hincomplete
          · exact .inr ⟨hr, .inr ⟨d, hd, hclosed, hincomplete, hp⟩⟩
    refine ⟨frames, c :: cs', ?_, forall_mem_cons.mpr ⟨hc, hbudget'⟩,
      pairwise_cons.mpr ⟨fun _ _ _ => hcomplete, hfifo'⟩⟩
    rw [happend, htake, append_assoc]
    rfl
  | @stop c cs ps r r' hincomplete hcut =>
    obtain ⟨a', t', hcuts, hcomplete, hend⟩ := hcut
    have hother := id_ne_of_nodup hids
    have hpre : ∀ d ∈ pre, d.id ≠ c.id := fun d hd => hother d (mem_append_left _ hd)
    have hfill : c.nextFrameNumber = 0 ∨
        (r = blobCapacity ∧ (t' = c.terminalPending → r' ≤ Frame.encodedOverhead)) ∨
        (t' = c.terminalPending → a' + c.maxFrameData = c.availableOutput) := by
      rcases hstart with hzero | ⟨hr, hfull | ⟨d, hd, hclosed, -, p, hp, hpid⟩⟩
      · exact .inl (hzero c mem_cons_self)
      · exact .inr (.inl ⟨hr, fun _ => hfull⟩)
      · -- the closed channel that is due is this one, and what is left of it did not fit
        have hdc : d = c := by
          rcases mem_cons.mp hd with rfl | hd
          · rfl
          · exact absurd (hpid.symm.trans (hcuts.frame p hp).1) (hother d (mem_append_right _ hd))
        rw [hdc] at hclosed
        refine .inr (.inl ⟨hr, fun _ => ?_⟩)
        rcases hend rfl with hfull | ⟨hopen, -⟩
        · exact hfull
        · rw [hclosed] at hopen
          cases hopen
    obtain ⟨hc, hbudgets⟩ := forall_mem_cons.mp hbudget
    obtain ⟨frames, output, htake, hbudget', -⟩ :=
      hc.take hbr refused cs hincomplete hcuts hfill hpre
    refine ⟨frames, _ :: cs, htake, forall_mem_cons.mpr ⟨hbudget', hbudgets⟩,
      pairwise_cons.mpr ⟨fun d hd hframes => ?_, hfifo.tail⟩⟩
    exact absurd (hfifo.noFrames hincomplete d hd) hframes.ne'
  | @next c cs ps qs r r₁ r' hincomplete hcut hrest ih =>
    obtain ⟨a', t', hcuts, hcomplete, -⟩ := hcut
    have hother := id_ne_of_nodup hids
    have hpre : ∀ d ∈ pre, d.id ≠ c.id := fun d hd => hother d (mem_append_left _ hd)
    obtain ⟨hc, hbudgets⟩ := forall_mem_cons.mp hbudget
    obtain ⟨frames, output, htake, hbudget', hcomplete'⟩ :=
      hc.take hbr refused cs hincomplete hcuts (.inr (.inr fun ht => by
        -- the terminal frame is cut
        rw [ht, framingComplete_eq_false hc.pending hincomplete] at hcomplete
        cases hopen : c.isOpen <;> simp [hopen] at hcomplete)) hpre
    rw [← hcomplete] at hcomplete'
    obtain ⟨frames', cs', htake', hrest', hfifo'⟩ := ih (pre ++ [c.behindFrames output t' ps.length])
      (by simpa [behindFrames] using hids) hbudgets hfifo.tail (.inl (hfifo.noFrames hincomplete))
    simp only [append_assoc] at htake'
    exact ⟨frames ++ frames', c.behindFrames output t' ps.length :: cs', takePlan_append htake htake',
      forall_mem_cons.mpr ⟨hbudget', hrest'⟩, pairwise_cons.mpr ⟨fun _ _ _ => hcomplete', hfifo'⟩⟩

/-! ## Channels within their budget -/

theorem fifo_concat :
    Fifo (cs ++ [c]) ↔ Fifo cs ∧ ∀ d ∈ cs, 0 < c.nextFrameNumber → d.framingComplete = true := by
  unfold Fifo
  rw [pairwise_append]
  simp

namespace Channel.Budgeted

theorem fresh {rollupConfig : RollupConfig} {config : EncoderConfig}
    {blockStart l1Block : ℕ} (hvalid : config.validate = .ok ()) :
    (fresh br id rollupConfig config blockStart l1Block).Budgeted where
  frameData_pos := by
    have hsize := (EncoderConfig.validate_ok hvalid).2.1
    simp only [maxFrameData, Channel.fresh]
    omega
  frameData_le := by
    have hsize : config.maxFrameSize ≤ blobCapacity :=
      (EncoderConfig.validate_ok hvalid).2.2.1
    simp only [maxFrameData, Channel.fresh]
    omega
  available := rfl
  pending _ := rfl
  fed := .inl ⟨_, [], [], _, rfl, .new, rfl, rfl⟩
  blocksAdded_le := le_rfl
  empty _ := ⟨rfl, rfl⟩
  admitted := nofun
  available_le := le_rfl
  cut := .zero _ _ _ _

variable {s s' : CompressionStream br}

variable (h : c.Budgeted)

include h

theorem fed_of_open (hs : c.compressor = some s) :
    ∃ level inputs out, CompressionStream.Fed level True inputs out s ∧
      out.length = c.compressedBytes ∧ inputs.flatten.length = c.inputBytes := by
  rcases h.fed with ⟨level, inputs, out, t, ht, hfed, hout, hin⟩ | ⟨hnone, -⟩
  · obtain rfl : s = t := Option.some.inj (hs.symm.trans ht)
    exact ⟨level, inputs, out, hfed, hout, hin⟩
  · rw [hs] at hnone
    cases hnone

theorem incomplete_of_open (hs : c.compressor = some s) :
    FramesCut c.maxFrameData false c.nextFrameNumber (c.compressedBytes - c.availableOutput) := by
  have hcut := h.cut
  rwa [framingComplete_of_open (by rw [isOpen, hs]; rfl)] at hcut

theorem extend {out : Bytes} {da : ℕ} (hs : c.compressor = some s)
    (happend : s.append batch.batchWire = (.ok out, s')) (hadmits : Admits c s batch)
    (hpacks : packedFrames c.maxFrameData (c.extend s' out batch da).maxCompressedBytes ≤
      maxTotalFrames c.maxFrameData (c.extend s' out batch da).maxCompressedBytes) :
    (c.extend s' out batch da).Budgeted := by
  obtain ⟨level, inputs, emitted, hfed, hout, hin⟩ := h.fed_of_open hs
  have hinput : satAdd c.inputBytes batch.batchWire.length =
      c.inputBytes + batch.batchWire.length := by
    refine satAdd_eq_of_lt (hadmits.rlpBytes.trans_lt ?_)
    exact (c.rollupConfig.maxRlpBytesPerChannel_le _).trans_lt (by decide)
  have hopen : c.isOpen = true := by rw [isOpen, hs]; rfl
  refine ⟨h.frameData_pos, h.frameData_le, ?_, fun _ => h.pending hopen, ?_, ?_, ?_, ?_, ?_, ?_⟩
  · simp only [Channel.extend, flatten_enqueueOutput, length_append]
    rw [h.available]
  · refine .inl ⟨level, inputs ++ [batch.batchWire], emitted ++ out, s', rfl,
      hfed.append happend, ?_, ?_⟩
    · rw [length_append, hout]
      rfl
    · rw [flatten_append, length_append, hin]
      simp [Channel.extend, hinput]
  · have hblocks := h.blocksAdded_le
    simp only [Channel.extend, length_append, length_singleton]
    omega
  · intro hempty
    simp [Channel.extend] at hempty
  · intro b hb
    have heq : b = batch := by simpa [Channel.extend] using hb.symm
    subst heq
    exact ⟨hadmits.frameCount, hadmits.assembledBytes, hpacks⟩
  · have hle := h.available_le
    simp only [Channel.extend]
    omega
  · have hcut := h.incomplete_of_open hs
    rwa [show (c.extend s' out batch da).compressedBytes -
      (c.extend s' out batch da).availableOutput = c.compressedBytes - c.availableOutput from
        Nat.add_sub_add_right _ _ _]

theorem failed {input : Bytes} {err : CompressionError} (hs : c.compressor = some s)
    (happend : s.append input = (.error err, s')) :
    Channel.Budgeted { c with compressor := some s' } := by
  obtain ⟨level, inputs, emitted, hfed, hout, hin⟩ := h.fed_of_open hs
  have hopen : c.isOpen = true := by rw [isOpen, hs]; rfl
  exact ⟨h.frameData_pos, h.frameData_le, h.available, fun _ => h.pending hopen,
    .inl ⟨level, inputs, emitted, s', rfl, hfed.failed trivial happend, hout, hin⟩,
    h.blocksAdded_le, fun hempty => ⟨rfl, (h.empty hempty).2⟩,
    fun batch hb => { h.admitted batch hb with }, h.available_le, h.incomplete_of_open hs⟩

theorem finished (hbr : br.Bounded) (hs : c.compressor = some s) (hne : c.isEmpty = false) :
    (c.finished s).Budgeted := by
  obtain ⟨level, inputs, emitted, hfed, hout, hin⟩ := h.fed_of_open hs
  have hbound := hbr level inputs emitted s hfed
  rw [length_append, hout, hin] at hbound
  have hbatches : c.batches ≠ [] := by
    have hblocks := h.blocksAdded_le
    intro hempty
    simp only [isEmpty, beq_eq_false_iff_ne] at hne
    rw [hempty, length_nil] at hblocks
    omega
  refine ⟨h.frameData_pos, h.frameData_le, ?_, by rintro ⟨⟩, .inr ⟨rfl, hbound⟩, h.blocksAdded_le,
    fun hempty => absurd hempty hbatches, fun batch hb => { h.admitted batch hb with }, ?_, ?_⟩
  · simp only [Channel.finished, flatten_enqueueOutput, length_append]
    rw [h.available]
  · have hle := h.available_le
    simp only [Channel.finished]
    omega
  · have hcut := h.incomplete_of_open hs
    simp only [Channel.finished, Nat.add_sub_add_right]
    exact hcut

end Channel.Budgeted

/-- What the budget of a channel depends on. -/
def Channel.budgeting {br : Brotli} (c : Channel br) :
    Option (CompressionStream br) × List Bytes × ℕ × ℕ × ℕ × ℕ × ℕ × ℕ × Bool ×
      List SingleBatch × RollupConfig :=
  (c.compressor, c.output, c.availableOutput, c.compressedBytes, c.maxFrameSize, c.inputBytes,
    c.blocksAdded, c.nextFrameNumber, c.terminalPending, c.batches, c.rollupConfig)

theorem Channel.Budgeted.congr (h : c.Budgeted) (hsame : c'.budgeting = c.budgeting) :
    c'.Budgeted := by
  cases c
  obtain ⟨rfl, rfl, rfl, rfl, rfl, rfl, rfl, rfl, rfl, rfl, rfl⟩ := hsame
  exact { h with admitted := fun batch hb => { h.admitted batch hb with } }

theorem Channel.Budgeted.rebase (h : c.Budgeted) (n : ℕ) :
    (c.rebaseAfterPrune n).Budgeted := by
  have hblocks : (c.rebaseAfterPrune n).blocksAdded ≤ c.blocksAdded := by
    simp only [rebaseAfterPrune]
    omega
  exact { h with
    blocksAdded_le := hblocks.trans h.blocksAdded_le
    admitted := fun batch hb => { h.admitted batch hb with } }

/-! ## Moves -/

/-- Whenever `add_batch` admits a batch, the packer needs no more frames than it projects. -/
def PacksWithin (br : Brotli) (config : EncoderConfig) (rollupConfig : RollupConfig)
    (batch : SingleBatch) (inputBytes : ℕ) : Prop :=
  let maxFrameData := config.maxFrameSize - Frame.encodedOverhead
  let maxCompressedBytes := satAdd (br.maxCompressedSize inputBytes) 1
  let maxChannelBytes := rollupConfig.maxRlpBytesPerChannel batch.timestamp
  inputBytes ≤ maxChannelBytes → maxTotalFrames maxFrameData maxCompressedBytes ≤ maxFrames →
    maxAssembledBytes maxFrameData maxCompressedBytes ≤ maxChannelBytes →
      packedFrames maxFrameData maxCompressedBytes ≤ maxTotalFrames maxFrameData maxCompressedBytes

section

variable {e e' : BatchEncoder br} {evs : List MoveEvent}

structure BatchEncoder.Budgeted (e : BatchEncoder br) : Prop where
  valid : e.config.validate = .ok ()
  settings : ∀ c ∈ e.channels, c.maxFrameSize = e.config.maxFrameSize ∧ c.rollupConfig = e.rollupConfig
  channels : ∀ c ∈ e.channels, c.Budgeted
  fifo : Fifo e.channels

namespace BatchEncoder.Budgeted

theorem initial {rollupConfig : RollupConfig} {config : EncoderConfig}
    (hvalid : config.validate = .ok ()) : (initial br rollupConfig config).Budgeted :=
  ⟨hvalid, nofun, nofun, .nil⟩

section

variable (h : e.Budgeted)

include h

/-- The channels agree in what their budgets depend on. -/
theorem congr (hconfig : e'.config = e.config ∧ e'.rollupConfig = e.rollupConfig)
    (hsame : e'.channels.map budgeting = e.channels.map budgeting) : e'.Budgeted := by
  have hmatch : ∀ c' ∈ e'.channels, ∃ c ∈ e.channels, c'.budgeting = c.budgeting := by
    intro c' hc'
    have hmem : c'.budgeting ∈ e.channels.map budgeting := hsame ▸ mem_map_of_mem hc'
    obtain ⟨c, hc, heq⟩ := mem_map.mp hmem
    exact ⟨c, hc, heq.symm⟩
  refine ⟨hconfig.1 ▸ h.valid, fun c' hc' => ?_, fun c' hc' => ?_, ?_⟩
  · obtain ⟨c, hc, heq⟩ := hmatch c' hc'
    simp only [budgeting, Prod.mk.injEq] at heq
    obtain ⟨-, -, -, -, hsize, -, -, -, -, -, hrollup⟩ := heq
    rw [hsize, hrollup, hconfig.1, hconfig.2]
    exact h.settings c hc
  · obtain ⟨c, hc, heq⟩ := hmatch c' hc'
    exact (h.channels c hc).congr heq
  · -- the order of the FIFO is one of the projections
    have hpair : ∀ cs : List (Channel br), Fifo cs ↔
        (cs.map budgeting).Pairwise fun x y => 0 < y.2.2.2.2.2.2.2.1 →
          (x.1.isNone && !x.2.2.2.2.2.2.2.2.1) = true := by
      intro cs
      rw [pairwise_map]
      rfl
    rw [hpair, hsame, ← hpair]
    exact h.fifo

theorem sublist (hconfig : e'.config = e.config ∧ e'.rollupConfig = e.rollupConfig)
    (hsub : e'.channels.Sublist e.channels) : e'.Budgeted := by
  refine ⟨hconfig.1 ▸ h.valid, fun c hc => ?_, fun c hc => h.channels c (hsub.subset hc),
    List.Pairwise.sublist hsub h.fifo⟩
  rw [hconfig.1, hconfig.2]
  exact h.settings c (hsub.subset hc)

theorem replaceLast (hcs : e.channels = cs ++ [c]) (hcs' : e'.channels = cs ++ [c'])
    (hconfig : e'.config = e.config ∧ e'.rollupConfig = e.rollupConfig)
    (hsettings : c'.maxFrameSize = c.maxFrameSize ∧ c'.rollupConfig = c.rollupConfig)
    (hframes : c'.nextFrameNumber = c.nextFrameNumber) (hc' : c'.Budgeted) : e'.Budgeted := by
  have hold := h.settings
  have hbudgets := h.channels
  have hfifo := h.fifo
  rw [hcs] at hold hbudgets hfifo
  rw [fifo_concat] at hfifo
  rw [forall_mem_append, forall_mem_singleton] at hold hbudgets
  refine ⟨hconfig.1 ▸ h.valid, ?_, ?_, ?_⟩
  · rwa [hconfig.1, hconfig.2, hcs', forall_mem_append, forall_mem_singleton, hsettings.1, hsettings.2]
  · rw [hcs', forall_mem_append, forall_mem_singleton]
    exact ⟨hbudgets.1, hc'⟩
  · rwa [hcs', fifo_concat, hframes]

theorem opens (hopens : Opens e id evs cs c) : BatchEncoder.Budgeted { e with channels := cs ++ [c] } := by
  cases hopens with
  | current hcs =>
    rw [← hcs]
    exact h
  | fresh _ hvalid =>
    refine ⟨h.valid, ?_, ?_, fifo_concat.mpr ⟨h.fifo, fun _ _ hpos => absurd hpos (lt_irrefl 0)⟩⟩
    · rw [forall_mem_append, forall_mem_singleton]
      exact ⟨h.settings, rfl, rfl⟩
    · rw [forall_mem_append, forall_mem_singleton]
      exact ⟨h.channels, .fresh hvalid⟩

/-- The channels behind cut frames keep their settings. -/
theorem settings_of_map
    (hsame : cs.map (fun c => (c.maxFrameSize, c.rollupConfig)) =
      e.channels.map fun c => (c.maxFrameSize, c.rollupConfig)) :
    ∀ c ∈ cs, c.maxFrameSize = e.config.maxFrameSize ∧ c.rollupConfig = e.rollupConfig := by
  intro c hc
  have hmem : (c.maxFrameSize, c.rollupConfig) ∈
      e.channels.map fun c => (c.maxFrameSize, c.rollupConfig) := hsame ▸ mem_map_of_mem hc
  obtain ⟨d, hd, heq⟩ := mem_map.mp hmem
  rw [← (Prod.mk.inj heq).1, ← (Prod.mk.inj heq).2]
  exact h.settings d hd

theorem commitBlob (hbr : br.Bounded)
    (hids : (e.channels.map (·.id)).Nodup) {l1Head : ℕ} {plan : List PlannedFrame}
    (hplan : planBlob e.channels l1Head = some plan) :
    ∃ egress channels, e.egress.commitBlob e.channels plan = .ok (egress, channels) ∧
      BatchEncoder.Budgeted { e with egress := egress, channels := channels } := by
  obtain ⟨r', hfifo, hfull⟩ :=
    planBlob_spec (fun c hc => (h.channels c hc).frameData_pos) hplan
  have hrelease : r' ≤ Frame.encodedOverhead ∨ ∃ c ∈ e.channels, c.isOpen = false ∧
      c.framingComplete = false ∧ ∃ p ∈ plan, p.channelId = c.id := by
    rcases hfull with hfull | ⟨c, hc, hclosed, hincomplete, -, hp⟩
    · exact .inl hfull
    · exact .inr ⟨c, hc, hclosed, hincomplete, hp⟩
  obtain ⟨frames, cs, htake, hbudgets, hfifo'⟩ :=
    hfifo.take hbr .blobPlanSatisfiesLimits [] hids h.channels h.fifo (.inr ⟨rfl, hrelease⟩)
  rw [nil_append, nil_append] at htake
  refine ⟨_, cs, by rw [DaEgress.commitBlob, htake], h.valid, ?_, hbudgets, hfifo'⟩
  exact h.settings_of_map (DaEgress.takePlan_map (fun _ _ _ _ => rfl) htake)

theorem commitCalldata (hbr : br.Bounded)
    (hids : (e.channels.map (·.id)).Nodup) {p : PlannedFrame}
    (hplan : planCalldata e.channels = some p) :
    ∃ egress channels, e.egress.commitCalldata e.channels p = .ok (egress, channels) ∧
      BatchEncoder.Budgeted { e with egress := egress, channels := channels } := by
  obtain ⟨pre, c, post, a', t', r, r', hcs, hpre, hincomplete, hcuts, hwhole⟩ :=
    planCalldata_cut (fun c hc => (h.channels c hc).frameData_pos) hplan
  have hbudgets := h.channels
  have hfifo := h.fifo
  rw [hcs] at hids hbudgets hfifo
  have hother := id_ne_of_nodup hids
  obtain ⟨frames, output, htake, hc', -⟩ := (hbudgets c (by simp)).take hbr
    .calldataPlanSatisfiesLimits post hincomplete hcuts (.inr (.inr hwhole))
    fun d hd => hother d (mem_append_left _ hd)
  obtain ⟨frame, _, _, htake, hnil, -⟩ := takePlan_cons_ok htake
  cases hnil
  rw [← hcs] at htake
  refine ⟨{ e.egress with artifacts := e.egress.artifacts.push (.calldata frame) [p.channelId] },
    pre ++ c.behindFrames output t' [p].length :: post, by rw [DaEgress.commitCalldata, htake],
    h.valid, h.settings_of_map (takePlanned_map (fun _ _ _ _ => rfl) htake), ?_, ?_⟩
  · rw [forall_mem_append, forall_mem_cons] at hbudgets ⊢
    exact ⟨hbudgets.1, hc', hbudgets.2.2⟩
  · -- the channels behind the first unfinished one have no frames
    obtain ⟨hleft, hright, -⟩ := pairwise_append.mp hfifo
    refine pairwise_append.mpr ⟨hleft, pairwise_cons.mpr ⟨fun d hd hframes => ?_, hright.tail⟩,
      fun d hd _ _ _ => hpre d hd⟩
    exact absurd (Fifo.noFrames hright hincomplete d hd) hframes.ne'

/-- Every move keeps the channels within their budgets, as long as the batches that are taken are
ones that the packer needs no more frames for than projected. -/
theorem move (hbr : br.Bounded) (hids : (e.channels.map (·.id)).Nodup) (hmove : Move e evs e')
    (hpacks : ∀ batch n, .took batch n ∈ evs →
      PacksWithin br e.config e.rollupConfig batch n) : e'.Budgeted := by
  have hconfig := hmove.config
  cases hmove with
  | control | enqueue | lease | requeue id => exact h.congr hconfig rfl
  | append hopens hblock hbatch hs happend hadmits =>
    rename_i batch _ _ _ _
    have hopened := h.opens hopens
    obtain ⟨hsize, hrollup⟩ := hopened.settings _ mem_concat_self
    have hlimit := hpacks batch _ mem_concat_self
    unfold PacksWithin at hlimit
    rw [← hsize, ← hrollup] at hlimit
    refine hopened.replaceLast rfl rfl hconfig ⟨rfl, rfl⟩ rfl
      ((hopened.channels _ mem_concat_self).extend hs happend hadmits ?_)
    exact hlimit hadmits.rlpBytes hadmits.frameCount hadmits.assembledBytes
  | fail hopens hs happend =>
    have hopened := h.opens hopens
    exact hopened.replaceLast rfl rfl hconfig ⟨rfl, rfl⟩ rfl
      ((hopened.channels _ mem_concat_self).failed hs happend)
  | discard hcs =>
    refine h.sublist hconfig ?_
    rw [hcs]
    exact sublist_append_left _ _
  | close hcs hs hne =>
    exact h.replaceLast hcs rfl hconfig ⟨rfl, rfl⟩ rfl
      ((h.channels _ (by simp [hcs])).finished hbr hs hne)
  | release l1Head =>
    refine h.congr hconfig ?_
    rw [map_map]
    rfl
  | cutBlob hplan hcommit =>
    obtain ⟨egress, channels, hok, h'⟩ := h.commitBlob hbr hids hplan
    rw [hok] at hcommit
    cases hcommit
    exact h'
  | cutCalldata hplan hcommit =>
    obtain ⟨egress, channels, hok, h'⟩ := h.commitCalldata hbr hids hplan
    rw [hok] at hcommit
    cases hcommit
    exact h'
  | confirm id l1Block =>
    exact h.congr hconfig (BatchEncoder.confirm_map (fun _ _ => rfl) e id l1Block)
  | invalidate channelIdx =>
    rcases invalidateChannel_cases e channelIdx with heq | ⟨st, i, replay, -, -, -, -, heq⟩
    · rwa [heq]
    · refine h.sublist hconfig ?_
      rw [heq]
      exact take_sublist _ _
  | prune hn =>
    rename_i n
    have hdrop : BatchEncoder.Budgeted { e with
        channels := e.channels.dropWhile fun c => decide (c.blockEnd ≤ n) } :=
      h.sublist ⟨rfl, rfl⟩ (dropWhile_suffix _).sublist
    refine ⟨hconfig.1 ▸ h.valid, ?_, ?_, ?_⟩
    · rw [hconfig.1, hconfig.2, channels_dropSafe, forall_mem_map]
      exact hdrop.settings
    · rw [channels_dropSafe, forall_mem_map]
      exact fun c hc => (hdrop.channels c hc).rebase n
    · rw [channels_dropSafe]
      exact pairwise_map.mpr hdrop.fifo
  | reset => exact ⟨h.valid, nofun, nofun, .nil⟩

end

end BatchEncoder.Budgeted

end

end NodeReth
