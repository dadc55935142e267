import NodeReth.Batcher.Lease
import NodeReth.Batcher.Plan

/-!
# Conservation of the frame stream

The frames of a channel in the ledger, in ledger order, are numbered from zero on and carry, with
the output that is still buffered, exactly what the compression stream has emitted; the terminal
flag is on the last one once framing is complete. Channels share artifacts and submissions, so the
invariant is kept for every surviving channel while others are pruned or replayed.
-/

namespace NodeReth

open BatchEncoder Channel DaArtifacts DaEgress List MoveEvent PushNew Runs

/-- The frames of a channel in some artifacts, in order. -/
def framesOf (id : ChannelId) (as : List DaArtifact) : List Frame :=
  as.flatMap fun a => a.payload.frames.filter (·.id = id)

/-- How the streams of an encoder are fed: the compression level, and whether the compressor may
fail. -/
structure Feed where
  level : BrotliLevel
  failures : Prop

namespace Channel

variable {br : Brotli}

/-- The bytes that the compression stream of a channel has emitted so far: those of the batches,
and the rest when the channel is closed. -/
def Emitted (src : Feed) (c : Channel br) (bytes : Bytes) : Prop :=
  ∃ out s, CompressionStream.Fed src.level src.failures (c.batches.map SingleBatch.batchWire) out s ∧
    ((c.compressor = some s ∧ bytes = out) ∨
      (c.compressor = none ∧ ∃ rest, s.finish = .ok rest ∧ bytes = out ++ rest))

/-- The frames `fs` and the buffered output make up the stream of a channel. -/
structure Streams (src : Feed) (c : Channel br) (fs : List Frame) : Prop where
  numbers : fs.map (·.number.toNat) = range c.nextFrameNumber
  emitted : c.Emitted src (fs.flatMap (·.data) ++ c.output.flatten)
  available : c.availableOutput = c.output.flatten.length
  compressed : c.compressedBytes = (fs.flatMap (·.data)).length + c.availableOutput
  isLast_iff : ∀ f ∈ fs, f.isLast = true ↔
    c.framingComplete = true ∧ f.number.toNat + 1 = c.nextFrameNumber
  complete : c.framingComplete = true → 0 < c.nextFrameNumber ∧ c.availableOutput = 0
  frameData_pos : 0 < c.maxFrameData

/-- What the stream of a channel depends on. -/
def streaming (c : Channel br) :
    ChannelId × Option (CompressionStream br) × List Bytes × ℕ × ℕ × ℕ × ℕ × Bool × List SingleBatch :=
  (c.id, c.compressor, c.output, c.availableOutput, c.compressedBytes, c.maxFrameSize,
    c.nextFrameNumber, c.terminalPending, c.batches)

variable {src : Feed} {c c' : Channel br} {fs : List Frame}

theorem Streams.congr (h : Streams src c fs) (hsame : c'.streaming = c.streaming) :
    Streams src c' fs := by
  unfold streaming at hsame
  simp only [Prod.mk.injEq] at hsame
  obtain ⟨-, hcompressor, houtput, havailable, hcompressed, hsize, hnumber, hterminal, hbatches⟩ :=
    hsame
  have hcomplete : c'.framingComplete = c.framingComplete := by
    unfold framingComplete
    rw [hcompressor, hterminal]
  obtain ⟨numbers, emitted, available, compressed, isLast_iff, complete, frameData_pos⟩ := h
  unfold Emitted at emitted
  unfold maxFrameData at frameData_pos
  rw [← hcompressor, ← houtput, ← hbatches] at emitted
  rw [← hsize] at frameData_pos
  refine ⟨hnumber ▸ numbers, emitted, ?_, ?_, ?_, ?_, frameData_pos⟩
  · rw [havailable, houtput, available]
  · rw [hcompressed, havailable, compressed]
  · rw [hcomplete, hnumber]
    exact isLast_iff
  · rw [hcomplete, hnumber, havailable]
    exact complete

theorem framingComplete_of_open (hopen : c.isOpen = true) : c.framingComplete = false := by
  unfold framingComplete
  rw [Option.isNone_eq_false_iff.mpr hopen, Bool.false_and]

namespace Streams

theorem fresh {id : ChannelId} {rollupConfig : RollupConfig} {config : EncoderConfig}
    {blockStart l1Block : ℕ} (hvalid : config.validate = .ok ())
    (hlevel : src.level = config.brotliLevel) :
    Streams src (fresh br id rollupConfig config blockStart l1Block) [] where
  numbers := rfl
  emitted := ⟨[], _, .new, .inl ⟨by rw [hlevel]; rfl, rfl⟩⟩
  available := rfl
  compressed := rfl
  isLast_iff := nofun
  complete := nofun
  frameData_pos := by
    have hsize := (EncoderConfig.validate_ok hvalid).2.1
    unfold maxFrameData Channel.fresh
    simp only
    omega

variable {s : CompressionStream br} (h : Streams src c fs)

include h

theorem numbers_lt {f : Frame} (hf : f ∈ fs) : f.number.toNat < c.nextFrameNumber := by
  have hmem : f.number.toNat ∈ fs.map (·.number.toNat) := mem_map_of_mem hf
  rw [h.numbers] at hmem
  exact mem_range.mp hmem

/-- The stream of an open channel has emitted what was cut and what is buffered. -/
theorem fed (hs : c.compressor = some s) :
    CompressionStream.Fed src.level src.failures (c.batches.map SingleBatch.batchWire)
      (fs.flatMap (·.data) ++ c.output.flatten) s := by
  obtain ⟨emitted, t, hall, ⟨ht, rfl⟩ | ⟨hnone, -⟩⟩ := h.emitted
  · cases hs.symm.trans ht
    exact hall
  · cases hs.symm.trans hnone

theorem extend {s s' : CompressionStream br} {out : Bytes}
    {batch : SingleBatch} {da : ℕ} (hs : c.compressor = some s)
    (happend : s.append batch.batchWire = (.ok out, s')) :
    Streams src (c.extend s' out batch da) fs := by
  have hopen : c.framingComplete = false :=
    framingComplete_of_open (by rw [isOpen, hs]; rfl)
  have hopen' : (c.extend s' out batch da).framingComplete = false := rfl
  refine ⟨h.numbers, ?_, ?_, ?_, fun f hf => ?_, ?_, h.frameData_pos⟩
  · refine ⟨_, s', ?_, .inl ⟨rfl, rfl⟩⟩
    simp only [Channel.extend, map_append, flatten_enqueueOutput, ← append_assoc]
    exact (h.fed hs).append happend
  · simp only [Channel.extend, flatten_enqueueOutput, length_append]
    rw [h.available]
  · simp only [Channel.extend]
    rw [h.compressed, Nat.add_assoc]
  · rw [h.isLast_iff f hf, hopen, hopen']
    simp
  · rintro ⟨⟩

theorem failed {s s' : CompressionStream br} {input : Bytes}
    {err : CompressionError} (hfailures : src.failures) (hs : c.compressor = some s)
    (happend : s.append input = (.error err, s')) :
    Streams src { c with compressor := some s' } fs := by
  have hcomplete : c.framingComplete = false :=
    framingComplete_of_open (by rw [isOpen, hs]; rfl)
  have hcomplete' : framingComplete { c with compressor := some s' } = false := rfl
  refine ⟨h.numbers, ?_, h.available, h.compressed, fun f hf => ?_, ?_, h.frameData_pos⟩
  · exact ⟨_, s', (h.fed hs).failed hfailures happend, .inl ⟨rfl, rfl⟩⟩
  · rw [h.isLast_iff f hf, hcomplete, hcomplete']
  · rintro ⟨⟩

theorem finished (hs : c.compressor = some s) : Streams src (c.finished s) fs := by
  refine ⟨h.numbers, ?_, ?_, ?_, fun f hf => ?_, nofun, h.frameData_pos⟩
  · refine ⟨_, s, h.fed hs, .inr ⟨rfl, _, rfl, ?_⟩⟩
    rw [Channel.finished, flatten_enqueueOutput, append_assoc]
  · simp only [Channel.finished, flatten_enqueueOutput, length_append]
    rw [h.available]
  · simp only [Channel.finished]
    rw [h.compressed, Nat.add_assoc]
  · rw [h.isLast_iff f hf, framingComplete_of_open (by rw [isOpen, hs]; rfl)]
    simp [framingComplete, Channel.finished]

/-- A frame moves its bytes from the buffer to the frames. It has data or is the terminal one, so
a complete channel yields none. -/
theorem takeFrame {dataLen : ℕ} {isLast : Bool} {frame : Frame}
    (hframe : 0 < dataLen ∨ isLast = true)
    (hcut : c.takeFrame dataLen isLast = .ok (.ok (frame, c'))) :
    frame.id = c.id ∧ Streams src c' (fs ++ [frame]) := by
  obtain ⟨data, output, htake, hle, hmax, hlast, rfl, rfl⟩ := takeFrame_ok hcut
  obtain ⟨hlen, hflat⟩ := takeOutput_spec htake
  refine ⟨rfl, ?_⟩
  have hincomplete : c.framingComplete = false := by
    by_contra hcomplete
    have hcomplete := Bool.eq_true_of_not_eq_false hcomplete
    have hempty := (h.complete hcomplete).2
    have hl : isLast = true := by
      rcases hframe with hpos | hl
      · omega
      · exact hl
    have hterminal := (hlast hl).2.2
    simp [framingComplete, hterminal] at hcomplete
  have hnumber : (UInt16.ofNat c.nextFrameNumber).toNat = c.nextFrameNumber := by
    unfold maxFrames at hmax
    rw [UInt16.toNat_ofNat', Nat.mod_eq_of_lt (by omega)]
  have hcomplete' : (c.behindFrame dataLen isLast output).framingComplete = isLast := by
    unfold framingComplete behindFrame
    cases hl : isLast with
    | true =>
      have hclosed := (hlast hl).1
      simp [isOpen] at hclosed
      simp [hclosed]
    | false => simpa [framingComplete] using hincomplete
  refine ⟨?_, ?_, ?_, ?_, ?_, ?_, h.frameData_pos⟩
  · rw [map_append, h.numbers, map_singleton, hnumber]
    exact range_succ.symm
  · have hemitted := h.emitted
    rw [← hflat] at hemitted
    rwa [flatMap_append, flatMap_singleton, append_assoc]
  · have havailable := h.available
    rw [← hflat, length_append] at havailable
    simp only [behindFrame]
    omega
  · have hcompressed := h.compressed
    simp only [behindFrame, flatMap_append, flatMap_singleton, length_append]
    omega
  · intro f hf
    rw [hcomplete']
    rcases mem_append.mp hf with hf | hf
    · have hlt := h.numbers_lt hf
      rw [h.isLast_iff f hf, hincomplete]
      simp only [behindFrame]
      constructor
      · rintro ⟨hfalse, -⟩
        cases hfalse
      · omega
    · rw [mem_singleton.mp hf]
      simp [behindFrame, hnumber]
  · rw [hcomplete']
    intro hl
    have hall := (hlast hl).2.1
    simp only [behindFrame]
    omega

end Streams

end Channel

/-! ## Frames in the ledger -/

theorem framesOf_append (id : ChannelId) (as bs : List DaArtifact) :
    framesOf id (as ++ bs) = framesOf id as ++ framesOf id bs := flatMap_append

theorem framesOf_map (id : ChannelId) (as : List DaArtifact) {g : DaArtifact → DaArtifact}
    (hg : ∀ a, (g a).payload = a.payload) : framesOf id (as.map g) = framesOf id as := by
  unfold framesOf
  rw [flatMap_map]
  simp [hg]

variable {refused : ChannelError → Panic} {F : ChannelId → List Frame} {as : List DaArtifact}
  {id : ChannelId}

/-- Artifacts without a frame of the channel may go. -/
theorem framesOf_filter {p : DaArtifact → Bool}
    (h : ∀ a ∈ as, (∃ f ∈ a.payload.frames, f.id = id) → p a = true) :
    framesOf id (as.filter p) = framesOf id as := by
  induction as with
  | nil => rfl
  | cons a as ih =>
    have ih' := ih fun b hb => h b (mem_cons_of_mem a hb)
    unfold framesOf at ih' ⊢
    rw [filter_cons]
    split_ifs with hp
    · rw [flatMap_cons, flatMap_cons, ih']
    · have hnone : a.payload.frames.filter (fun f => decide (f.id = id)) = [] := by
        refine filter_eq_nil_iff.mpr fun f hf hid => ?_
        exact hp (h a mem_cons_self ⟨f, hf, of_decide_eq_true hid⟩)
      rw [flatMap_cons, hnone, nil_append, ih']

theorem mem_framesOf {f : Frame} : f ∈ framesOf id as ↔ ∃ a ∈ as, f ∈ a.payload.frames ∧ f.id = id := by
  simp [framesOf]

/-- The invariant: `used` are the identifiers drawn so far. -/
structure Conserves {br : Brotli} (src : Feed) (used : List ChannelId)
    (cs : List (Channel br)) (as : List DaArtifact) : Prop where
  ids_nodup : (cs.map (·.id)).Nodup
  channel_used : ∀ c ∈ cs, c.id ∈ used
  frame_used : ∀ a ∈ as, ∀ f ∈ a.payload.frames, f.id ∈ used
  /-- An artifact knows the live channels of its frames. -/
  tagged : ∀ a ∈ as, ∀ f ∈ a.payload.frames, f.id ∈ cs.map (·.id) → f.id ∈ a.channelIds
  streams : ∀ c ∈ cs, c.Streams src (framesOf c.id as)

/-! ## Cutting frames -/

section

variable {br : Brotli} {src : Feed}

theorem id_ne_of_nodup {pre post : List (Channel br)} {c : Channel br}
    (h : ((pre ++ c :: post).map (·.id)).Nodup) : ∀ d ∈ pre ++ post, d.id ≠ c.id := by
  intro d hd heq
  rw [map_append, map_cons, nodup_middle, nodup_cons, ← map_append] at h
  exact h.1 (heq ▸ mem_map_of_mem hd)

theorem takePlanned_streams {p : PlannedFrame} {frame : Frame}
    {cs cs' : List (Channel br)} (hnodup : (cs.map (·.id)).Nodup)
    (h : ∀ c ∈ cs, c.Streams src (F c.id)) (hp : 0 < p.dataLen ∨ p.isLast = true)
    (htake : DaEgress.takePlanned refused p cs = .ok (frame, cs')) :
    frame.id = p.channelId ∧ frame.id ∈ cs.map (·.id) ∧
      ∀ c ∈ cs', c.Streams src (F c.id ++ [frame].filter (·.id = c.id)) := by
  obtain ⟨pre, c, post, c', rfl, hid, hcut, rfl⟩ := takePlanned_ok htake
  obtain ⟨hframe, hstreams⟩ := (h c (by simp)).takeFrame hp hcut
  have hc' : c'.id = c.id := by
    obtain ⟨-, -, -, -, -, -, -, rfl⟩ := takeFrame_ok hcut
    rfl
  refine ⟨hframe.trans hid, by simp [hframe], fun d hd => ?_⟩
  have hother := id_ne_of_nodup hnodup
  have hkeep : ∀ d ∈ pre ++ post, d.Streams src (F d.id ++ [frame].filter (·.id = d.id)) := by
    intro d hd
    have hne : frame.id ≠ d.id := hframe ▸ (hother d hd).symm
    rw [filter_singleton]
    simp only [hne, decide_false, cond_false, append_nil]
    refine h d ?_
    rcases mem_append.mp hd with hd | hd
    · exact mem_append_left _ hd
    · exact mem_append_right _ (mem_cons_of_mem c hd)
  rcases mem_append.mp hd with hd | hd
  · exact hkeep d (mem_append_left _ hd)
  rcases mem_cons.mp hd with rfl | hd
  · rw [hc']
    simpa [hframe] using hstreams
  · exact hkeep d (mem_append_right _ hd)

theorem takePlan_streams {plan : List PlannedFrame}
    {frames : List Frame} {cs cs' : List (Channel br)}
    (hnodup : (cs.map (·.id)).Nodup) (h : ∀ c ∈ cs, c.Streams src (F c.id))
    (hplan : ∀ p ∈ plan, 0 < p.dataLen ∨ p.isLast = true)
    (htake : DaEgress.takePlan refused plan cs = .ok (frames, cs')) :
    (∀ f ∈ frames, f.id ∈ cs.map (·.id)) ∧
      ∀ c ∈ cs', c.Streams src (F c.id ++ frames.filter (·.id = c.id)) := by
  induction plan generalizing cs F frames with
  | nil =>
    cases htake
    exact ⟨nofun, by simpa using h⟩
  | cons p plan ih =>
    obtain ⟨frame, cs₁, frames₁, hfirst, hrest, rfl⟩ := takePlan_cons_ok htake
    have hids : cs₁.map (·.id) = cs.map (·.id) :=
      takePlanned_map (fun _ _ _ _ => rfl) hfirst
    obtain ⟨-, hmem, h₁⟩ := takePlanned_streams hnodup h (hplan p mem_cons_self) hfirst
    obtain ⟨hmem', h'⟩ := ih (F := fun id => F id ++ [frame].filter (·.id = id)) (hids ▸ hnodup)
      h₁ (fun q hq => hplan q (mem_cons_of_mem p hq)) hrest
    refine ⟨fun f hf => ?_, fun c hc => ?_⟩
    · rcases mem_cons.mp hf with rfl | hf
      · exact hmem
      · exact hids ▸ hmem' f hf
    · have hstreams := h' c hc
      rwa [append_assoc, ← filter_append] at hstreams

/-! ## The operations -/

namespace Conserves

variable {used : List ChannelId} {cs cs' : List (Channel br)}

theorem replaceLast {c c' : Channel br} (h : Conserves src used cs' as) (hcs : cs' = cs ++ [c])
    (hid : c'.id = c.id) (hstreams : ∀ fs, c.Streams src fs → c'.Streams src fs) :
    Conserves src used (cs ++ [c']) as := by
  subst hcs
  have hids : (cs ++ [c']).map (·.id) = (cs ++ [c]).map (·.id) := by simp [hid]
  obtain ⟨hused, hlast⟩ := forall_mem_append.mp h.channel_used
  obtain ⟨hkept, hc⟩ := forall_mem_append.mp h.streams
  rw [forall_mem_singleton] at hlast hc
  refine ⟨hids ▸ h.ids_nodup, forall_mem_append.mpr ⟨hused, ?_⟩, h.frame_used, hids ▸ h.tagged,
    forall_mem_append.mpr ⟨hkept, ?_⟩⟩
  · rwa [forall_mem_singleton, hid]
  · rw [forall_mem_singleton, hid]
    exact hstreams _ hc

section

variable (h : Conserves src used cs as)

include h

theorem congr (hsame : cs'.map Channel.streaming = cs.map Channel.streaming) :
    Conserves src used cs' as := by
  have hids : cs'.map (·.id) = cs.map (·.id) := by
    have := congrArg (map Prod.fst) hsame
    rw [map_map, map_map] at this
    exact this
  have hmatch : ∀ c' ∈ cs', ∃ c ∈ cs, c'.streaming = c.streaming := by
    intro c' hc'
    have hmem : c'.streaming ∈ cs.map Channel.streaming := hsame ▸ mem_map_of_mem hc'
    obtain ⟨c, hc, heq⟩ := mem_map.mp hmem
    exact ⟨c, hc, heq.symm⟩
  refine ⟨hids ▸ h.ids_nodup, fun c' hc' => ?_, h.frame_used, hids ▸ h.tagged, fun c' hc' => ?_⟩
  · obtain ⟨c, hc, heq⟩ := hmatch c' hc'
    rw [show c'.id = c.id from congrArg Prod.fst heq]
    exact h.channel_used c hc
  · obtain ⟨c, hc, heq⟩ := hmatch c' hc'
    rw [show c'.id = c.id from congrArg Prod.fst heq]
    exact (h.streams c hc).congr heq

theorem restate (ids : List ArtifactId) (state : ArtifactState) :
    Conserves src used cs (as.map (DaArtifacts.restate ids state)) := by
  refine ⟨h.ids_nodup, h.channel_used, fun b hb f hf => ?_, fun b hb f hf hid => ?_, fun c hc => ?_⟩
  · obtain ⟨a, ha, rfl⟩ := mem_map.mp hb
    rw [restate_eq] at hf
    exact h.frame_used a ha f hf
  · obtain ⟨a, ha, rfl⟩ := mem_map.mp hb
    rw [restate_eq] at hf
    rw [restate_eq]
    exact h.tagged a ha f hf hid
  · rw [framesOf_map c.id as fun a => by rw [restate_eq]]
    exact h.streams c hc

theorem addChannel {c : Channel br} (hfresh : c.id ∉ used)
    (hstreams : c.Streams src []) : Conserves src (used ++ [c.id]) (cs ++ [c]) as := by
  have hnone : framesOf c.id as = [] := by
    refine eq_nil_iff_forall_not_mem.mpr fun f hf => ?_
    obtain ⟨a, ha, hmem, hid⟩ := mem_framesOf.mp hf
    exact hfresh (hid ▸ h.frame_used a ha f hmem)
  refine ⟨?_, forall_mem_append.mpr ⟨fun d hd => mem_append_left _ (h.channel_used d hd), by simp⟩,
    fun a ha f hf => mem_append_left _ (h.frame_used a ha f hf), fun a ha f hf hid => ?_,
    forall_mem_append.mpr ⟨h.streams, ?_⟩⟩
  · rw [map_append, map_singleton, nodup_append]
    refine ⟨h.ids_nodup, nodup_singleton _, fun i hi j hj heq => ?_⟩
    obtain ⟨d, hd, rfl⟩ := mem_map.mp hi
    rw [mem_singleton.mp hj] at heq
    exact hfresh (heq ▸ h.channel_used d hd)
  · rw [map_append, mem_append] at hid
    rcases hid with hid | hid
    · exact h.tagged a ha f hf hid
    · rw [map_singleton, mem_singleton] at hid
      exact absurd (hid ▸ h.frame_used a ha f hf) hfresh
  · rwa [forall_mem_singleton, hnone]

/-- New frames go into a new artifact with the channels that they came from. -/
theorem pushArtifact {frames : List Frame} {a : DaArtifact}
    (hids : cs'.map (·.id) = cs.map (·.id)) (hpayload : a.payload.frames = frames)
    (hchannels : ∀ f ∈ frames, f.id ∈ a.channelIds) (hlive : ∀ f ∈ frames, f.id ∈ cs.map (·.id))
    (hstreams : ∀ c ∈ cs', c.Streams src (framesOf c.id as ++ frames.filter (·.id = c.id))) :
    Conserves src used cs' (as ++ [a]) := by
  have hused : ∀ id ∈ cs.map (·.id), id ∈ used := by
    intro id hid
    obtain ⟨c, hc, rfl⟩ := mem_map.mp hid
    exact h.channel_used c hc
  refine ⟨hids ▸ h.ids_nodup, fun c hc => hused c.id (hids ▸ mem_map_of_mem hc),
    forall_mem_append.mpr ⟨h.frame_used, ?_⟩,
    forall_mem_append.mpr ⟨fun b hb f hf hid => h.tagged b hb f hf (hids ▸ hid), ?_⟩,
    fun c hc => ?_⟩
  · rw [forall_mem_singleton, hpayload]
    exact fun f hf => hused f.id (hlive f hf)
  · rw [forall_mem_singleton, hpayload]
    exact fun f hf _ => hchannels f hf
  · rw [framesOf_append]
    have hnew : framesOf c.id [a] = frames.filter (·.id = c.id) := by
      simp [framesOf, hpayload]
    rw [hnew]
    exact hstreams c hc

/-- Channels go, and artifacts without a frame of a surviving channel go with them. -/
theorem forget {p : DaArtifact → Bool} {g : DaArtifact → DaArtifact} (hcs : cs'.Sublist cs)
    (hg : ∀ a, (g a).payload = a.payload)
    (hkeep : ∀ a ∈ as, ∀ f ∈ a.payload.frames, f.id ∈ cs'.map (·.id) →
      f.id ∈ (g a).channelIds ∧ p (g a) = true) :
    Conserves src used cs' ((as.map g).filter p) := by
  have hmem : ∀ b ∈ (as.map g).filter p, ∃ a ∈ as, b = g a := by
    intro b hb
    obtain ⟨a, ha, rfl⟩ := mem_map.mp (mem_filter.mp hb).1
    exact ⟨a, ha, rfl⟩
  refine ⟨(hcs.map _).nodup h.ids_nodup, fun c hc => h.channel_used c (hcs.subset hc),
    fun b hb f hf => ?_, fun b hb f hf hid => ?_, fun c hc => ?_⟩
  · obtain ⟨a, ha, rfl⟩ := hmem b hb
    exact h.frame_used a ha f (hg a ▸ hf)
  · obtain ⟨a, ha, rfl⟩ := hmem b hb
    exact (hkeep a ha f (hg a ▸ hf) hid).1
  · have hframes : framesOf c.id ((as.map g).filter p) = framesOf c.id (as.map g) := by
      refine framesOf_filter fun b hb hf => ?_
      obtain ⟨a, ha, rfl⟩ := mem_map.mp hb
      obtain ⟨f, hf, hid⟩ := hf
      exact (hkeep a ha f (hg a ▸ hf) (hid ▸ mem_map_of_mem hc)).2
    rw [hframes, framesOf_map c.id as hg]
    exact h.streams c (hcs.subset hc)

/-- Channels may be forgotten while their frames stay in the ledger. -/
theorem sublist (hcs : cs'.Sublist cs) : Conserves src used cs' as := by
  have hkept := h.forget (g := id) (p := fun _ => true) hcs (fun _ => rfl)
    fun a ha f hf hid => ⟨h.tagged a ha f hf ((hcs.map _).subset hid), rfl⟩
  rwa [map_id, filter_true] at hkept

end

end Conserves

end

/-! ## Moves -/

section

variable {br : Brotli} {e e' : BatchEncoder br} {used : List ChannelId} {failures : Prop}
  {evs : List MoveEvent}

/-- The level that an encoder feeds its streams with. -/
def EncoderConfig.feed (config : EncoderConfig) (failures : Prop) : Feed :=
  ⟨config.brotliLevel, failures⟩

/-- The frames of an encoder's ledger make up the streams of its channels. -/
abbrev BatchEncoder.Conserves (failures : Prop) (used : List ChannelId)
    (e : BatchEncoder br) : Prop :=
  NodeReth.Conserves (e.config.feed failures) used e.channels e.egress.artifacts.artifacts

section

variable (h : e.Conserves failures used)

include h

namespace BatchEncoder.Conserves

theorem maxFrameData_pos : ∀ c ∈ e.channels, 0 < c.maxFrameData :=
  fun c hc => (h.streams c hc).frameData_pos

/-- A replay takes along every artifact with a frame of a removed channel and none with a frame of
a remaining one. -/
theorem invalidate (channelIdx : ℕ) :
    (e.invalidateChannel channelIdx).Conserves failures used := by
  rcases invalidateChannel_cases e channelIdx with
    heq | ⟨st, i, replay, hclosed, -, -, hearlier, heq⟩
  · rwa [heq]
  rw [heq]
  have hkept := Conserves.forget (g := id) (p := fun a => decide (a.id ∉ st.artifacts)) h
    (take_sublist i e.channels) (fun _ => rfl) fun a ha f hf hid => ?_
  · rwa [map_id] at hkept
  · obtain ⟨d, hd, hdid⟩ := mem_map.mp hid
    obtain ⟨j, hj⟩ := mem_iff_getElem?.mp hd
    rw [getElem?_take] at hj
    split_ifs at hj with hji
    have htag := h.tagged a ha f hf (hdid ▸ mem_map_of_mem (mem_of_getElem? hj))
    refine ⟨htag, decide_eq_true fun hmem => ?_⟩
    exact hearlier j d hji hj (hdid ▸ (hclosed.artifact a ha (.inr hmem)).2 htag)

/-- A pruned channel takes along only artifacts that no other channel needs. -/
theorem dropSafe (n : ℕ) :
    NodeReth.Conserves (e.config.feed failures) used (e.dropSafe n).channels
      (e.dropSafe n).egress.artifacts.artifacts := by
  rw [channels_dropSafe]
  have hsuffix := dropWhile_suffix (fun c : Channel br => decide (c.blockEnd ≤ n))
    (l := e.channels)
  suffices hlive : NodeReth.Conserves (e.config.feed failures) used
      (e.channels.dropWhile fun c => decide (c.blockEnd ≤ n))
      (e.dropSafe n).egress.artifacts.artifacts by
    refine hlive.congr ?_
    rw [map_map]
    rfl
  rcases egress_dropSafe e n with heq | heq <;> rw [heq]
  · exact h.sublist hsuffix.sublist
  · refine Conserves.forget h hsuffix.sublist (fun _ => rfl) fun a ha f hf hid => ?_
    have htag := h.tagged a ha f hf ((hsuffix.sublist.map _).subset hid)
    -- the identifiers of the pruned channels are not those of the remaining ones
    have hother : f.id ∉ (e.channels.takeWhile fun c => decide (c.blockEnd ≤ n)).map (·.id) := by
      have hnodup := h.ids_nodup
      rw [← takeWhile_append_dropWhile (p := fun c => decide (c.blockEnd ≤ n))
        (l := e.channels), map_append, nodup_append] at hnodup
      exact fun hmem => hnodup.2.2 _ hmem _ hid rfl
    have hkeep : f.id ∈ a.channelIds.filter (· ∉ (e.channels.takeWhile fun c =>
        decide (c.blockEnd ≤ n)).map (·.id)) :=
      mem_filter.mpr ⟨htag, decide_eq_true hother⟩
    refine ⟨hkeep, ?_⟩
    simp only [Bool.not_eq_true', isEmpty_eq_false_iff]
    exact ne_nil_of_mem hkeep

theorem opens {id : ChannelId} {cs : List (Channel br)} {c : Channel br}
    (hopens : Opens e id evs cs c) (hfresh : ∀ id ∈ evs.filterMap drawn?, id ∉ used) :
    NodeReth.Conserves (e.config.feed failures) (used ++ evs.filterMap drawn?) (cs ++ [c])
      e.egress.artifacts.artifacts := by
  cases hopens with
  | current hcs =>
    rw [filterMap_nil, append_nil, ← hcs]
    exact h
  | fresh _ hvalid =>
    exact h.addChannel (hfresh _ (mem_singleton_self _)) (Channel.Streams.fresh hvalid rfl)

/-- The invariant holds behind every move, unless an identifier repeats. -/
theorem move (hledger : e.Leased) (hmove : Move e evs e')
    (hfailures : .disturbed ∈ evs → failures) (hfresh : ∀ id ∈ evs.filterMap drawn?, id ∉ used) :
    e'.Conserves failures (used ++ evs.filterMap drawn?) := by
  have hconfig := hmove.config.1
  unfold BatchEncoder.Conserves
  rw [hconfig]
  cases hmove with simp only [filterMap_append, filterMap_nil, filterMap_cons, drawn?, append_nil] at hfresh ⊢
  | control | enqueue => exact h
  | append hopens hblock hbatch hs happend =>
    exact (h.opens hopens hfresh).replaceLast rfl rfl
      fun fs hstreams => hstreams.extend hs happend
  | fail hopens hs happend =>
    exact (h.opens hopens hfresh).replaceLast rfl rfl
      fun fs hstreams => hstreams.failed (hfailures (by simp)) hs happend
  | discard hcs =>
    refine h.sublist ?_
    rw [hcs]
    exact sublist_append_left _ _
  | close hcs hs => exact h.replaceLast hcs rfl fun fs hstreams => hstreams.finished hs
  | release l1Head =>
    refine h.congr ?_
    rw [map_map]
    rfl
  | cutBlob hplan hcommit =>
    obtain ⟨frames, htake, rfl⟩ := commitBlob_ok hcommit
    obtain ⟨r', hfifo, -⟩ := planBlob_spec h.maxFrameData_pos hplan
    obtain ⟨hlive, hstreams⟩ := takePlan_streams (F := fun id => framesOf id _) h.ids_nodup
      h.streams (fun p hp => (hfifo.frame p hp).elim fun _ hc => hc.2.2) htake
    refine h.pushArtifact (takePlan_map (fun _ _ _ _ => rfl) htake) rfl ?_ hlive hstreams
    intro f hf
    exact mem_pushAllNew.mpr (.inr (mem_map_of_mem hf))
  | cutCalldata hplan hcommit =>
    obtain ⟨frame, htake, rfl⟩ := commitCalldata_ok hcommit
    obtain ⟨_, _, _, _, _, _, _, -, -, -, hcuts, -⟩ := planCalldata_cut h.maxFrameData_pos hplan
    have hpos := (hcuts.frame _ (mem_singleton_self _)).2.2
    obtain ⟨hid, hlive, hstreams⟩ := takePlanned_streams (F := fun id => framesOf id _)
      h.ids_nodup h.streams hpos htake
    have hids := takePlanned_map (f := Channel.id) (fun _ _ _ _ => rfl) htake
    refine h.pushArtifact hids (show _ = [frame] from rfl) ?_ (by simpa using hlive) hstreams
    rw [forall_mem_singleton, hid]
    exact mem_singleton_self _
  | lease hlease =>
    obtain ⟨-, -, rfl⟩ := lease_spec hledger.ids_nodup hlease
    exact h.restate _ _
  | confirm id l1Block =>
    obtain ⟨ids, has, -⟩ := artifacts_settled e id l1Block
    rw [has]
    exact (h.restate ids _).congr (confirm_map (fun _ _ => rfl) e id l1Block)
  | requeue id =>
    obtain ⟨ids, -, has⟩ := artifacts_settled e id 0
    rw [has]
    exact h.restate ids _
  | invalidate channelIdx =>
    have h' := h.invalidate channelIdx
    unfold BatchEncoder.Conserves at h'
    rwa [hconfig] at h'
  | prune => exact h.dropSafe _
  | reset =>
    exact ⟨nodup_nil, nofun, nofun, nofun, nofun⟩

end BatchEncoder.Conserves

end

theorem BatchEncoder.Conserves.initial (rollupConfig : RollupConfig) (config : EncoderConfig) :
    (initial br rollupConfig config).Conserves failures [] :=
  ⟨nodup_nil, nofun, nofun, nofun, nofun⟩

theorem BatchEncoder.Conserves.moves (h : e.Conserves failures [])
    (hledger : e.Leased) (hmoves : Moves e evs e') (hfailures : .disturbed ∈ evs → failures)
    (hfresh : (evs.filterMap drawn?).Nodup) :
    e'.Leased ∧ e'.Conserves failures (evs.filterMap drawn?) := by
  refine Steps.invariant (fun evs e => (.disturbed ∈ evs → failures) →
      (evs.filterMap drawn?).Nodup → e.Leased ∧ e.Conserves failures (evs.filterMap drawn?))
    (fun xs ys t u ih hmove hevs hnodup => ?_) (fun _ _ => ⟨hledger, h⟩) hmoves hfailures hfresh
  rw [filterMap_append, nodup_append] at hnodup
  obtain ⟨ht, hconserves⟩ := ih (fun hx => hevs (mem_append_left _ hx)) hnodup.1
  refine ⟨(ht.move hmove).1, ?_⟩
  rw [filterMap_append]
  exact hconserves.move ht hmove (fun hy => hevs (mem_append_right _ hy))
    fun id hid hmem => hnodup.2.2 id hmem id hid rfl

end

theorem artifact_unique_of_nodup
    (h : ((framesOf id as).map (·.number.toNat)).Nodup) {a b : DaArtifact} (ha : a ∈ as)
    (hb : b ∈ as) {f g : Frame} (hf : f ∈ a.payload.frames) (hg : g ∈ b.payload.frames)
    (hfid : f.id = id) (hgid : g.id = id) (hnumber : f.number.toNat = g.number.toNat) : a = b := by
  induction as with
  | nil => cases ha
  | cons d as ih =>
    have hsplit : framesOf id (d :: as) = framesOf id [d] ++ framesOf id as :=
      framesOf_append id [d] as
    rw [hsplit, map_append, nodup_append] at h
    obtain ⟨-, hrest, hdisjoint⟩ := h
    -- a frame of the first artifact and one of the others have different numbers
    have hne : ∀ x y : Frame, x ∈ framesOf id [d] → y ∈ framesOf id as →
        x.number.toNat ≠ y.number.toNat :=
      fun x y hx hy => hdisjoint _ (mem_map_of_mem hx) _ (mem_map_of_mem hy)
    rcases mem_cons.mp ha with had | ha' <;> rcases mem_cons.mp hb with hbd | hb'
    · exact had.trans hbd.symm
    · exact absurd hnumber (hne f g (mem_framesOf.mpr ⟨a, by simp [had], hf, hfid⟩)
        (mem_framesOf.mpr ⟨b, hb', hg, hgid⟩))
    · exact absurd hnumber.symm (hne g f (mem_framesOf.mpr ⟨b, by simp [hbd], hg, hgid⟩)
        (mem_framesOf.mpr ⟨a, ha', hf, hfid⟩))
    · exact ih hrest ha' hb'

/-- In every state that a run without compressor errors and without a repeated channel identifier
reaches, the artifacts are in order, and the frames of every channel are numbered from zero, each
number in one artifact; together with the buffered output they carry the stream of the channel, and
the last one of a complete channel is the only terminal one. -/
theorem frame_conservation (br : Brotli) (rollupConfig : RollupConfig) (config : EncoderConfig)
    (e₀ e : BatchEncoder br) (ops : List PipelineCall) (replies : List PipelineReply)
    (hnew : BatchEncoder.new br rollupConfig config = .ok e₀)
    (hrun : e₀.runCalls ops = some (replies, e))
    (hcompressor : ∀ r ∈ replies, r.compressorFailed = false)
    (hids : (ops.flatMap PipelineCall.drawn).Nodup) :
    e.egress.artifacts.ids.Pairwise (· < ·) ∧
      ∀ c ∈ e.channels,
        (framesOf c.id e.egress.artifacts.artifacts).map (·.number.toNat) = range c.nextFrameNumber ∧
          (∀ n < c.nextFrameNumber, ∃! a, a ∈ e.egress.artifacts.artifacts ∧
            ∃ f ∈ a.payload.frames, f.id = c.id ∧ f.number.toNat = n) ∧
          c.Emitted (config.feed False)
            ((framesOf c.id e.egress.artifacts.artifacts).flatMap (·.data) ++ c.output.flatten) ∧
          (∀ f ∈ framesOf c.id e.egress.artifacts.artifacts, f.isLast = true ↔
            c.framingComplete = true ∧ f.number.toNat + 1 = c.nextFrameNumber) ∧
          (c.framingComplete = true → 0 < c.nextFrameNumber) := by
  obtain ⟨-, rfl⟩ := new_ok hnew
  obtain ⟨evs, hdrawn, hquiet, hmoves⟩ := moves_of_runCalls hrun
  have hinit : (BatchEncoder.initial br rollupConfig config).Conserves False [] :=
    BatchEncoder.Conserves.initial rollupConfig config
  obtain ⟨hledger, hconserves⟩ := hinit.moves Leased.new hmoves
    (hquiet (Partition.initial rollupConfig config) hcompressor) (hdrawn.nodup hids)
  have hlevel : e.config = config :=
    Steps.preserved (fun t => t.config = config) (fun _ _ _ ht hmove => hmove.config.1.trans ht) rfl
      hmoves
  refine ⟨hledger.ids_increasing, fun c hc => ?_⟩
  have hstreams := hconserves.streams c hc
  rw [hlevel] at hstreams
  refine ⟨hstreams.numbers, fun n hn => ?_, hstreams.emitted, hstreams.isLast_iff,
    fun hcomplete => (hstreams.complete hcomplete).1⟩
  have hmem : n ∈ (framesOf c.id e.egress.artifacts.artifacts).map (·.number.toNat) := by
    rw [hstreams.numbers]
    exact mem_range.mpr hn
  obtain ⟨f, hf, hfn⟩ := mem_map.mp hmem
  obtain ⟨a, ha, hfa, hid⟩ := mem_framesOf.mp hf
  refine ⟨a, ⟨ha, f, hfa, hid, hfn⟩, ?_⟩
  rintro b ⟨hb, g, hgb, hgid, hgn⟩
  have hnodup := hstreams.numbers ▸ nodup_range (n := c.nextFrameNumber)
  exact artifact_unique_of_nodup hnodup hb ha hgb hfa hgid hid (hgn.trans hfn.symm)

theorem frame_conservation_sample : ∃ (e₀ e : BatchEncoder Brotli.stored)
    (replies : List PipelineReply),
    BatchEncoder.new Brotli.stored sampleRollup EncoderConfig.defaultConfig = .ok e₀ ∧
      e₀.runCalls sampleCalls = some (replies, e) ∧
      (∀ r ∈ replies, r.compressorFailed = false) ∧
      (sampleCalls.flatMap PipelineCall.drawn).Nodup ∧ e.channels.length = 2 ∧
      ∀ c ∈ e.channels, (framesOf c.id e.egress.artifacts.artifacts).map (·.number.toNat) =
        range c.nextFrameNumber := by
  have hrun : ((BatchEncoder.initial Brotli.stored sampleRollup
      EncoderConfig.defaultConfig).runCalls sampleCalls).any
        (fun p => p.1.all (!·.compressorFailed) && p.2.channels.length == 2) = true := by
    decide +kernel
  rw [Option.any_eq_true_iff_get] at hrun
  obtain ⟨hsome, hresult⟩ := hrun
  obtain ⟨⟨replies, e⟩, he⟩ := Option.isSome_iff_exists.mp hsome
  simp only [he, Bool.and_eq_true, beq_iff_eq] at hresult
  have hcompressor : ∀ r ∈ replies, r.compressorFailed = false := by simpa using hresult.1
  have hids : (sampleCalls.flatMap PipelineCall.drawn).Nodup := by decide
  have h := frame_conservation Brotli.stored sampleRollup EncoderConfig.defaultConfig _ e sampleCalls
    replies rfl he hcompressor hids
  exact ⟨_, e, replies, rfl, he, hcompressor, hids, hresult.2, fun c hc => (h.2 c hc).1⟩

end NodeReth
