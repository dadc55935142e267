import NodeReth.Batcher.Artifact
import NodeReth.Batcher.Channel

/-!
# DA egress

`DaEgress` of `batcher/encoder/src/egress.rs`: it plans frames from the channel FIFO, cuts them into
artifacts and leases artifacts to submissions. `pending` is a hash map in the source; nothing
depends on its order, and it is a list of entries here.
-/

namespace NodeReth

open PushNew

structure DaEgress where
  artifacts : DaArtifacts
  pending : List (SubmissionId × List ArtifactId)

/-- A frame that a plan takes from a channel. -/
structure PlannedFrame where
  channelId : ChannelId
  dataLen : ℕ
  isLast : Bool
  deriving DecidableEq

/-- What a plan has taken from a blob so far. -/
structure BlobPlan where
  remaining : ℕ
  frames : List PlannedFrame

namespace DaEgress

variable {br : Brotli} {channels channels' : List (Channel br)} {p : PlannedFrame}
  {refused : ChannelError → Panic} {plan : List PlannedFrame}

def new : DaEgress := ⟨DaArtifacts.new, []⟩

def blobCapacity : ℕ := blobMaxDataSize - blobDerivationPrefixSize

/-! ## Plans -/

/-- The data frames of one channel that fit in the blob: what is left of the output, whether the
terminal frame is still due, and the plan. Every round takes at least the 23 bytes of metadata from
the blob, so `remaining` rounds are enough. -/
def planDataFrames (id : ChannelId) (maxFrameData : ℕ) : ℕ → ℕ → Bool → BlobPlan → ℕ × Bool × BlobPlan
  | 0, available, terminalPending, plan => (available, terminalPending, plan)
  | fuel + 1, available, terminalPending, plan =>
    if available > 0 ∧ plan.remaining > Frame.encodedOverhead then
      let dataCapacity := min (plan.remaining - Frame.encodedOverhead) maxFrameData
      let dataLen := min available dataCapacity
      let isLast := dataLen == available && terminalPending
      let plan : BlobPlan :=
        ⟨plan.remaining - (Frame.encodedOverhead + dataLen), plan.frames ++ [⟨id, dataLen, isLast⟩]⟩
      if isLast then (available - dataLen, false, plan)
      else planDataFrames id maxFrameData fuel (available - dataLen) terminalPending plan
    else (available, terminalPending, plan)

/-- Appends the frames of one channel that fit; `true` after the terminal frame. -/
def planChannelFrames (channel : Channel br) (plan : BlobPlan) : Bool × BlobPlan :=
  let (available, terminalPending, plan) := planDataFrames channel.id channel.maxFrameData
    plan.remaining channel.availableOutput channel.terminalPending plan
  -- an empty compressed stream still needs one terminal frame
  if available = 0 ∧ terminalPending = true ∧ plan.remaining ≥ Frame.encodedOverhead then
    (!channel.isOpen, ⟨plan.remaining - Frame.encodedOverhead, plan.frames ++ [⟨channel.id, 0, true⟩]⟩)
  else (!channel.isOpen && available == 0 && !terminalPending, plan)

/-- Walks the FIFO until a channel is not complete; the flag says that the deadline of a closed
channel in the plan is due. -/
def planChannels (l1Head : ℕ) : List (Channel br) → Bool → BlobPlan → Bool × BlobPlan
  | [], releaseDue, plan => (releaseDue, plan)
  | channel :: channels, releaseDue, plan =>
    if channel.framingComplete then planChannels l1Head channels releaseDue plan
    else
      let (channelComplete, next) := planChannelFrames channel plan
      let releaseDue :=
        if next.frames.length > plan.frames.length && !channel.isOpen then
          releaseDue || channel.deadlineDue l1Head
        else releaseDue
      if channelComplete then planChannels l1Head channels releaseDue next
      else (releaseDue, next)

/-- Plans one full or deadline-released blob. -/
def planBlob (channels : List (Channel br)) (l1Head : ℕ) : Option (List PlannedFrame) :=
  let (releaseDue, plan) := planChannels l1Head channels false ⟨blobCapacity, []⟩
  if plan.frames.isEmpty then none
  else
    let saturated := decide (plan.remaining < Frame.encodedOverhead + 1)
    if saturated || releaseDue then some plan.frames else none

/-- Plans one calldata frame; only the first unfinished channel may emit. -/
def planCalldata : List (Channel br) → Option PlannedFrame
  | [] => none
  | channel :: channels =>
    if channel.framingComplete then planCalldata channels
    else if channel.availableOutput ≥ channel.maxFrameData then
      some ⟨channel.id, channel.maxFrameData,
        channel.maxFrameData == channel.availableOutput && channel.terminalPending⟩
    else if channel.terminalPending then some ⟨channel.id, channel.availableOutput, true⟩
    else none

/-! ## Cutting frames -/

def takePlanned (refused : ChannelError → Panic) (p : PlannedFrame) :
    List (Channel br) → Except Panic (Frame × List (Channel br))
  | [] => .error .plannedChannelRemains
  | channel :: channels =>
    if channel.id = p.channelId then
      match channel.takeFrame p.dataLen p.isLast with
      | .error panic => .error panic
      | .ok (.error e) => .error (refused e)
      | .ok (.ok (frame, channel)) => .ok (frame, channel :: channels)
    else
      match takePlanned refused p channels with
      | .error panic => .error panic
      | .ok (frame, channels) => .ok (frame, channel :: channels)

def takePlan (refused : ChannelError → Panic) :
    List PlannedFrame → List (Channel br) → Except Panic (List Frame × List (Channel br))
  | [], channels => .ok ([], channels)
  | p :: plan, channels =>
    match takePlanned refused p channels with
    | .error panic => .error panic
    | .ok (frame, channels) =>
      match takePlan refused plan channels with
      | .error panic => .error panic
      | .ok (frames, channels) => .ok (frame :: frames, channels)

theorem takePlanned_ok {frame : Frame} (h : takePlanned refused p channels = .ok (frame, channels')) :
    ∃ pre c post c', channels = pre ++ c :: post ∧ c.id = p.channelId ∧
      c.takeFrame p.dataLen p.isLast = .ok (.ok (frame, c')) ∧
      channels' = pre ++ c' :: post := by
  induction channels generalizing channels' with
  | nil => cases h
  | cons channel channels ih =>
    unfold takePlanned at h
    split_ifs at h with hid
    · split at h
      · cases h
      · cases h
      · rename_i c' htake
        cases h
        exact ⟨[], channel, channels, c', rfl, hid, htake, rfl⟩
    · split at h
      · cases h
      · rename_i rest htake
        cases h
        obtain ⟨pre, c, post, c', rfl, hc, hframe, rfl⟩ := ih htake
        exact ⟨channel :: pre, c, post, c', rfl, hc, hframe, rfl⟩

theorem takePlanned_map {α : Type} {f : Channel br → α}
    (hf : ∀ (c : Channel br) n l o, f (c.behindFrame n l o) = f c) {frame : Frame}
    (h : takePlanned refused p channels = .ok (frame, channels')) :
    channels'.map f = channels.map f := by
  obtain ⟨-, c, -, c', rfl, -, htake, rfl⟩ := takePlanned_ok h
  obtain ⟨-, -, -, -, -, -, -, rfl⟩ := Channel.takeFrame_ok htake
  simp [hf]

theorem takePlan_cons_ok {frames : List Frame}
    (h : takePlan refused (p :: plan) channels = .ok (frames, channels')) :
    ∃ frame channels₁ frames₁, takePlanned refused p channels = .ok (frame, channels₁) ∧
      takePlan refused plan channels₁ = .ok (frames₁, channels') ∧ frames = frame :: frames₁ := by
  unfold takePlan at h
  split at h
  · cases h
  rename_i frame channels₁ hfirst
  split at h
  · cases h
  rename_i frames₁ channels₂ hrest
  cases h
  exact ⟨frame, channels₁, frames₁, hfirst, hrest, rfl⟩

theorem takePlan_map {α : Type} {f : Channel br → α}
    (hf : ∀ (c : Channel br) n l o, f (c.behindFrame n l o) = f c) {frames : List Frame}
    (h : takePlan refused plan channels = .ok (frames, channels')) :
    channels'.map f = channels.map f := by
  induction plan generalizing channels frames with
  | nil =>
    cases h
    rfl
  | cons p plan ih =>
    obtain ⟨frame, channels₁, frames₁, hfirst, hrest, -⟩ := takePlan_cons_ok h
    rw [ih hrest, takePlanned_map hf hfirst]

/-- The channels of a list of frames, each once, in order of appearance. -/
def contributingChannels (frames : List Frame) : List ChannelId :=
  pushAllNew [] (frames.map (·.id))

variable (e : DaEgress)

def commitBlob (channels : List (Channel br)) (plan : List PlannedFrame) :
    Except Panic (DaEgress × List (Channel br)) :=
  match takePlan .blobPlanSatisfiesLimits plan channels with
  | .error panic => .error panic
  | .ok (frames, channels) =>
    .ok ({ e with artifacts := e.artifacts.push (.blob frames) (contributingChannels frames) },
      channels)

def commitCalldata (channels : List (Channel br)) (p : PlannedFrame) :
    Except Panic (DaEgress × List (Channel br)) :=
  match takePlanned .calldataPlanSatisfiesLimits p channels with
  | .error panic => .error panic
  | .ok (frame, channels) =>
    .ok ({ e with artifacts := e.artifacts.push (.calldata frame) [p.channelId] }, channels)

theorem commitBlob_ok {e e' : DaEgress} (h : e.commitBlob channels plan = .ok (e', channels')) :
    ∃ frames, takePlan .blobPlanSatisfiesLimits plan channels = .ok (frames, channels') ∧
      e' = { e with artifacts := e.artifacts.push (.blob frames) (contributingChannels frames) } := by
  unfold commitBlob at h
  split at h
  · cases h
  · rename_i frames cs htake
    cases h
    exact ⟨frames, htake, rfl⟩

theorem commitCalldata_ok {e e' : DaEgress} (h : e.commitCalldata channels p = .ok (e', channels')) :
    ∃ frame, takePlanned .calldataPlanSatisfiesLimits p channels = .ok (frame, channels') ∧
      e' = { e with artifacts := e.artifacts.push (.calldata frame) [p.channelId] } := by
  unfold commitCalldata at h
  split at h
  · cases h
  · rename_i frame cs htake
    cases h
    exact ⟨frame, htake, rfl⟩

/-- Commits blobs while fewer than `maxBlobs` are ready and another one can be planned. Every
round adds a ready blob, so `maxBlobs` rounds are enough. -/
def buildBlobs (l1Head maxBlobs : ℕ) :
    ℕ → DaEgress → List (Channel br) → Except Panic (DaEgress × List (Channel br))
  | 0, e, channels => .ok (e, channels)
  | fuel + 1, e, channels =>
    if e.artifacts.readyBlobCount < maxBlobs then
      match planBlob channels l1Head with
      | none => .ok (e, channels)
      | some plan =>
        match e.commitBlob channels plan with
        | .error panic => .error panic
        | .ok (e, channels) => buildBlobs l1Head maxBlobs fuel e channels
    else .ok (e, channels)

def buildReadyArtifacts (channels : List (Channel br)) (daType : DaType) (l1Head maxBlobs : ℕ) :
    Except Panic (DaEgress × List (Channel br)) :=
  match daType with
  | .blob => buildBlobs l1Head maxBlobs maxBlobs e channels
  | .calldata =>
    match planCalldata channels with
    | none => .ok (e, channels)
    | some p => e.commitCalldata channels p

/-! ## Submissions -/

/-- Builds artifacts if none is ready, and leases one transaction of them. -/
def nextSubmission (channels : List (Channel br)) (daType : DaType) (l1Head maxBlobsPerTx : ℕ)
    (id : SubmissionId) : Except Panic (Option BatchSubmission × DaEgress × List (Channel br)) :=
  let built :=
    if e.artifacts.hasReady then .ok (e, channels)
    else e.buildReadyArtifacts channels daType l1Head maxBlobsPerTx
  match built with
  | .error panic => .error panic
  | .ok (e, channels) =>
    match e.artifacts.lease id maxBlobsPerTx with
    | none => .ok (none, e, channels)
    | some (submission, artifactIds, artifacts) =>
      .ok (some submission, ⟨artifacts, e.pending.filter (·.1 ≠ id) ++ [(id, artifactIds)]⟩, channels)

def removePending (id : SubmissionId) : DaEgress :=
  { e with pending := e.pending.filter (·.1 ≠ id) }

/-- Confirms every artifact leased to a submission. -/
def confirm (id : SubmissionId) : Option (List ChannelId) × DaEgress :=
  match e.pending.lookup id with
  | none => (none, e)
  | some ids =>
    if e.artifacts.allPending ids then
      let (channelIds, artifacts) := e.artifacts.confirm ids
      (some channelIds, { e.removePending id with artifacts := artifacts })
    else (none, e.removePending id)

/-- Returns every artifact leased to a submission to ready. -/
def requeue (id : SubmissionId) : Option ℕ × DaEgress :=
  match e.pending.lookup id with
  | none => (none, e)
  | some ids =>
    if e.artifacts.allPending ids then
      let (frameCount, artifacts) := e.artifacts.requeue ids
      (some frameCount, { e.removePending id with artifacts := artifacts })
    else (none, e.removePending id)

def channelFullyConfirmed (channel : Channel br) : Bool :=
  channel.framingComplete && e.artifacts.allConfirmedFor channel.id

/-- Removes safe channel references, and what no longer tracks any channel. -/
def pruneChannels (channelIds : List ChannelId) : DaEgress :=
  let artifacts := e.artifacts.pruneChannels channelIds
  ⟨artifacts, (e.pending.map fun p => (p.1, p.2.filter fun id => artifacts.contains id)).filter
    (!·.2.isEmpty)⟩

/-- Removes artifacts, and the submissions that carry one of them. -/
def invalidateArtifacts (ids : List ArtifactId) : DaEgress :=
  ⟨e.artifacts.invalidate ids, e.pending.filter fun p => !p.2.any (· ∈ ids)⟩

/-- Adds every artifact that shares an in-flight submission with `affected`. -/
def extendWithSubmissionArtifacts (affected : List ArtifactId) : List ArtifactId :=
  e.pending.foldl
    (fun affected p => if p.2.any (· ∈ affected) then pushAllNew affected p.2 else affected) affected

def reset : DaEgress := ⟨e.artifacts.clear, []⟩

end DaEgress

end NodeReth
