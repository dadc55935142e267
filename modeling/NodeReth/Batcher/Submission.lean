import NodeReth.Primitives
import NodeReth.Blob.Codec
import NodeReth.Batcher.Lease
import NodeReth.Batcher.Plan

/-!
# L1 transactions

What a leased submission looks like. A blob is cut from the channel FIFO by one call of
`nextSubmission`, and it stays as it was cut through every retry; so for each blob of the ledger the
run splits at the call that cut it (`CutInRun`). `blobTxCandidate` of
`batcher/core/src/submissions.rs` turns the blobs of a submission into a transaction.
-/

namespace NodeReth

open BatchEncoder Bool Channel DaArtifacts DaEgress EncoderConfig List Runs

variable {frames : List Frame}

def BlobPayload.frameBytes (frames : List Frame) : ℕ := (frames.map Frame.encodedLen).sum

/-! ## The frames of a plan -/

/-- What a plan fixes about a frame. -/
def Frame.planned (f : Frame) : PlannedFrame := ⟨f.id, f.data.length, f.isLast⟩

def PlannedFrame.bytes (ps : List PlannedFrame) : ℕ :=
  (ps.map fun p => Frame.encodedOverhead + p.dataLen).sum

theorem BlobPayload.frameBytes_eq :
    frameBytes frames = PlannedFrame.bytes (frames.map Frame.planned) := by
  unfold PlannedFrame.bytes
  rw [map_map]
  rfl

section

variable {br : Brotli} {channels : List (Channel br)} {refused : ChannelError → Panic} {M a a' : ℕ}
  {id : ChannelId} {ps : List PlannedFrame} {r r' : ℕ} {t : Bool} {cs : List (Channel br)}

theorem DaEgress.takePlanned_planned {p : PlannedFrame} {frame : Frame}
    {channels' : List (Channel br)} (h : takePlanned refused p channels = .ok (frame, channels')) :
    frame.planned = p := by
  obtain ⟨-, c, -, c', rfl, hid, htake, rfl⟩ := takePlanned_ok h
  obtain ⟨data, output, hout, -, -, -, rfl, -⟩ := takeFrame_ok htake
  unfold Frame.planned
  rw [(takeOutput_spec hout).1]
  rw [hid]

theorem DaEgress.takePlan_planned {plan : List PlannedFrame} {channels' : List (Channel br)}
    (h : takePlan refused plan channels = .ok (frames, channels')) :
    frames.map Frame.planned = plan := by
  induction plan generalizing channels frames with
  | nil =>
    cases h
    rfl
  | cons p plan ih =>
    obtain ⟨frame, channels₁, frames₁, hfirst, hrest, rfl⟩ := takePlan_cons_ok h
    rw [map_cons, takePlanned_planned hfirst, ih hrest]

theorem Cuts.bytes {t' : Bool} (h : Cuts id M a t r ps a' t' r') : PlannedFrame.bytes ps + r' = r := by
  induction h with
  | done => exact Nat.zero_add _
  | data _ _ _ hr _ _ ih =>
    unfold PlannedFrame.bytes at ih ⊢
    rw [map_cons, sum_cons]
    simp only
    omega
  | terminal hr =>
    unfold PlannedFrame.bytes
    rw [map_singleton, sum_singleton]
    simp only
    omega

theorem FifoPlan.bytes (h : FifoPlan cs r ps r') : PlannedFrame.bytes ps + r' = r := by
  induction h with
  | nil => exact Nat.zero_add _
  | skip _ _ ih => exact ih
  | stop _ hcut =>
    obtain ⟨a', t', hcuts, -⟩ := hcut
    exact hcuts.bytes
  | next _ hcut _ ih =>
    obtain ⟨a', t', hcuts, -⟩ := hcut
    have hfirst := hcuts.bytes
    unfold PlannedFrame.bytes at *
    rw [map_append, sum_append]
    omega

/-- The plan for a channel that it completes ends with the terminal frame. -/
theorem Cuts.terminal_last (h : Cuts id M a t r ps a' false r') (ht : t = true) :
    ∃ qs p, ps = qs ++ [p] ∧ p.isLast = true := by
  generalize hf : false = t' at h
  induction h with
  | done => simp [ht] at hf
  | @data a a' r r' len t t' ps _ _ _ _ _ hrest ih =>
    by_cases hall : len = a
    · -- the frame takes the whole rest, and nothing comes after it
      subst hall
      have hnil : ps = [] := by
        rw [Nat.sub_self, bne_self_eq_false, Bool.and_false] at hrest
        cases hrest with
        | done => rfl
        | data hpos _ ha => omega
      subst hnil
      exact ⟨[], _, rfl, by simp [ht]⟩
    · obtain ⟨qs, p, rfl, hp⟩ := ih (by simp [ht, hall]) hf
      exact ⟨_ :: qs, p, rfl, hp⟩
  | terminal => exact ⟨[], _, rfl, rfl⟩

/-! ## Blobs -/

/-- The frames of a blob go through the channel FIFO: a channel is passed over when its terminal
frame was cut before, and a later channel begins behind the terminal frame of an earlier one. -/
inductive FollowsFifo : List (Channel br) → List Frame → Prop
  | nil : FollowsFifo [] []
  | skip {c cs fs} (hcomplete : c.framingComplete = true) (hrest : FollowsFifo cs fs) :
      FollowsFifo (c :: cs) fs
  | stop {c cs fs} (hid : ∀ f ∈ fs, f.id = c.id) : FollowsFifo (c :: cs) fs
  | next {c cs fs rest f}
      (hid : ∀ g ∈ fs ++ [f], g.id = c.id) (hlast : f.isLast = true) (hrest : FollowsFifo cs rest) :
      FollowsFifo (c :: cs) (fs ++ [f] ++ rest)

theorem Channel.terminalPending_of_closed {c : Channel br} (hincomplete : c.framingComplete = false)
    (hclosed : c.isOpen = false) : c.terminalPending = true := by
  unfold Channel.isOpen at hclosed
  unfold Channel.framingComplete at hincomplete
  cases hs : c.compressor with
  | some s => simp [hs] at hclosed
  | none => simpa [hs] using hincomplete

theorem FifoPlan.follows (h : FifoPlan cs r ps r') {fs : List Frame}
    (hfs : fs.map Frame.planned = ps) : FollowsFifo cs fs := by
  have hids : ∀ {c : Channel br} {fs : List Frame} {r r' a' : ℕ} {t' : Bool},
      Cuts c.id c.maxFrameData c.availableOutput c.terminalPending r (fs.map Frame.planned) a' t'
        r' → ∀ f ∈ fs, f.id = c.id := by
    intro c fs r r' a' t' hcuts f hf
    exact (hcuts.frame f.planned (mem_map_of_mem hf)).1
  induction h generalizing fs with
  | nil =>
    rw [map_eq_nil_iff] at hfs
    rw [hfs]
    exact .nil
  | skip hcomplete _ ih => exact .skip hcomplete (ih hfs)
  | stop _ hcut =>
    obtain ⟨a', t', hcuts, -⟩ := hcut
    rw [← hfs] at hcuts
    exact .stop (hids hcuts)
  | @next c cs ps qs r r₁ r' hincomplete hcut _ ih =>
    obtain ⟨a', t', hcuts, hcomplete, -⟩ := hcut
    obtain ⟨fs₁, rest, rfl, rfl, hrest⟩ := map_eq_append_iff.mp hfs
    rw [eq_comm, and_eq_true, and_eq_true, not_eq_true', not_eq_true'] at hcomplete
    obtain ⟨⟨hclosed, -⟩, rfl⟩ := hcomplete
    have hmem := hids hcuts
    obtain ⟨ps', p, hps, hlast⟩ := hcuts.terminal_last (c.terminalPending_of_closed hincomplete hclosed)
    obtain ⟨fs', fl, rfl, -, hfl⟩ := map_eq_append_iff.mp hps
    obtain ⟨f, rfl, rfl⟩ := map_eq_singleton_iff.mp hfl
    exact .next hmem hlast (ih hrest)

/-- The blob was cut in this state. -/
def BatchEncoder.CutsBlob (e : BatchEncoder br) (frames : List Frame) : Prop :=
  ∃ plan channels, planBlob e.channels e.l1Head = some plan ∧
    takePlan .blobPlanSatisfiesLimits plan e.channels = .ok (frames, channels)

/-- A blob as it is built in a state: its frames are within the frame size and fit in the blob, they
follow the FIFO, and the blob is full unless it releases a closed channel that is due. -/
structure BatchEncoder.BuildsBlob (e : BatchEncoder br) (frames : List Frame) : Prop where
  cut : e.CutsBlob frames
  encodedLen_le : ∀ f ∈ frames, f.encodedLen ≤ e.config.maxFrameSize
  capacity : BlobPayload.frameBytes frames ≤ blobCapacity
  fifo : FollowsFifo e.channels frames
  due : Frame.encodedOverhead + 1 ≤ blobCapacity - BlobPayload.frameBytes frames →
    ∃ c ∈ e.channels, c.isOpen = false ∧ c.deadlineDue e.l1Head = true ∧ ∃ f ∈ frames, f.id = c.id

/-- The channels have the frame size of a valid configuration. -/
structure BatchEncoder.FrameSized (e : BatchEncoder br) : Prop where
  valid : e.config.validate = .ok ()
  channels : ∀ s ∈ e.channels.map (·.maxFrameSize), s = e.config.maxFrameSize

variable {e : BatchEncoder br}

namespace BatchEncoder.FrameSized

variable (h : e.FrameSized)

include h

theorem maxFrameData {c : Channel br} (hc : c ∈ e.channels) :
    c.maxFrameData = e.config.maxFrameSize - Frame.encodedOverhead := by
  unfold Channel.maxFrameData
  rw [h.channels _ (mem_map_of_mem hc)]

theorem maxFrameData_pos : ∀ c ∈ e.channels, 0 < c.maxFrameData := by
  intro c hc
  have hsize := (validate_ok h.valid).2.1
  rw [h.maxFrameData hc]
  omega

theorem buildsBlob (hcut : e.CutsBlob frames) : e.BuildsBlob frames := by
  obtain ⟨plan, channels, hplan, htake⟩ := id hcut
  obtain ⟨r, hfifo, hfull⟩ := planBlob_spec h.maxFrameData_pos hplan
  have hplanned := takePlan_planned htake
  have hbytes := hfifo.bytes
  rw [← hplanned, ← BlobPayload.frameBytes_eq] at hbytes
  have hsize := (validate_ok h.valid).2.1
  refine ⟨hcut, fun f hf => ?_, by omega, hfifo.follows hplanned, fun hspace => ?_⟩
  · have hmem : f.planned ∈ plan := hplanned ▸ mem_map_of_mem hf
    obtain ⟨c, hc, hle, -⟩ := hfifo.frame f.planned hmem
    rw [h.maxFrameData hc] at hle
    unfold Frame.planned at hle
    unfold Frame.encodedLen
    simp only at hle
    omega
  · rcases hfull with hfull | ⟨c, hc, hclosed, -, hdue, p, hp, hid⟩
    · omega
    · rw [← hplanned] at hp
      obtain ⟨f, hf, rfl⟩ := mem_map.mp hp
      exact ⟨c, hc, hclosed, hdue, f, hf, hid⟩

theorem calldata {p : PlannedFrame} {frame : Frame} (hplan : planCalldata e.channels = some p)
    (htake : takePlanned refused p e.channels = .ok (frame, channels)) :
    frame.encodedLen ≤ e.config.maxFrameSize := by
  obtain ⟨pre, c, post, a', t', r, r', hcs, -, -, hcuts, -⟩ :=
    planCalldata_cut h.maxFrameData_pos hplan
  have hc : c ∈ e.channels := by
    rw [hcs]
    exact mem_append_right _ mem_cons_self
  have hle := (hcuts.frame p (mem_singleton_self p)).2.1
  have hsize := (validate_ok h.valid).2.1
  rw [h.maxFrameData hc, ← takePlanned_planned htake] at hle
  unfold Frame.planned at hle
  unfold Frame.encodedLen
  simp only at hle
  omega

end BatchEncoder.FrameSized

end

/-! ## The ledger along a run -/

section

variable {br : Brotli} {e₀ e e' : BatchEncoder br} {evs : List MoveEvent} {egress egress' : DaEgress}
  {channels channels' : List (Channel br)} {a : DaArtifact}

theorem BatchEncoder.FrameSized.move (h : e.FrameSized) (hmove : Move e evs e') :
    e'.FrameSized := by
  have hconfig := hmove.config.1
  refine ⟨by rw [hconfig]; exact h.valid, ?_⟩
  rw [hconfig]
  intro s hs
  cases hmove.lays with
  | kept hlayouts =>
    have hfst := hlayouts.map Prod.fst
    rw [map_append, map_map, map_map] at hfst
    exact (mem_append.mp (hfst.subset hs)).elim (h.channels s) mem_singleton.mp
  | rewound _ hchannels =>
    rw [hchannels] at hs
    exact h.channels s (((take_sublist _ _).map _).subset hs)
  | rebased heq =>
    rw [heq, channels_dropSafe, map_map] at hs
    exact h.channels s (((dropWhile_sublist _).map _).subset hs)
  | emptied hchannels =>
    rw [hchannels] at hs
    cases hs

/-- A move that cuts nothing keeps what the artifacts carry. -/
theorem BatchEncoder.Move.artifact_kept (h : e.Leased) (hmove : Move e evs e') (hcut : .cut ∉ evs)
    {a' : DaArtifact} (ha' : a' ∈ e'.egress.artifacts.artifacts) :
    ∃ a ∈ e.egress.artifacts.artifacts, a'.payload = a.payload := by
  have hrestated : ∀ {ids : List ArtifactId} {state : ArtifactState},
      a' ∈ e.egress.artifacts.artifacts.map (DaArtifacts.restate ids state) →
      ∃ a ∈ e.egress.artifacts.artifacts, a'.payload = a.payload := by
    intro ids state hmem
    obtain ⟨a, ha, rfl⟩ := mem_map.mp hmem
    exact ⟨a, ha, by rw [restate_eq]⟩
  cases hmove with
  | cutBlob | cutCalldata => exact absurd (mem_singleton_self _) hcut
  | lease hlease =>
    obtain ⟨-, -, rfl⟩ := lease_spec h.ids_nodup hlease
    exact hrestated ha'
  | confirm id l1Block =>
    obtain ⟨ids, has, -⟩ := artifacts_settled e id l1Block
    rw [has] at ha'
    exact hrestated ha'
  | requeue id =>
    obtain ⟨ids, -, has⟩ := artifacts_settled e id 0
    rw [has] at ha'
    exact hrestated ha'
  | invalidate channelIdx =>
    rcases invalidateChannel_cases e channelIdx with heq | ⟨st, i, replay, -, -, -, -, heq⟩
    · rw [heq] at ha'
      exact ⟨a', ha', rfl⟩
    · rw [heq] at ha'
      exact ⟨a', (mem_filter.mp ha').1, rfl⟩
  | prune hn =>
    rename_i n
    rcases egress_dropSafe e n with heq | heq <;> rw [heq] at ha'
    · exact ⟨a', ha', rfl⟩
    · obtain ⟨a, ha, rfl⟩ := mem_map.mp (mem_filter.mp ha').1
      exact ⟨a, ha, rfl⟩
  | reset => cases ha'
  | _ => exact ⟨a', ha', rfl⟩

theorem BatchEncoder.artifact_kept_of_moves (h : e.Leased) (hmoves : Moves e evs e')
    (hcut : .cut ∉ evs) {a' : DaArtifact} (ha' : a' ∈ e'.egress.artifacts.artifacts) :
    ∃ a ∈ e.egress.artifacts.artifacts, a'.payload = a.payload := by
  induction hmoves generalizing a' with
  | refl => exact ⟨a', ha', rfl⟩
  | tail hbefore hmove ih =>
    obtain ⟨hcut, hcut'⟩ := not_or.mp (mem_append.not.mp hcut)
    obtain ⟨a₁, ha₁, hpayload⟩ := hmove.artifact_kept (h.moves hbefore).1 hcut' ha'
    obtain ⟨a, ha, hpayload'⟩ := ih hcut ha₁
    exact ⟨a, ha, hpayload.trans hpayload'⟩

/-- The egress and the channels when blobs were cut in a state, one behind the other. -/
inductive BatchEncoder.CutsInTurn (e : BatchEncoder br) : DaEgress → List (Channel br) → Prop
  | start : CutsInTurn e e.egress e.channels
  | next {egress egress' channels channels' plan} (hturn : CutsInTurn e egress channels)
      (hplan : planBlob channels e.l1Head = some plan)
      (hcommit : egress.commitBlob channels plan = .ok (egress', channels')) :
      CutsInTurn e egress' channels'

/-- A call of `nextSubmission` in this state cuts the payload: nothing was ready, and a blob is built
from the channels as the blobs before it in the same call have left them. -/
structure BatchEncoder.CutsInCall (e : BatchEncoder br) (payload : DaArtifactPayload) : Prop where
  idle : e.egress.artifacts.hasReady = false
  prepared : ∃ egress channels, e.prepared = .ok (egress, channels) ∧
    ∃ a ∈ egress.artifacts.artifacts, a.payload = payload
  blob : ∀ frames, payload = .blob frames → e.effectiveDaType = .blob ∧
    ∃ egress channels, e.CutsInTurn egress channels ∧
      BuildsBlob { e with egress := egress, channels := channels } frames
  calldata : ∀ frame, payload = .calldata frame → frame.encodedLen ≤ e.config.maxFrameSize

theorem BatchEncoder.CutsInTurn.buildBlobs {maxBlobs fuel : ℕ}
    (hturn : e.CutsInTurn egress channels)
    (hsized : FrameSized { e with egress := egress, channels := channels })
    (h : buildBlobs e.l1Head maxBlobs fuel egress channels = .ok (egress', channels'))
    (ha : a ∈ egress'.artifacts.artifacts) :
    a ∈ egress.artifacts.artifacts ∨ ∃ frames, a.payload = .blob frames ∧
      ∃ egress channels, e.CutsInTurn egress channels ∧
        BuildsBlob { e with egress := egress, channels := channels } frames := by
  induction fuel generalizing egress channels with
  | zero =>
    cases h
    exact .inl ha
  | succ fuel ih =>
    unfold DaEgress.buildBlobs at h
    split_ifs at h
    · split at h
      · cases h
        exact .inl ha
      rename_i plan hplan
      split at h
      · cases h
      rename_i egress₁ channels₁ hcommit
      have hsized₁ := hsized.move (.cutBlob hplan hcommit)
      rcases ih (hturn.next hplan hcommit) hsized₁ h with hold | hnew
      · obtain ⟨frames, htake, rfl⟩ := commitBlob_ok hcommit
        rcases mem_append.mp hold with hold | hfirst
        · exact .inl hold
        · rw [mem_singleton.mp hfirst]
          exact .inr ⟨frames, rfl, egress, channels, hturn, hsized.buildsBlob ⟨plan, _, hplan, htake⟩⟩
      · exact .inr hnew
    · cases h
      exact .inl ha

/-- What the ledger holds when a submission is leased was there before, or the call cut it. -/
theorem BatchEncoder.FrameSized.prepared (h : e.FrameSized)
    (hprepared : e.prepared = .ok (egress, channels)) (ha : a ∈ egress.artifacts.artifacts) :
    a ∈ e.egress.artifacts.artifacts ∨ e.CutsInCall a.payload := by
  have hbuilt := hprepared
  unfold BatchEncoder.prepared at hbuilt
  split_ifs at hbuilt with hready
  · cases hbuilt
    exact .inl ha
  have hcut : ∀ payload, a.payload = payload → ∃ egress channels, e.prepared = .ok (egress, channels) ∧
      ∃ a ∈ egress.artifacts.artifacts, a.payload = payload := fun _ hpayload =>
    ⟨egress, channels, hprepared, a, ha, hpayload⟩
  unfold buildReadyArtifacts at hbuilt
  cases htype : e.effectiveDaType with rw [htype] at hbuilt
  | blob =>
    rcases CutsInTurn.start.buildBlobs h hbuilt ha with hold | ⟨frames, hframes, hbuilds⟩
    · exact .inl hold
    · rw [hframes]
      refine .inr ⟨Bool.eq_false_iff.mpr hready, hcut _ hframes, fun _ heq => ?_, nofun⟩
      cases heq
      exact ⟨htype, hbuilds⟩
  | calldata =>
    simp only at hbuilt
    split at hbuilt
    · cases hbuilt
      exact .inl ha
    rename_i p hplan
    obtain ⟨frame, htake, rfl⟩ := commitCalldata_ok hbuilt
    rcases mem_append.mp ha with hold | hnew
    · exact .inl hold
    · have hframe : a.payload = .calldata frame := by rw [mem_singleton.mp hnew]
      rw [hframe]
      refine .inr ⟨Bool.eq_false_iff.mpr hready, hcut _ hframe, nofun, fun _ heq => ?_⟩
      cases heq
      exact h.calldata hplan htake

/-- A payload was cut in a run from `e₀`: by the call of `nextSubmission` behind the calls `before`, in
the state that these reach. -/
def BatchEncoder.CutInRun (e₀ : BatchEncoder br) (ops : List PipelineCall)
    (payload : DaArtifactPayload) : Prop :=
  ∃ before after replies e₁, ops = before ++ .nextSubmission :: after ∧
    e₀.runCalls before = some (replies, e₁) ∧ e₁.CutsInCall payload

theorem BatchEncoder.CutInRun.concat {ops : List PipelineCall} {payload : DaArtifactPayload}
    (h : CutInRun e₀ ops payload) (op : PipelineCall) : CutInRun e₀ (ops ++ [op]) payload := by
  obtain ⟨before, after, replies, e₁, rfl, hrun, hcuts⟩ := h
  exact ⟨before, after ++ [op], replies, e₁, by simp, hrun, hcuts⟩

structure BatchEncoder.KeepsCuts (e₀ : BatchEncoder br) (ops : List PipelineCall)
    (e : BatchEncoder br) : Prop where
  run : ∃ replies, e₀.runCalls ops = some (replies, e)
  leased : e.Leased
  sized : e.FrameSized
  config : e.config = e₀.config
  artifacts : ∀ a ∈ e.egress.artifacts.artifacts, CutInRun e₀ ops a.payload

namespace BatchEncoder.KeepsCuts

variable {ops : List PipelineCall}

theorem prepared (h : KeepsCuts e₀ ops e) (hprepared : e.prepared = .ok (egress, channels))
    (ha : a ∈ egress.artifacts.artifacts) : CutInRun e₀ (ops ++ [.nextSubmission]) a.payload := by
  rcases h.sized.prepared hprepared ha with hold | hcuts
  · exact (h.artifacts a hold).concat _
  · obtain ⟨replies, hrun⟩ := h.run
    exact ⟨ops, [], replies, e, rfl, hrun, hcuts⟩

theorem call (h : KeepsCuts e₀ ops e) {op : PipelineCall} {reply : PipelineReply}
    (hcall : e.call op = .ok (reply, e')) : KeepsCuts e₀ (ops ++ [op]) e' := by
  obtain ⟨evs, hevs, hmoves⟩ := moves_of_call hcall
  obtain ⟨replies, hrun⟩ := h.run
  refine ⟨⟨_, runCalls_append hrun (show e.runCalls [op] = some ([reply], e') by
    simp [runCalls, hcall])⟩, (h.leased.moves hmoves).1, ?_, ?_, fun a' ha' => ?_⟩
  · exact Steps.preserved FrameSized (fun _ _ _ ht hmove => ht.move hmove) h.sized hmoves
  · exact Steps.preserved (fun t => t.config = e₀.config)
      (fun _ _ _ ht hmove => hmove.config.1.trans ht) h.config hmoves
  by_cases hop : op = .nextSubmission
  · subst hop
    simp only [BatchEncoder.call] at hcall
    split at hcall
    · cases hcall
    rename_i r e₁ hnext
    cases hcall
    obtain ⟨egress, channels, hprepared, hleased⟩ := nextSubmission_prepared hnext
    obtain ⟨n, hcuts⟩ := moves_prepared hprepared
    obtain ⟨a, ha, hpayload⟩ :=
      artifact_kept_of_moves (h.leased.moves hcuts).1 hleased not_mem_nil ha'
    exact hpayload ▸ h.prepared hprepared ha
  · obtain ⟨a, ha, hpayload⟩ := artifact_kept_of_moves h.leased hmoves (mt hevs.cut hop) ha'
    exact hpayload ▸ (h.artifacts a ha).concat op

theorem runCalls (h : KeepsCuts e₀ ops e) {ops' : List PipelineCall} {replies : List PipelineReply}
    (hrun : e.runCalls ops' = some (replies, e')) : KeepsCuts e₀ (ops ++ ops') e' := by
  induction ops' generalizing e ops replies with
  | nil =>
    cases hrun
    rwa [append_nil]
  | cons op ops' ih =>
    obtain ⟨reply, rest, e₁, rfl, hcall, hrest⟩ := runCalls_cons hrun
    have hall := ih (h.call hcall) hrest
    rwa [append_assoc] at hall

end BatchEncoder.KeepsCuts

end

/-! ## What is leased -/

namespace DaArtifacts

/-- A submission carries one calldata frame, or from one blob up to the limit. -/
theorem lease_payload {s s' : DaArtifacts} {id : SubmissionId} {maxBlobs : ℕ}
    {submission : BatchSubmission} {ids : List ArtifactId} (hmax : 0 < maxBlobs)
    (h : s.lease id maxBlobs = some (submission, ids, s')) :
    (∃ a ∈ s.artifacts, ∃ frame, a.payload = .calldata frame ∧ submission.payload = .calldata frame) ∨
      ∃ blobs, submission.payload = .blobs blobs ∧ 0 < blobs.length ∧ blobs.length ≤ maxBlobs ∧
        ∀ frames ∈ blobs, ∃ a ∈ s.artifacts, a.payload = .blob frames := by
  obtain ⟨leased, hsub, -, -, -, ⟨a, frame, rfl, hframe, hpayload⟩ | ⟨hpayload, hleased, hne⟩⟩ :=
    lease_cases h
  · exact .inl ⟨a, (hsub.trans filter_sublist).subset (mem_singleton_self a), frame, hframe, hpayload⟩
  · refine .inr ⟨_, hpayload, ?_, ?_, fun frames hframes => ?_⟩
    · rw [length_map, hleased, length_take]
      exact lt_min hmax (length_pos_iff.mpr hne)
    · rw [length_map, hleased]
      exact length_take_le _ _
    · obtain ⟨a, ha, rfl⟩ := mem_map.mp hframes
      refine ⟨a, (hsub.trans filter_sublist).subset ha, ?_⟩
      rw [hleased] at ha
      have hblob := mem_takeWhile_imp (mem_of_mem_take ha)
      cases hp : a.payload with
      | blob frames => rfl
      | calldata frame =>
        rw [hp] at hblob
        cases hblob

end DaArtifacts

/-! ## Transaction candidates -/

/-- The transaction that is handed to the transaction manager. -/
structure TxCandidate where
  toAddress : Option Address
  txData : Bytes
  value : ℕ
  gasLimit : ℕ
  blobs : List Blob

inductive BatchTxCandidateError
  | invalidBlobCount (count maximum : ℕ)
  | blobEncoding (e : BlobEncodeError)
  deriving DecidableEq

namespace BatchTxCandidateBuilder

/-- Encodes the payloads one after the other; the number is the size of the derivation data so
far, a version byte for each blob included. -/
def encodePayloads : List (List Frame) → List Blob → ℕ → Except BatchTxCandidateError (List Blob × ℕ)
  | [], blobs, payloadSize => .ok (blobs, payloadSize)
  | frames :: payloads, blobs, payloadSize =>
    match BlobEncoder.encodePacked frames with
    | .error e => .error (.blobEncoding e)
    | .ok blob =>
      encodePayloads payloads (blobs ++ [blob]) (payloadSize + (1 + BlobPayload.frameBytes frames))

def blobTxCandidate (inbox : Address) (payloads : List (List Frame)) :
    Except BatchTxCandidateError (TxCandidate × ℕ) :=
  if payloads.isEmpty ∨ payloads.length > maxBlobsPerTxLimit then
    .error (.invalidBlobCount payloads.length maxBlobsPerTxLimit)
  else
    match encodePayloads payloads [] 0 with
    | .error e => .error e
    | .ok (blobs, payloadSize) =>
      .ok ({ toAddress := some inbox, txData := [], value := 0, gasLimit := 0, blobs := blobs },
        payloadSize)

end BatchTxCandidateBuilder

theorem BlobPayload.length_flatMap_encode :
    (frames.flatMap Frame.encode).length = frameBytes frames := by
  rw [length_flatMap]
  congr 2
  funext f
  exact f.encode_length

theorem BlobEncoder.encodePacked_ok (h : BlobPayload.frameBytes frames ≤ blobCapacity) :
    ∃ blob, encodePacked frames = .ok blob := by
  have hcapacity : blobCapacity + 1 = blobMaxDataSize := by decide
  unfold encodePacked encode
  rw [if_neg]
  · exact ⟨_, rfl⟩
  · rw [length_cons, BlobPayload.length_flatMap_encode]
    omega

namespace BatchTxCandidateBuilder

theorem encodePayloads_ok {payloads : List (List Frame)}
    (h : ∀ frames ∈ payloads, BlobPayload.frameBytes frames ≤ blobCapacity)
    (blobs : List Blob) (payloadSize : ℕ) :
    ∃ result, encodePayloads payloads blobs payloadSize = .ok result := by
  induction payloads generalizing blobs payloadSize with
  | nil => exact ⟨_, rfl⟩
  | cons frames payloads ih =>
    obtain ⟨blob, hblob⟩ := BlobEncoder.encodePacked_ok (h frames mem_cons_self)
    unfold encodePayloads
    rw [hblob]
    exact ih (fun fs hfs => h fs (mem_cons_of_mem _ hfs)) _ _

theorem blobTxCandidate_ok {payloads : List (List Frame)} (inbox : Address)
    (hpos : 0 < payloads.length) (hmax : payloads.length ≤ maxBlobsPerTxLimit)
    (h : ∀ frames ∈ payloads, BlobPayload.frameBytes frames ≤ blobCapacity) :
    ∃ candidate size, blobTxCandidate inbox payloads = .ok (candidate, size) := by
  have hcount : ¬(payloads.isEmpty ∨ payloads.length > maxBlobsPerTxLimit) := by
    rw [List.isEmpty_iff]
    rintro (rfl | hlt)
    · exact absurd hpos (lt_irrefl 0)
    · omega
  obtain ⟨⟨blobs, size⟩, hencode⟩ := encodePayloads_ok h [] 0
  unfold blobTxCandidate
  rw [if_neg hcount, hencode]
  exact ⟨_, _, rfl⟩

end BatchTxCandidateBuilder

/-! ## Submissions of a run -/

/-- A submission of a run from `e₀`: one calldata frame, or from one blob up to the limit, each of
which was cut by a call of the run; the blobs make an L1 transaction. -/
def BatchEncoder.WellFormed {br : Brotli} (e₀ : BatchEncoder br) (ops : List PipelineCall) :
    SubmissionPayload → Prop
  | .calldata frame => frame.encode.length ≤ e₀.config.maxFrameSize
  | .blobs blobs =>
    1 ≤ blobs.length ∧ blobs.length ≤ e₀.config.maxBlobsPerTx ∧
      (∀ frames ∈ blobs, (∀ f ∈ frames, f.encode.length ≤ e₀.config.maxFrameSize) ∧
        BlobPayload.frameBytes frames ≤ blobCapacity ∧
        (∃ blob, BlobEncoder.encodePacked frames = .ok blob) ∧ CutInRun e₀ ops (.blob frames)) ∧
      ∀ inbox, ∃ candidate size,
        BatchTxCandidateBuilder.blobTxCandidate inbox blobs = .ok (candidate, size)

/-- Every submission that `nextSubmission` returns in a state that a run reaches is well formed. -/
theorem submission_well_formed (br : Brotli) (rollupConfig : RollupConfig) (config : EncoderConfig)
    (e₀ e e' : BatchEncoder br) (ops : List PipelineCall) (replies : List PipelineReply)
    (submission : BatchSubmission) (hnew : BatchEncoder.new br rollupConfig config = .ok e₀)
    (hrun : e₀.runCalls ops = some (replies, e))
    (hnext : e.nextSubmission = .ok (some submission, e')) :
    e₀.WellFormed (ops ++ [.nextSubmission]) submission.payload := by
  obtain ⟨hvalid, rfl⟩ := new_ok hnew
  set e₀ := BatchEncoder.initial br rollupConfig config
  have hinit : BatchEncoder.KeepsCuts e₀ [] e₀ := ⟨⟨[], rfl⟩, .new, ⟨hvalid, nofun⟩, rfl, nofun⟩
  have hkeeps : BatchEncoder.KeepsCuts e₀ ops e := hinit.runCalls hrun
  obtain ⟨egress, channels, hprepared, ⟨-, hnone, -⟩ | ⟨s, ids, artifacts, hlease, hsome, -⟩⟩ :=
    nextSubmission_cases hnext
  · cases hnone
  obtain rfl := Option.some.inj hsome
  have hlimits := validate_ok hvalid
  rw [congrArg maxBlobsPerTx hkeeps.config] at hlease
  rcases lease_payload hlimits.2.2.2.1 hlease with
    ⟨a, ha, frame, hpayload, hs⟩ | ⟨blobs, hs, hpos, hle, hblobs⟩ <;> rw [hs]
  · obtain ⟨_, _, _, _, -, hbefore, hcuts⟩ := hkeeps.prepared hprepared ha
    have hframe := hcuts.calldata frame hpayload
    rw [(hinit.runCalls hbefore).config] at hframe
    show frame.encode.length ≤ config.maxFrameSize
    rwa [frame.encode_length]
  · have hcut : ∀ frames ∈ blobs, e₀.CutInRun (ops ++ [.nextSubmission]) (.blob frames) := by
      intro frames hframes
      obtain ⟨a, ha, hpayload⟩ := hblobs frames hframes
      exact hpayload ▸ hkeeps.prepared hprepared ha
    have hbuilt : ∀ frames ∈ blobs, (∀ f ∈ frames, f.encode.length ≤ e₀.config.maxFrameSize) ∧
        BlobPayload.frameBytes frames ≤ blobCapacity := by
      intro frames hframes
      obtain ⟨_, _, _, _, -, hbefore, hcuts⟩ := hcut frames hframes
      obtain ⟨-, egress, channels, -, hbuilds⟩ := hcuts.blob frames rfl
      refine ⟨fun f hf => ?_, hbuilds.capacity⟩
      rw [f.encode_length, ← (hinit.runCalls hbefore).config]
      exact hbuilds.encodedLen_le f hf
    have hcapacity := fun frames hframes => (hbuilt frames hframes).2
    exact ⟨hpos, hle, fun frames hframes => ⟨(hbuilt frames hframes).1, hcapacity frames hframes,
      BlobEncoder.encodePacked_ok (hcapacity frames hframes), hcut frames hframes⟩,
      fun inbox => BatchTxCandidateBuilder.blobTxCandidate_ok inbox hpos
        (hle.trans hlimits.2.2.2.2) hcapacity⟩

/-- Two blocks in two channels, the first one closed and released; its blob is submitted and given
back. -/
def releasedCalls : List PipelineCall :=
  [.addBlock (sampleBlock 1), .step (FixedBytes.zero 16), .flush, .addBlock (sampleBlock 2),
    .step (.fill 16 1), .nextSubmission, .requeue 0]

theorem submission_well_formed_sample : ∃ (e₀ e e' : BatchEncoder Brotli.stored)
    (replies : List PipelineReply) (submission : BatchSubmission),
    BatchEncoder.new Brotli.stored sampleRollup defaultConfig = .ok e₀ ∧
      e₀.runCalls releasedCalls = some (replies, e) ∧
      e.nextSubmission = .ok (some submission, e') ∧
      e₀.WellFormed (releasedCalls ++ [.nextSubmission]) submission.payload := by
  have hrun : ((BatchEncoder.initial Brotli.stored sampleRollup
      defaultConfig).runCalls releasedCalls).any
        (fun p => (p.2.nextSubmission.toOption.bind Prod.fst).isSome) = true := by
    decide +kernel
  rw [Option.any_eq_true_iff_get] at hrun
  obtain ⟨hsome, hnext⟩ := hrun
  obtain ⟨⟨replies, e⟩, he⟩ := Option.isSome_iff_exists.mp hsome
  simp only [he, Option.get_some] at hnext
  rcases hsubmission : e.nextSubmission with _ | ⟨_ | submission, e'⟩ <;> rw [hsubmission] at hnext
  · cases hnext
  · cases hnext
  · exact ⟨_, e, e', replies, submission, rfl, he, hsubmission,
      submission_well_formed Brotli.stored sampleRollup defaultConfig _ e e'
        releasedCalls replies submission rfl he hsubmission⟩

end NodeReth
