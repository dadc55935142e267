import NodeReth.Lib.Runs
import NodeReth.Batcher.Replay

/-!
# Elementary moves of the encoder

Every call of the pipeline is a sequence of moves, each with one effect on the block queue, the
channels or the ledger. `Move` lists them with the conditions under which the code makes them; the
events are the channel identifiers that are drawn, the batches that are taken, what a failing
compressor leaves behind and the artifacts that are cut. The invariants of the encoder are proved
move by move, and `moves_of_call` carries them over to the calls.
-/

namespace NodeReth

open List Runs

inductive MoveEvent
  | drew (id : ChannelId)
  /-- A channel took a batch and has that many input bytes with it. -/
  | took (batch : SingleBatch) (inputBytes : ℕ)
  /-- The compressor failed, or a channel that it left without a batch was dropped. -/
  | disturbed
  /-- An artifact was cut from the channels. -/
  | cut
  deriving DecidableEq

def MoveEvent.drawn? : MoveEvent → Option ChannelId
  | drew id => some id
  | _ => none

namespace BatchEncoder

/-- The channel that the next batch is offered to, behind the others: the open one or a new one. -/
inductive Opens {br : Brotli} (e : BatchEncoder br) (id : ChannelId) :
    List MoveEvent → List (Channel br) → Channel br → Prop
  | current {cs c} (hcs : e.channels = cs ++ [c]) (hopen : c.isOpen = true) : Opens e id [] cs c
  | fresh (hclosed : ∀ d ∈ e.channels.getLast?, d.isOpen = false)
      (hvalid : e.config.validate = .ok ()) :
      Opens e id [.drew id] e.channels
        (Channel.fresh br id e.rollupConfig e.config e.blockCursor e.l1Head)

inductive Move {br : Brotli} (e : BatchEncoder br) :
    List MoveEvent → BatchEncoder br → Prop
  /-- The queue, the channels and the ledger stay as they are. -/
  | control (tip : Option B256) (l1Head : ℕ) (blobOverride : Bool)
      (deferred : Option StepError) :
      Move e [] { e with
        tip := tip, l1Head := l1Head, blobOverride := blobOverride, deferredStepError := deferred }
  | enqueue (block : BaseBlock) : Move e [] { e with blocks := e.blocks ++ [block] }
  /-- A channel takes the block at the cursor. -/
  | append {id evs cs c block batch s s' out} (hopens : Opens e id evs cs c)
      (hblock : e.blocks[e.blockCursor]? = some block)
      (hbatch : BatchComposer.blockToSingleBatch block = .ok batch) (hs : c.compressor = some s)
      (happend : s.append batch.batchWire = (.ok out, s')) (hadmits : c.Admits s batch) (da : ℕ) :
      Move e (evs ++ [.took batch (c.extend s' out batch da).inputBytes])
        { e with channels := cs ++ [c.extend s' out batch da], blockCursor := e.blockCursor + 1 }
  /-- The compressor fails. -/
  | fail {id evs cs c input s s' err} (hopens : Opens e id evs cs c) (hs : c.compressor = some s)
      (happend : s.append input = (.error err, s')) :
      Move e (evs ++ [.disturbed]) { e with channels := cs ++ [{ c with compressor := some s' }] }
  /-- A channel that stayed without a batch is dropped. -/
  | discard {cs c} (hcs : e.channels = cs ++ [c]) (hempty : c.isEmpty = true) :
      Move e [.disturbed] { e with channels := cs }
  | close {cs c s} (hcs : e.channels = cs ++ [c]) (hs : c.compressor = some s)
      (hne : c.isEmpty = false) : Move e [] { e with channels := cs ++ [c.finished s] }
  | release (l1Head : ℕ) :
      Move e [] { e with channels := e.channels.map (·.releaseAt l1Head) }
  | cutBlob {plan egress channels}
      (hplan : DaEgress.planBlob e.channels e.l1Head = some plan)
      (hcommit : e.egress.commitBlob e.channels plan = .ok (egress, channels)) :
      Move e [.cut] { e with egress := egress, channels := channels }
  | cutCalldata {p egress channels}
      (hplan : DaEgress.planCalldata e.channels = some p)
      (hcommit : e.egress.commitCalldata e.channels p = .ok (egress, channels)) :
      Move e [.cut] { e with egress := egress, channels := channels }
  | lease {submission ids artifacts}
      (hlease : e.egress.artifacts.lease e.nextId e.config.maxBlobsPerTx =
        some (submission, ids, artifacts)) :
      Move e [] { e with
        egress := ⟨artifacts, e.egress.pending.filter (·.1 ≠ e.nextId) ++ [(e.nextId, ids)]⟩
        nextId := e.nextId + 1 }
  | confirm (id : SubmissionId) (l1Block : ℕ) : Move e [] (e.confirm id l1Block)
  | requeue (id : SubmissionId) : Move e [] (e.requeue id)
  | invalidate (channelIdx : ℕ) : Move e [] (e.invalidateChannel channelIdx)
  | prune {n : ℕ} (hn : n ≤ e.blocks.length) : Move e [] (e.dropSafe n)
  | reset : Move e [] e.reset

abbrev Moves {br : Brotli} : BatchEncoder br → List MoveEvent → BatchEncoder br → Prop :=
  Steps Move

variable {br : Brotli} {e e' : BatchEncoder br} {evs : List MoveEvent} {cs : List (Channel br)}
  {c : Channel br}

theorem Move.config (h : Move e evs e') :
    e'.config = e.config ∧ e'.rollupConfig = e.rollupConfig := by
  cases h with
  | confirm id l1Block =>
    unfold BatchEncoder.confirm
    split <;> exact ⟨rfl, rfl⟩
  | invalidate channelIdx =>
    rcases invalidateChannel_cases e channelIdx with heq | ⟨st, i, replay, -, -, -, -, heq⟩ <;>
      rw [heq] <;> exact ⟨rfl, rfl⟩
  | prune =>
    unfold dropSafe pruneSafeChannels
    simp only
    split_ifs <;> exact ⟨rfl, rfl⟩
  | _ => exact ⟨rfl, rfl⟩

/-! ## Calls are sequences of moves -/

/-- The queue, the channels and the ledger agree, and so do the counters. -/
theorem moves_control {tip : Option B256} {l1Head : ℕ} {blobOverride : Bool}
    {deferred : Option StepError} : Moves e [] { e with
      tip := tip, l1Head := l1Head, blobOverride := blobOverride, deferredStepError := deferred } :=
  .single (.control tip l1Head blobOverride deferred)

theorem moves_closeCurrentChannel (h : e.closeCurrentChannel = .ok e') : Moves e [] e' := by
  unfold closeCurrentChannel at h
  split at h
  · cases h
    exact .refl e
  rename_i channel hlast
  split_ifs at h with hskip
  · cases h
    exact .refl e
  · simp only [Bool.or_eq_true, not_or, Bool.not_eq_true', Bool.not_eq_false, Bool.not_eq_true] at hskip
    obtain ⟨s, hs⟩ := Option.isSome_iff_exists.mp hskip.1
    rw [Channel.close_eq hs] at h
    cases h
    obtain ⟨cs, hcs⟩ := getLast?_eq_some_iff.mp hlast
    have hmove := Move.close hcs hs hskip.2
    unfold setBack
    rw [hcs, dropLast_concat]
    exact .single hmove

theorem closeCurrentChannel_ok (e : BatchEncoder br) :
    ∃ e', e.closeCurrentChannel = .ok e' := by
  unfold closeCurrentChannel
  split
  · exact ⟨e, rfl⟩
  rename_i channel hlast
  split_ifs
  · exact ⟨e, rfl⟩
  · obtain ⟨closed, hclose⟩ := channel.close_ok
    rw [hclose]
    exact ⟨_, rfl⟩

theorem checkChannelTimeout_ok (e : BatchEncoder br) :
    ∃ due e', e.checkChannelTimeout = .ok (due, e') ∧ Moves e [] e' ∧ (due = false → e' = e) := by
  obtain ⟨e', he'⟩ := closeCurrentChannel_ok e
  unfold checkChannelTimeout
  simp only
  split_ifs
  · rw [he']
    exact ⟨true, e', rfl, moves_closeCurrentChannel he', nofun⟩
  · exact ⟨false, e, rfl, .refl e, fun _ => rfl⟩

theorem moves_afterAddBatch {outcome : ChannelAddOutcome} (htaken : outcome.Taken)
    (c : Channel br) :
    Moves { e with channels := e.channels.dropLast ++ [c], blockCursor := e.blockCursor + 1 } []
      (e.afterAddBatch outcome c).2 := by
  rcases htaken with rfl | rfl
  · exact .refl _
  · obtain ⟨e', he'⟩ :=
      closeCurrentChannel_ok { e.setBack c with blockCursor := e.blockCursor + 1 }
    have hresult : (e.afterAddBatch .targetReached c).2 = e' := by
      unfold afterAddBatch setBack
      unfold setBack at he'
      simp [he']
    rw [hresult]
    exact moves_closeCurrentChannel he'

theorem moves_afterRejected {limit : ChannelLimit} (hcs : e.channels = cs ++ [c])
    (hne : c.isEmpty = false) :
    Moves e [] (e.afterAddBatch (.rejected limit) c).2 := by
  have hback : e.setBack c = e := by
    unfold setBack
    rw [hcs, dropLast_concat, ← hcs]
  obtain ⟨e', he'⟩ := closeCurrentChannel_ok e
  have hresult : (e.afterAddBatch (.rejected limit) c).2 = e' := by
    unfold afterAddBatch
    simp [hback, hne, he']
  rw [hresult]
  exact moves_closeCurrentChannel he'

variable {freshId : ChannelId} {channels : List (Channel br)} {egress : DaEgress}

theorem ensureOpen_ok (h : e.ensureOpen freshId = .ok e') :
    ∃ evs cs c, Opens e freshId evs cs c ∧ e' = { e with channels := cs ++ [c] } := by
  have hopened : e.openNewChannel freshId e.blockCursor = .ok e' →
      (∀ d ∈ e.channels.getLast?, d.isOpen = false) →
      ∃ evs cs c, Opens e freshId evs cs c ∧ e' = { e with channels := cs ++ [c] } := by
    intro hnew hclosed
    unfold openNewChannel at hnew
    split at hnew
    · cases hnew
    · rename_i c hc
      cases hnew
      obtain ⟨hvalid, rfl⟩ := Channel.new_ok hc
      exact ⟨_, _, _, .fresh hclosed hvalid, rfl⟩
  unfold ensureOpen at h
  split at h
  · rename_i c hlast
    split_ifs at h with hopen
    · cases h
      obtain ⟨cs, hcs⟩ := getLast?_eq_some_iff.mp hlast
      exact ⟨_, cs, c, .current hcs hopen, by rw [← hcs]⟩
    · refine hopened h fun d hd => ?_
      rw [hlast] at hd
      cases hd
      exact Bool.eq_false_iff.mpr hopen
  · rename_i hnone
    refine hopened h fun d hd => ?_
    rw [hnone] at hd
    cases hd

/-- The input bytes of the channel that the next batch is offered to. -/
def openInput (e : BatchEncoder br) : ℕ :=
  match e.channels.getLast? with
  | some c => if c.isOpen then c.inputBytes else 0
  | none => 0

theorem Opens.isOpen (h : Opens e freshId evs cs c) : c.isOpen = true := by
  cases h with
  | current _ hopen => exact hopen
  | fresh _ _ => rfl

theorem Opens.openInput (h : Opens e freshId evs cs c) : e.openInput = c.inputBytes := by
  unfold BatchEncoder.openInput
  cases h with
  | current hcs hopen =>
    rw [hcs, getLast?_concat]
    exact if_pos hopen
  | fresh hclosed _ =>
    split
    · rename_i d hd
      rw [hclosed d hd]
      rfl
    · rfl

/-- A step offers the batch of the block at the cursor to a channel, which has `inputBytes` if it
takes it. -/
def Offers {br : Brotli} (e : BatchEncoder br) (batch : SingleBatch) (inputBytes : ℕ) : Prop :=
  ∃ block, e.blocks[e.blockCursor]? = some block ∧ BatchComposer.blockToSingleBatch block = .ok batch ∧
    inputBytes = Words.satAdd e.openInput batch.batchWire.length

/-- The events of a call: it draws at most its own identifier, takes only the batch that a step
offers, cuts only to submit, and under `cond` only a failing compressor disturbs it. -/
structure CallEvents {br : Brotli} (e : BatchEncoder br) (op : PipelineCall)
    (reply : PipelineReply) (cond : Prop) (evs : List MoveEvent) : Prop where
  drawn : (evs.filterMap MoveEvent.drawn?).Sublist op.drawn
  took : ∀ batch n, .took batch n ∈ evs → (∃ id, op = .step id) ∧ e.Offers batch n
  undisturbed : cond → reply.compressorFailed = false → .disturbed ∉ evs
  cut : .cut ∈ evs → op = .nextSubmission

theorem CallEvents.nil (op : PipelineCall) (reply : PipelineReply) (cond : Prop) :
    CallEvents e op reply cond [] :=
  ⟨nil_sublist _, nofun, fun _ _ => not_mem_nil, nofun⟩

theorem CallEvents.cuts (n : ℕ) (reply : PipelineReply) (cond : Prop) :
    CallEvents e .nextSubmission reply cond (replicate n .cut) := by
  refine ⟨?_, by simp, by simp, fun _ => rfl⟩
  rw [filterMap_replicate_of_none rfl]
  exact nil_sublist _

theorem Opens.callEvents {ev : MoveEvent} {reply : PipelineReply} {cond : Prop}
    (h : Opens e freshId evs cs c) (hdrawn : ev.drawn? = none)
    (htook : ∀ batch n, ev = .took batch n → e.Offers batch n)
    (hfailed : reply.compressorFailed = false → ev ≠ .disturbed) (hcut : ev ≠ .cut) :
    CallEvents e (.step freshId) reply cond (evs ++ [ev]) := by
  constructor
  · rw [filterMap_append, filterMap_cons_none hdrawn, filterMap_nil, append_nil]
    cases h with
    | current => exact nil_sublist _
    | fresh => exact List.Sublist.refl _
  · intro batch n hmem
    refine ⟨⟨_, rfl⟩, htook batch n ?_⟩
    cases h <;> simpa [eq_comm] using hmem
  · intro _ hreply hmem
    refine hfailed hreply ?_
    cases h <;> simpa [eq_comm] using hmem
  · intro hmem
    refine absurd ?_ hcut
    cases h <;> simpa [eq_comm] using hmem

/-- One block: at most one channel is opened, and nothing stays of a channel that the block does
not fit in. -/
theorem moves_encodeBatch {block : BaseBlock} {batch : SingleBatch} {da : ℕ}
    {r : Except StepError StepResult} (hblock : e.blocks[e.blockCursor]? = some block)
    (hbatch : BatchComposer.blockToSingleBatch block = .ok batch)
    (h : e.encodeBatch freshId batch da = .ok (r, e')) :
    ∃ evs, CallEvents e (.step freshId) (.stepped r) (∀ c ∈ e.channels, 0 < c.blocksAdded) evs ∧
      Moves e evs e' := by
  unfold encodeBatch at h
  split at h
  · cases h
  rename_i e₁ hensure
  obtain ⟨evs, cs, c, hopens, rfl⟩ := ensureOpen_ok hensure
  have hlast : (cs ++ [c]).getLast? = some c := getLast?_concat
  simp only [hlast] at h
  split at h
  · rename_i err c' hadd
    obtain ⟨source, s, s', rfl, hs, happend, rfl⟩ := Channel.addBatch_error hopens.isOpen hadd
    cases h
    refine ⟨evs ++ [.disturbed], hopens.callEvents rfl nofun nofun nofun, ?_⟩
    unfold setBack
    rw [dropLast_concat]
    exact .single (.fail hopens hs happend)
  rename_i outcome c' hadd
  have he' := congrArg Prod.snd (Except.ok.inj h)
  subst he'
  rcases Channel.addBatch_cases hadd with
    ⟨limit, rfl, rfl⟩ | ⟨htaken, s, s', out, hs, happend, hadmits, rfl⟩
  · cases hopens with
    | fresh =>
      refine ⟨[], .nil _ _ _, ?_⟩
      simp only [afterAddBatch, setBack, dropLast_concat]
      exact .refl e
    | current hcs _ =>
      rw [← hcs]
      cases hempty : c'.isEmpty with
      | false => exact ⟨[], .nil _ _ _, moves_afterRejected hcs hempty⟩
      | true =>
        refine ⟨[.disturbed], ⟨nil_sublist _, by simp, fun hne _ => ?_, by simp⟩, ?_⟩
        · have hpos := hne c' (by simp [hcs])
          simp only [Channel.isEmpty, beq_iff_eq] at hempty
          omega
        · simp only [afterAddBatch, setBack, hempty, hcs, dropLast_concat]
          exact .single (.discard hcs hempty)
  · have hafter := moves_afterAddBatch (e := { e with channels := cs ++ [c] }) htaken
      (c.extend s' out batch da)
    rw [dropLast_concat] at hafter
    refine ⟨_, ?_, (Steps.single (.append hopens hblock hbatch hs happend hadmits da)).trans hafter⟩
    rw [append_nil]
    refine hopens.callEvents rfl ?_ nofun nofun
    rintro _ _ ⟨⟩
    exact ⟨block, hblock, hbatch, by rw [hopens.openInput]; rfl⟩

theorem moves_step {r : Except StepError StepResult} {cond : Prop}
    (hkeep : cond → ∀ e', Moves e [] e' → ∀ c ∈ e'.channels, 0 < c.blocksAdded)
    (h : e.step freshId = .ok (r, e')) :
    ∃ evs, CallEvents e (.step freshId) (.stepped r) cond evs ∧ Moves e evs e' := by
  unfold step at h
  split at h
  · cases h
    exact ⟨[], .nil _ _ _, moves_control⟩
  obtain ⟨due, e₁, htimeout, hmoves, hsame⟩ := checkChannelTimeout_ok e
  rw [htimeout] at h
  cases due with
  | true =>
    cases h
    exact ⟨[], .nil _ _ _, hmoves⟩
  | false =>
    obtain rfl := hsame rfl
    simp only at h
    split at h
    · cases h
      exact ⟨[], .nil _ _ _, hmoves⟩
    rename_i block hblock
    split at h
    · cases h
      exact ⟨[], .nil _ _ _, hmoves⟩
    rename_i batch hbatch
    obtain ⟨evs, hevs, hrest⟩ := moves_encodeBatch hblock hbatch h
    exact ⟨evs, ⟨hevs.drawn, hevs.took, fun hne => hevs.undisturbed (hkeep hne e₁ hmoves), hevs.cut⟩,
      hrest⟩

theorem moves_addBlock (e : BatchEncoder br) (block : BaseBlock) :
    Moves e [] (e.addBlock block).2 := by
  have htake : Moves e [] { e with tip := some block.header.hash, blocks := e.blocks ++ [block] } :=
    (Steps.single (Move.enqueue block)).trans
      (moves_control (e := { e with blocks := e.blocks ++ [block] }))
  unfold addBlock
  split
  · split_ifs
    · exact .refl e
    · exact htake
  · exact htake

theorem moves_buildBlobs {maxBlobs fuel : ℕ}
    (h : DaEgress.buildBlobs e.l1Head maxBlobs fuel e.egress e.channels = .ok (egress, channels)) :
    ∃ n, Moves e (replicate n .cut) { e with egress := egress, channels := channels } := by
  induction fuel generalizing e with
  | zero =>
    cases h
    exact ⟨0, .refl e⟩
  | succ fuel ih =>
    unfold DaEgress.buildBlobs at h
    split_ifs at h
    · split at h
      · cases h
        exact ⟨0, .refl e⟩
      rename_i plan hplan
      split at h
      · cases h
      rename_i egress₁ channels₁ hcommit
      obtain ⟨n, hrest⟩ := ih (e := { e with egress := egress₁, channels := channels₁ }) h
      exact ⟨n + 1, (Steps.single (Move.cutBlob hplan hcommit)).trans hrest⟩
    · cases h
      exact ⟨0, .refl e⟩

theorem moves_buildReadyArtifacts {daType : DaType} {maxBlobs : ℕ}
    (h : e.egress.buildReadyArtifacts e.channels daType e.l1Head maxBlobs =
      .ok (egress, channels)) :
    ∃ n, Moves e (replicate n .cut) { e with egress := egress, channels := channels } := by
  unfold DaEgress.buildReadyArtifacts at h
  cases daType with
  | blob => exact moves_buildBlobs h
  | calldata =>
    simp only at h
    split at h
    · cases h
      exact ⟨0, .refl e⟩
    · rename_i p hplan
      exact ⟨1, .single (.cutCalldata hplan h)⟩

/-- The egress and the channels from which a submission is leased. -/
def prepared {br : Brotli} (e : BatchEncoder br) : Except Panic (DaEgress × List (Channel br)) :=
  if e.egress.artifacts.hasReady then .ok (e.egress, e.channels)
  else e.egress.buildReadyArtifacts e.channels e.effectiveDaType e.l1Head e.config.maxBlobsPerTx

variable {r : Option BatchSubmission}

theorem nextSubmission_cases (h : e.nextSubmission = .ok (r, e')) :
    ∃ egress channels, e.prepared = .ok (egress, channels) ∧
      ((egress.artifacts.lease e.nextId e.config.maxBlobsPerTx = none ∧ r = none ∧
          e' = { e with egress := egress, channels := channels }) ∨
        ∃ submission ids artifacts,
          egress.artifacts.lease e.nextId e.config.maxBlobsPerTx = some (submission, ids, artifacts) ∧
          r = some submission ∧
          e' = { e with
            egress := ⟨artifacts, egress.pending.filter (·.1 ≠ e.nextId) ++ [(e.nextId, ids)]⟩
            channels := channels
            nextId := e.nextId + 1 }) := by
  unfold nextSubmission DaEgress.nextSubmission at h
  cases hprepared : e.prepared with
  | error panic =>
    unfold prepared at hprepared
    simp only [hprepared] at h
    cases h
  | ok built =>
    obtain ⟨egress, channels⟩ := built
    refine ⟨egress, channels, rfl, ?_⟩
    unfold prepared at hprepared
    simp only [hprepared] at h
    cases hlease : egress.artifacts.lease e.nextId e.config.maxBlobsPerTx with
    | none =>
      simp only [hlease] at h
      cases h
      exact .inl ⟨rfl, rfl, rfl⟩
    | some leased =>
      obtain ⟨submission, ids, artifacts⟩ := leased
      simp only [hlease] at h
      cases h
      exact .inr ⟨submission, ids, artifacts, rfl, rfl, rfl⟩

theorem moves_prepared (h : e.prepared = .ok (egress, channels)) :
    ∃ n, Moves e (replicate n .cut) { e with egress := egress, channels := channels } := by
  unfold prepared at h
  split_ifs at h with hready
  · cases h
    exact ⟨0, .refl e⟩
  · exact moves_buildReadyArtifacts h

/-- What is leased was prepared in the same call. -/
theorem nextSubmission_prepared (h : e.nextSubmission = .ok (r, e')) :
    ∃ egress channels, e.prepared = .ok (egress, channels) ∧
      Moves { e with egress := egress, channels := channels } [] e' := by
  obtain ⟨egress, channels, hprepared, hcase⟩ := nextSubmission_cases h
  refine ⟨egress, channels, hprepared, ?_⟩
  rcases hcase with ⟨-, -, rfl⟩ | ⟨submission, ids, artifacts, hlease, -, rfl⟩
  · exact .refl _
  · exact .single (.lease hlease)

theorem moves_nextSubmission (h : e.nextSubmission = .ok (r, e')) :
    ∃ n, Moves e (replicate n .cut) e' := by
  obtain ⟨egress, channels, hprepared, hleased⟩ := nextSubmission_prepared h
  obtain ⟨n, hmoves⟩ := moves_prepared hprepared
  exact ⟨n, append_nil (replicate n _) ▸ hmoves.trans hleased⟩

theorem moves_flush (e : BatchEncoder br) : Moves e [] e.flush.2 := by
  obtain ⟨e', he'⟩ := closeCurrentChannel_ok e
  have hresult : e.flush.2 = { e' with channels := e'.channels.map (·.releaseAt e'.l1Head) } := by
    unfold flush
    rw [he']
  rw [hresult]
  exact (moves_closeCurrentChannel he').tail (.release e'.l1Head)

theorem moves_advanceL1Head (e : BatchEncoder br) (l1Block : ℕ) :
    Moves e [] (e.advanceL1Head l1Block) := by
  have hexpire : ∀ e : BatchEncoder br, Moves e [] e.invalidateExpiredChannels := by
    intro e
    unfold invalidateExpiredChannels
    split
    · exact .refl e
    · exact .single (.invalidate _)
  unfold advanceL1Head
  simp only
  have hhead : Moves e []
      (if decide (l1Block > e.l1Head) then { e with l1Head := l1Block } else e) := by
    split_ifs
    · exact moves_control
    · exact .refl e
  generalize (if decide (l1Block > e.l1Head) then { e with l1Head := l1Block } else e) = e₁ at hhead ⊢
  split_ifs
  · exact hhead
  · obtain ⟨due, e₂, htimeout, hmoves, -⟩ := checkChannelTimeout_ok e₁
    rw [htimeout]
    exact (hhead.trans hmoves).trans (hexpire e₂)
  · exact hhead.trans (hexpire e₁)

theorem moves_pruneSafe (e : BatchEncoder br) (safeL2 : BlockInfo) :
    Moves e [] (e.pruneSafe safeL2).2 := by
  unfold pruneSafe
  split
  · exact moves_control
  rename_i oldest rest hblocks
  simp only
  split_ifs with hbehind hlong hzero hmatch
  · exact .refl e
  · exact .refl e
  · exact .refl e
  · exact .refl e
  · have hprune : Moves e [] (e.dropSafe (safeL2.number + 1 - oldest.header.number)) :=
      .single (.prune (not_lt.mp hlong))
    exact hprune.trans moves_control
  · exact .single (.prune (not_lt.mp hlong))

theorem moves_reconcileDerivation (e : BatchEncoder br) (safeL2 : BlockInfo)
    (currentL1 : Option ℕ) : Moves e [] (e.reconcileDerivation safeL2 currentL1).2 := by
  have hprune := moves_pruneSafe e safeL2
  unfold reconcileDerivation
  split
  · rename_i e' heq
    rwa [heq] at hprune
  · rename_i e' heq
    rw [heq] at hprune
    split
    · exact hprune
    · split_ifs <;> exact hprune

end BatchEncoder

end NodeReth
