import NodeReth.Batcher.Partition

/-!
# Timeout replay

What `advance_l1_head` leaves behind. A channel whose confirmations span too many L1 blocks, or that
is not confirmed in time, is dropped together with everything that shares a blob, a transaction or
the tail of the FIFO with it, and the encoder goes back to the first block of the first dropped
channel. What stays is not touched: the set that goes is closed, so that nothing in it is tied to
anything outside.
-/

namespace NodeReth

open Channel DaEgress List Runs Words

/-! ## What belongs to a channel -/

namespace DaEgress

def artifactsFor (e : DaEgress) (id : ChannelId) : List DaArtifact :=
  e.artifacts.artifacts.filter (id ∈ ·.channelIds)

def leasesFor (e : DaEgress) (id : ChannelId) : List (SubmissionId × List ArtifactId) :=
  e.pending.filter fun p => p.2.any fun i => (e.artifactsFor id).any (·.id = i)

end DaEgress

namespace BatchEncoder

variable {br : Brotli} {e : BatchEncoder br} {st : Affected} {id : ChannelId}

/-- The artifacts of a channel outside of the closed set are outside of it. -/
theorem Closed.artifact_spared (h : Closed e st) (hid : id ∉ st.channels) {a : DaArtifact}
    (ha : a ∈ e.egress.artifactsFor id) : a.id ∉ st.artifacts := by
  obtain ⟨hmem, hcarries⟩ := mem_filter.mp ha
  intro haffected
  exact hid ((h.artifact a hmem (.inr haffected)).2 (of_decide_eq_true hcarries))

theorem Closed.artifactsFor_eq (h : Closed e st) (hid : id ∉ st.channels) :
    (e.egress.invalidateArtifacts st.artifacts).artifactsFor id = e.egress.artifactsFor id := by
  show (e.egress.artifacts.artifacts.filter (·.id ∉ st.artifacts)).filter (id ∈ ·.channelIds) = _
  rw [filter_filter]
  apply filter_congr
  intro a ha
  by_cases hcarries : id ∈ a.channelIds
  · have hspared := h.artifact_spared hid (mem_filter.mpr ⟨ha, decide_eq_true hcarries⟩)
    simp [hspared]
  · simp [hcarries]

theorem Closed.leasesFor_eq (h : Closed e st) (hid : id ∉ st.channels) :
    (e.egress.invalidateArtifacts st.artifacts).leasesFor id = e.egress.leasesFor id := by
  unfold DaEgress.leasesFor
  rw [h.artifactsFor_eq hid]
  show (e.egress.pending.filter fun p => !p.2.any (· ∈ st.artifacts)).filter _ = _
  rw [filter_filter]
  apply filter_congr
  intro p hp
  -- a submission that carries an artifact of the channel is not tied to the closed set
  cases hcarries : p.2.any fun i => (e.egress.artifactsFor id).any (·.id = i) with
  | false => rfl
  | true =>
    obtain ⟨i, hi, hany⟩ := any_eq_true.mp hcarries
    obtain ⟨a, ha, hai⟩ := any_eq_true.mp hany
    have huntied : ¬∃ j ∈ p.2, j ∈ st.artifacts := by
      intro htied
      have hmem : a.id ∈ st.artifacts := (of_decide_eq_true hai) ▸ h.submission p hp htied hi
      exact h.artifact_spared hid ha hmem
    simpa using huntied

theorem Closed.dropped (h : Closed e st) {i j : ℕ} {replay d : Channel br}
    (hreplay : e.channels[i]? = some replay) (hmem : replay.id ∈ st.channels) (hij : i ≤ j)
    (hd : e.channels[j]? = some d) : d.id ∈ st.channels :=
  h.tail i j replay d hreplay hmem hij hd

/-! ## Block ranges in order -/

/-- The first blocks of the channels, and the block at the cursor. -/
def starts (e : BatchEncoder br) : List ℕ := e.channels.map (·.blockStart) ++ [e.blockCursor]

/-- No channel starts behind a later one or behind the cursor. -/
def StartsInOrder (e : BatchEncoder br) : Prop := e.starts.Pairwise (· ≤ ·)

section

variable (h : e.StartsInOrder)

include h

namespace StartsInOrder

theorem le_cursor {c : Channel br} (hc : c ∈ e.channels) : c.blockStart ≤ e.blockCursor :=
  (pairwise_append.mp h).2.2 _ (mem_map_of_mem hc) _ (mem_singleton_self _)

theorem concat {n : ℕ} (hn : e.blockCursor ≤ n) : (e.starts ++ [n]).Pairwise (· ≤ ·) := by
  refine pairwise_append.mpr ⟨h, pairwise_singleton _ _, fun a ha b hb => ?_⟩
  rw [mem_singleton.mp hb]
  rcases mem_append.mp ha with ha | ha
  · exact ((pairwise_append.mp h).2.2 a ha _ (mem_singleton_self _)).trans hn
  · rwa [mem_singleton.mp ha]

/-- A replay keeps the starts up to the one it goes back to. -/
theorem rewind {i : ℕ} {replay : Channel br} (hreplay : e.channels[i]? = some replay) :
    ((e.channels.take i).map (·.blockStart) ++ [min e.blockCursor replay.blockStart]).Pairwise
      (· ≤ ·) := by
  have hle := h.le_cursor (mem_of_getElem? hreplay)
  have htake : (e.channels.take i).map (·.blockStart) ++ [replay.blockStart] =
      (e.channels.map (·.blockStart)).take (i + 1) := by
    obtain ⟨hi, rfl⟩ := List.getElem?_eq_some_iff.mp hreplay
    rw [take_succ_eq_append_getElem (by rw [length_map]; exact hi), getElem_map, map_take]
  rw [min_eq_right hle, htake]
  exact (pairwise_append.mp h).1.sublist (take_sublist _ _)

theorem dropSafe (n : ℕ) : (e.dropSafe n).StartsInOrder := by
  have hstarts : (e.dropSafe n).starts =
      (((e.channels.dropWhile fun c => decide (c.blockEnd ≤ n)).map (·.blockStart)) ++
        [e.blockCursor]).map (· - n) := by
    unfold starts
    rw [channels_dropSafe, blockCursor_dropSafe, map_append, map_map, map_map]
    rfl
  unfold StartsInOrder
  rw [hstarts]
  refine List.Pairwise.map _ (fun a b hab => Nat.sub_le_sub_right hab n) (h.sublist ?_)
  exact ((dropWhile_sublist _).map _).append_right _

end StartsInOrder

end

end BatchEncoder

section

variable {br : Brotli} {e e' : BatchEncoder br}

theorem BatchEncoder.StartsInOrder.move {evs : List MoveEvent} (h : e.StartsInOrder)
    (hmove : BatchEncoder.Move e evs e') : e'.StartsInOrder := by
  cases hmove.lays with
  | kept hlayouts hcursor =>
    have hstarts := (hlayouts.map Prod.snd).append_right [e'.blockCursor]
    rw [map_append, map_map, map_map] at hstarts
    exact (h.concat hcursor).sublist hstarts
  | rewound hreplay hchannels hcursor =>
    have hrewound := h.rewind hreplay
    rwa [← hchannels, ← hcursor] at hrewound
  | rebased heq => exact heq ▸ h.dropSafe _
  | emptied hchannels =>
    unfold StartsInOrder starts
    rw [hchannels]
    exact pairwise_singleton _ _

theorem BatchEncoder.StartsInOrder.moves {evs : List MoveEvent} (h : e.StartsInOrder)
    (hmoves : BatchEncoder.Moves e evs e') : e'.StartsInOrder :=
  Steps.preserved (fun u => u.StartsInOrder) (fun _ _ _ ih hmove => ih.move hmove) h hmoves

end

/-! ## The L1 head advances -/

namespace BatchEncoder

variable {br : Brotli} {e e' : BatchEncoder br}

/-- The state in which expired channels are looked for: the head is the new one, and the writable
channel is closed if its deadline came. -/
def beforeReplay (e : BatchEncoder br) (l1Block : ℕ) : BatchEncoder br :=
  if l1Block > e.l1Head then
    match { e with l1Head := l1Block }.checkChannelTimeout with
    | .error err => { e with l1Head := l1Block }.deferStepError err
    | .ok (_, e) => e
  else e

theorem advanceL1Head_eq (h : e.deferredStepError = none) (l1Block : ℕ) :
    e.advanceL1Head l1Block = (e.beforeReplay l1Block).invalidateExpiredChannels := by
  have hnone : e.deferredStepError.isSome = false := by rw [h]; rfl
  unfold advanceL1Head beforeReplay
  by_cases hadvanced : l1Block > e.l1Head
  · cases hcheck : checkChannelTimeout { e with l1Head := l1Block } <;> simp [hadvanced, hnone, hcheck]
  · simp [hadvanced, h]

/-- The same channels one by one, some of them closed, and nothing else changed about the queue and
the ledger. -/
structure Closes (e e' : BatchEncoder br) : Prop where
  blocks : e'.blocks = e.blocks
  blockCursor : e'.blockCursor = e.blockCursor
  egress : e'.egress = e.egress
  length : e'.channels.length = e.channels.length
  channel : ∀ (j : ℕ) (c' : Channel br), e'.channels[j]? = some c' →
    ∃ c, e.channels[j]? = some c ∧ (c' = c ∨ c.close = .ok c')

theorem Closes.of_channels (hblocks : e'.blocks = e.blocks)
    (hcursor : e'.blockCursor = e.blockCursor) (hegress : e'.egress = e.egress)
    (hchannels : e'.channels = e.channels) : Closes e e' where
  blocks := hblocks
  blockCursor := hcursor
  egress := hegress
  length := by rw [hchannels]
  channel j c' hj := ⟨c', by rw [← hchannels, hj], .inl rfl⟩

theorem closes_closeCurrentChannel (h : e.closeCurrentChannel = .ok e') : Closes e e' := by
  unfold closeCurrentChannel at h
  split at h
  · cases h
    exact .of_channels rfl rfl rfl rfl
  rename_i channel hlast
  split_ifs at h
  · cases h
    exact .of_channels rfl rfl rfl rfl
  split at h
  · cases h
  rename_i closed hclose
  cases h
  obtain ⟨cs, hcs⟩ := getLast?_eq_some_iff.mp hlast
  have hback : (e.setBack closed).channels = cs ++ [closed] := by
    unfold setBack
    rw [hcs, dropLast_concat]
  refine ⟨rfl, rfl, rfl, ?_, fun j c' hj => ?_⟩
  · rw [hback, hcs, length_append, length_append]
    rfl
  · rw [hback] at hj
    rw [hcs]
    by_cases hjlt : j < cs.length
    · rw [getElem?_append_left hjlt] at hj ⊢
      exact ⟨c', hj, .inl rfl⟩
    · obtain ⟨hlen, -⟩ := List.getElem?_eq_some_iff.mp hj
      rw [length_append, length_singleton] at hlen
      obtain rfl : j = cs.length := by omega
      rw [getElem?_concat_length] at hj ⊢
      cases hj
      exact ⟨channel, rfl, .inr hclose⟩

theorem closes_beforeReplay (e : BatchEncoder br) (l1Block : ℕ) :
    Closes e (e.beforeReplay l1Block) := by
  unfold beforeReplay
  split_ifs
  · split
    · unfold deferStepError
      split <;> exact .of_channels rfl rfl rfl rfl
    · rename_i due e₁ htimeout
      unfold checkChannelTimeout at htimeout
      simp only at htimeout
      split_ifs at htimeout
      · split at htimeout
        · cases htimeout
        · rename_i e₂ hclose
          cases htimeout
          have hcloses := closes_closeCurrentChannel hclose
          exact ⟨hcloses.blocks, hcloses.blockCursor, hcloses.egress, hcloses.length, hcloses.channel⟩
      · cases htimeout
        exact .of_channels rfl rfl rfl rfl
  · exact .of_channels rfl rfl rfl rfl

/-- A channel within its confirmation window. -/
def InTime (e : BatchEncoder br) (c : Channel br) : Prop :=
  ∀ first, c.firstConfirmedL1Block = some first →
    c.lastConfirmedL1Block.getD first - first ≤
        EncoderConfig.confirmationChannelTimeout e.rollupConfig ∧
      (e.egress.channelFullyConfirmed c = true ∨
        e.l1Head ≤ first + EncoderConfig.confirmationChannelTimeout e.rollupConfig)

theorem inTime_of_expired {c : Channel br} (h : e.expired c = false) : e.InTime c := by
  intro first hfirst
  unfold expired at h
  simp only [hfirst] at h
  split_ifs at h with hspan
  refine ⟨not_lt.mp hspan, ?_⟩
  rw [Bool.and_eq_false_iff, Bool.not_eq_false', decide_eq_false_iff_not, not_lt] at h
  exact h.imp_right fun hle => hle.trans (min_le_left _ _)

/-- What a replay of expired channels leaves. -/
structure Replayed (e e' : BatchEncoder br) : Prop where
  inTime : ∀ c ∈ e'.channels, e'.InTime c
  channels : e'.channels <+: e.channels
  artifacts : ∀ c ∈ e'.channels, e'.egress.artifactsFor c.id = e.egress.artifactsFor c.id
  leases : ∀ c ∈ e'.channels, e'.egress.leasesFor c.id = e.egress.leasesFor c.id
  artifact_kept : ∀ a ∈ e'.egress.artifacts.artifacts,
    ∀ d ∈ e.channels.drop e'.channels.length, d.id ∉ a.channelIds
  submission_kept : ∀ p ∈ e'.egress.pending, ∀ a ∈ e.egress.artifacts.artifacts,
    a.id ∈ p.2 → a ∈ e'.egress.artifacts.artifacts
  rewound : ∀ d, e.channels[e'.channels.length]? = some d → e'.blockCursor = d.blockStart
  blocks : e'.blocks = e.blocks

theorem replayed_invalidateExpired (horder : e.StartsInOrder) :
    Replayed e e.invalidateExpiredChannels := by
  unfold invalidateExpiredChannels
  split
  · rename_i hnone
    rw [findIdx?_eq_none_iff] at hnone
    refine ⟨fun c hc => inTime_of_expired (hnone c hc), prefix_rfl, fun _ _ => rfl, fun _ _ => rfl,
      fun a _ d hd => ?_, fun _ _ a ha _ => ha, fun d hd => ?_, rfl⟩
    · rw [drop_length] at hd
      exact absurd hd not_mem_nil
    · rw [getElem?_eq_none le_rfl] at hd
      cases hd
  rename_i channelIdx hidx
  obtain ⟨hlt, -, hearlier⟩ := findIdx?_eq_some_iff_getElem.mp hidx
  obtain ⟨i, replay, hle, hreplay, hmem, hfirst, heq⟩ :=
    invalidateChannel_spec (getElem?_eq_getElem hlt)
  have hclosed := (affectedBy_spec e e.channels[channelIdx].id).2
  -- what stays stands before the first channel of the closed set
  have hspared : ∀ c ∈ e.channels.take i,
      c.id ∉ (e.affectedBy e.channels[channelIdx].id).channels ∧ e.expired c = false := by
    intro c hc
    obtain ⟨j, -, rfl⟩ := mem_take_iff_getElem.mp hc
    have hji : j < i := by omega
    exact ⟨hfirst j _ hji (getElem?_eq_getElem (by omega)),
      Bool.eq_false_of_not_eq_true (hearlier j (by omega))⟩
  have hlen : (e.channels.take i).length = i := by
    rw [length_take]
    omega
  rw [heq]
  refine ⟨fun c hc => ?_, take_prefix i e.channels,
    fun c hc => hclosed.artifactsFor_eq (hspared c hc).1,
    fun c hc => hclosed.leasesFor_eq (hspared c hc).1, fun a ha d hd hcarries => ?_,
    fun p hp a ha hmem => ?_, fun d hd => ?_, rfl⟩
  · intro first hcfirst
    have hin := inTime_of_expired (hspared c hc).2 first hcfirst
    have hartifacts := hclosed.artifactsFor_eq (hspared c hc).1
    unfold DaEgress.artifactsFor at hartifacts
    unfold DaEgress.channelFullyConfirmed DaArtifacts.allConfirmedFor at hin ⊢
    rwa [hartifacts]
  · obtain ⟨hamem, hakept⟩ := mem_filter.mp ha
    simp only [hlen] at hd
    obtain ⟨k, hk⟩ := mem_iff_getElem?.mp hd
    rw [getElem?_drop] at hk
    have hdmem := hclosed.dropped hreplay hmem (Nat.le_add_right i k) hk
    have haffected := (hclosed.artifact a hamem (.inl ⟨d.id, hcarries, hdmem⟩)).1
    exact absurd haffected (of_decide_eq_true hakept)
  · have huntied := (mem_filter.mp hp).2
    refine mem_filter.mpr ⟨ha, decide_eq_true fun haffected => ?_⟩
    have htied : (p.2.any (· ∈ (e.affectedBy e.channels[channelIdx].id).artifacts)) = true :=
      any_eq_true.mpr ⟨a.id, hmem, decide_eq_true haffected⟩
    rw [htied] at huntied
    cases huntied
  · simp only [hlen] at hd
    obtain rfl : replay = d := Option.some.inj (hreplay.symm.trans hd)
    exact min_eq_right (horder.le_cursor (mem_of_getElem? hreplay))

/-- Timeout replay as a whole: the closure comes to its end, every channel that stays is within its
window, stands where it stood and keeps its artifacts and leases, nothing that stays refers to
something that was dropped, and if a channel was dropped, encoding goes on at the first block of the
first dropped one. -/
structure TimeoutReplay (e : BatchEncoder br) (l1Block : ℕ) : Prop where
  terminates : ∀ id, (e.beforeReplay l1Block).extendAffected
    ((e.beforeReplay l1Block).affectedBy id) = (e.beforeReplay l1Block).affectedBy id
  inTime : ∀ c ∈ (e.advanceL1Head l1Block).channels, (e.advanceL1Head l1Block).InTime c
  fifo : ∀ (j : ℕ) (c' : Channel br), (e.advanceL1Head l1Block).channels[j]? = some c' →
    ∃ c, e.channels[j]? = some c ∧ (c' = c ∨ c.close = .ok c')
  artifacts : ∀ c ∈ (e.advanceL1Head l1Block).channels,
    (e.advanceL1Head l1Block).egress.artifactsFor c.id = e.egress.artifactsFor c.id
  leases : ∀ c ∈ (e.advanceL1Head l1Block).channels,
    (e.advanceL1Head l1Block).egress.leasesFor c.id = e.egress.leasesFor c.id
  artifact_kept : ∀ a ∈ (e.advanceL1Head l1Block).egress.artifacts.artifacts,
    ∀ d ∈ e.channels.drop (e.advanceL1Head l1Block).channels.length, d.id ∉ a.channelIds
  submission_kept : ∀ p ∈ (e.advanceL1Head l1Block).egress.pending,
    ∀ a ∈ e.egress.artifacts.artifacts, a.id ∈ p.2 →
      a ∈ (e.advanceL1Head l1Block).egress.artifacts.artifacts
  rewound : ∀ d, e.channels[(e.advanceL1Head l1Block).channels.length]? = some d →
    (e.advanceL1Head l1Block).blockCursor = d.blockStart
  blocks : (e.advanceL1Head l1Block).blocks = e.blocks

theorem close_keeps {c c' : Channel br} (h : c' = c ∨ c.close = .ok c') :
    c'.id = c.id ∧ c'.blockStart = c.blockStart := by
  rcases h with rfl | hclose
  · exact ⟨rfl, rfl⟩
  · cases hs : c.compressor with
    | none =>
      unfold Channel.close at hclose
      rw [hs] at hclose
      cases hclose
      exact ⟨rfl, rfl⟩
    | some s =>
      rw [close_eq hs] at hclose
      cases hclose
      exact ⟨rfl, rfl⟩

theorem Closes.exists_channel (h : Closes e e') {j : ℕ} {d : Channel br}
    (hd : e.channels[j]? = some d) :
    ∃ d', e'.channels[j]? = some d' ∧ d'.id = d.id ∧ d'.blockStart = d.blockStart := by
  have hj : j < e'.channels.length := h.length ▸ (List.getElem?_eq_some_iff.mp hd).1
  obtain ⟨c, hc, hclose⟩ := h.channel j _ (getElem?_eq_getElem hj)
  obtain rfl : c = d := Option.some.inj (hc.symm.trans hd)
  exact ⟨_, getElem?_eq_getElem hj, close_keeps hclose⟩

theorem StartsInOrder.closes (h : e.StartsInOrder) (hcloses : Closes e e') : e'.StartsInOrder := by
  have hstarts : e'.channels.map (·.blockStart) = e.channels.map (·.blockStart) := ?_
  · unfold StartsInOrder starts
    rwa [hstarts, hcloses.blockCursor]
  apply ext_getElem?
  intro j
  rw [getElem?_map, getElem?_map]
  cases hd : e.channels[j]? with
  | none =>
    have hlen := getElem?_eq_none_iff.mp hd
    rw [getElem?_eq_none (by rw [hcloses.length]; exact hlen)]
  | some d =>
    obtain ⟨d', hd', -, hstart⟩ := hcloses.exists_channel hd
    rw [hd', Option.map_some, Option.map_some, hstart]

theorem timeoutReplay_of_order (horder : e.StartsInOrder) (hdeferred : e.deferredStepError = none)
    (l1Block : ℕ) : e.TimeoutReplay l1Block := by
  have hcloses := closes_beforeReplay e l1Block
  have h := replayed_invalidateExpired (horder.closes hcloses)
  rw [← advanceL1Head_eq hdeferred] at h
  refine ⟨fun id => (affectedBy_fixed _ id).2, h.inTime, fun j c' hj => ?_, fun c hc => ?_,
    fun c hc => ?_, fun a ha d hd => ?_, fun p hp a ha => ?_, fun d hd => ?_, ?_⟩
  · obtain ⟨hlt, rfl⟩ := List.getElem?_eq_some_iff.mp hj
    refine hcloses.channel j _ ?_
    obtain ⟨rest, hrest⟩ := h.channels
    rw [← hrest, getElem?_append_left hlt, getElem?_eq_getElem hlt]
  · rw [h.artifacts c hc, hcloses.egress]
  · rw [h.leases c hc, hcloses.egress]
  · obtain ⟨k, hk⟩ := mem_iff_getElem?.mp hd
    rw [getElem?_drop] at hk
    obtain ⟨d', hd', hid, -⟩ := hcloses.exists_channel hk
    rw [← hid]
    refine h.artifact_kept a ha d' (mem_iff_getElem?.mpr ⟨k, ?_⟩)
    rw [getElem?_drop, hd']
  · exact h.submission_kept p hp a (by rw [hcloses.egress]; exact ha)
  · obtain ⟨d', hd', -, hstart⟩ := hcloses.exists_channel hd
    rw [h.rewound d' hd', hstart]
  · rw [h.blocks, hcloses.blocks]

end BatchEncoder

/-- In every state that a run reaches and that holds no deferred error, timeout replay is sound and
complete. -/
theorem timeout_replay (br : Brotli) (rollupConfig : RollupConfig) (config : EncoderConfig)
    (e₀ e : BatchEncoder br) (ops : List PipelineCall) (replies : List PipelineReply)
    (hnew : BatchEncoder.new br rollupConfig config = .ok e₀)
    (hrun : e₀.runCalls ops = some (replies, e)) (hdeferred : e.deferredStepError = none)
    (l1Block : ℕ) : e.TimeoutReplay l1Block := by
  obtain ⟨-, rfl⟩ := BatchEncoder.new_ok hnew
  obtain ⟨evs, -, -, hmoves⟩ := moves_of_runCalls hrun
  have hinit : (BatchEncoder.initial br rollupConfig config).StartsInOrder :=
    pairwise_singleton _ _
  exact BatchEncoder.timeoutReplay_of_order (hinit.moves hmoves) hdeferred l1Block

/-- Small frames in calldata: a channel takes several submissions. -/
def smallFrames : EncoderConfig :=
  { EncoderConfig.defaultConfig with maxFrameSize := 60, daType := .calldata }

/-- One channel, of which the first frame is confirmed. -/
def halfConfirmedCalls : List PipelineCall :=
  [.addBlock (sampleBlock 1), .step (FixedBytes.zero 16), .flush, .nextSubmission, .confirm 0 7]

/-- The channel of the sample is dropped when its window has passed. -/
theorem timeout_replay_sample : ∃ (e₀ e : BatchEncoder Brotli.stored)
    (replies : List PipelineReply),
    BatchEncoder.new Brotli.stored sampleRollup smallFrames = .ok e₀ ∧
      e₀.runCalls halfConfirmedCalls = some (replies, e) ∧
      e.deferredStepError = none ∧ e.channels.length = 1 ∧
      (e.advanceL1Head 400).channels.length = 0 ∧ e.TimeoutReplay 400 := by
  have hrun : ((BatchEncoder.initial Brotli.stored sampleRollup smallFrames).runCalls
      halfConfirmedCalls).any (fun p => p.2.deferredStepError.isNone &&
        decide (p.2.channels.length = 1) &&
        decide ((p.2.advanceL1Head 400).channels.length = 0)) = true := by
    decide +kernel
  rw [Option.any_eq_true_iff_get] at hrun
  obtain ⟨hsome, hstate⟩ := hrun
  obtain ⟨⟨replies, e⟩, he⟩ := Option.isSome_iff_exists.mp hsome
  simp only [he, Bool.and_eq_true, decide_eq_true_eq, Option.isNone_iff_eq_none] at hstate
  obtain ⟨⟨hdeferred, hone⟩, hdropped⟩ := hstate
  exact ⟨_, e, replies, rfl, he, hdeferred, hone, hdropped,
    timeout_replay Brotli.stored sampleRollup smallFrames _ e halfConfirmedCalls replies rfl he
      hdeferred 400⟩

end NodeReth
