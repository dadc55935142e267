import NodeReth.Lib.Segments
import NodeReth.Batcher.Moves

/-!
# The queue and its channels

The block ranges of the channels tile the buffered blocks below the cursor, only the last channel
may be open, and the youngest batches of a channel are composed from the blocks of its range. The
invariant holds behind every move, and with it every call is a sequence of moves.
-/

namespace NodeReth

open BatchEncoder Channel DaEgress List Runs Segments

namespace Channel

variable {br : Brotli}

/-- The buffered blocks that a channel carries. -/
def blockRange (c : Channel br) : Segment := ⟨c.blockStart, c.blocksAdded⟩

/-- What the partition of the queue depends on. -/
def holding (c : Channel br) : Segment × Bool × List SingleBatch :=
  (c.blockRange, c.isOpen, c.batches)

end Channel

variable {br : Brotli}

/-- At most the last channel is open. -/
def OnlyLastOpen (cs : List (Channel br)) : Prop :=
  ∀ (i : ℕ) (c : Channel br), cs[i]? = some c → c.isOpen = true → i + 1 = cs.length

variable {cs ds : List (Channel br)}

theorem onlyLastOpen_concat {c : Channel br} :
    OnlyLastOpen (cs ++ [c]) ↔ ∀ d ∈ cs, d.isOpen = false := by
  constructor
  · intro h d hd
    obtain ⟨i, hi, rfl⟩ := mem_iff_getElem.mp hd
    by_contra hopen
    have hget : (cs ++ [c])[i]? = some cs[i] := by
      rw [getElem?_append_left hi, getElem?_eq_getElem hi]
    have := h i _ hget (Bool.eq_true_of_not_eq_false hopen)
    rw [length_append, length_singleton] at this
    omega
  · intro h i d hd hopen
    rw [length_append, length_singleton]
    by_cases hi : i < cs.length
    · rw [getElem?_append_left hi] at hd
      rw [h d (mem_of_getElem? hd)] at hopen
      cases hopen
    · have := (List.getElem?_eq_some_iff.mp hd).1
      rw [length_append, length_singleton] at this
      omega

theorem OnlyLastOpen.all_closed (h : OnlyLastOpen cs)
    (hlast : ∀ d ∈ cs.getLast?, d.isOpen = false) : ∀ d ∈ cs, d.isOpen = false := by
  rcases eq_nil_or_concat' cs with rfl | ⟨ds, c, rfl⟩
  · simp
  · intro d hd
    rcases mem_append.mp hd with hd | hd
    · exact onlyLastOpen_concat.mp h d hd
    · exact hlast d (by simpa using (mem_singleton.mp hd).symm)

theorem OnlyLastOpen.suffix (h : OnlyLastOpen cs) (hds : ds <:+ cs) : OnlyLastOpen ds := by
  obtain ⟨pre, rfl⟩ := hds
  intro i c hc hopen
  have := h (pre.length + i) c (by rw [getElem?_append_right (by omega)]; simpa using hc) hopen
  rw [length_append] at this
  omega

theorem OnlyLastOpen.take (h : OnlyLastOpen cs) {n : ℕ}
    (hn : n < cs.length) : OnlyLastOpen (cs.take n) := by
  intro i c hc hopen
  rw [getElem?_take] at hc
  split_ifs at hc with hi
  have := h i c hc hopen
  omega

theorem OnlyLastOpen.congr (h : OnlyLastOpen cs)
    (hsame : ds.map isOpen = cs.map isOpen) : OnlyLastOpen ds := by
  intro i d hd hopen
  have hlen : ds.length = cs.length := by simpa using congrArg length hsame
  have hi : (cs.map isOpen)[i]? = some true := by
    rw [← hsame, getElem?_map, hd, Option.map_some, hopen]
  rw [getElem?_map, Option.map_eq_some_iff] at hi
  obtain ⟨c, hc, hopen'⟩ := hi
  rw [hlen]
  exact h i c hc hopen'

/-- The youngest batches of a channel are those of the blocks in its range. -/
def Carries (blocks : List BaseBlock) (range : Segment) (batches : List SingleBatch) : Prop :=
  ∃ old live, batches = old ++ live ∧ live.length = range.len ∧
    ((blocks.drop range.start).take range.len).map (BatchComposer.blockToSingleBatch) = live.map .ok

/-- The channels split the blocks below the cursor. -/
structure Partition {br : Brotli} (e : BatchEncoder br) : Prop where
  cursor_le : e.blockCursor ≤ e.blocks.length
  tiles : Tiles 0 (e.channels.map blockRange) e.blockCursor
  onlyLastOpen : OnlyLastOpen e.channels
  carries : ∀ c ∈ e.channels, Carries e.blocks c.blockRange c.batches

namespace Carries

variable {blocks : List BaseBlock} {range : Segment} {batches : List SingleBatch}

variable (h : Carries blocks range batches)

include h

theorem enqueue (hstop : range.stop ≤ blocks.length)
    (block : BaseBlock) : Carries (blocks ++ [block]) range batches := by
  obtain ⟨old, live, hbatches, hlen, hmap⟩ := h
  unfold Segment.stop at hstop
  refine ⟨old, live, hbatches, hlen, ?_⟩
  rwa [drop_append_of_le_length (by omega), take_append_of_le_length (by rw [length_drop]; omega)]

theorem append {block : BaseBlock} {batch : SingleBatch} (hblock : blocks[range.stop]? = some block)
    (hbatch : BatchComposer.blockToSingleBatch block = .ok batch) :
    Carries blocks ⟨range.start, range.len + 1⟩ (batches ++ [batch]) := by
  obtain ⟨old, live, hbatches, hlen, hmap⟩ := h
  refine ⟨old, live ++ [batch], by rw [hbatches, append_assoc], by simp [hlen], ?_⟩
  have hget : (blocks.drop range.start)[range.len]? = some block := by
    rwa [getElem?_drop]
  rw [take_add_one, hget, map_append, hmap]
  simp [hbatch]

/-- Dropping blocks at the start of the queue shortens the range at its start. -/
theorem shift {n : ℕ} (hn : n < range.stop) : Carries (blocks.drop n) (range.shift n) batches := by
  obtain ⟨old, live, hbatches, hlen, hmap⟩ := h
  -- the blocks that leave the range
  set k := n - range.start with hk
  have hlen' : (range.shift n).len = range.len - k := by
    unfold Segment.shift Segment.stop at *
    simp only
    omega
  refine ⟨old ++ live.take k, live.drop k, ?_, ?_, ?_⟩
  · rw [append_assoc, take_append_drop, hbatches]
  · rw [length_drop, hlen, hlen']
  · rw [map_drop, ← hmap, ← map_drop, drop_take, drop_drop, drop_drop]
    congr 3
    unfold Segment.shift
    simp only
    omega

end Carries

/-! ## Moves -/

section

variable {e e' : BatchEncoder br} {evs : List MoveEvent} {id : ChannelId} {c : Channel br}

theorem Partition.congr (h : Partition e) (hblocks : e'.blocks = e.blocks)
    (hcursor : e'.blockCursor = e.blockCursor)
    (hchannels : e'.channels.map holding = e.channels.map holding) : Partition e' := by
  have hranges := congrArg (map Prod.fst) hchannels
  have hopen := congrArg (map (·.2.1)) hchannels
  rw [map_map, map_map] at hranges hopen
  refine ⟨?_, ?_, h.onlyLastOpen.congr hopen, ?_⟩
  · rw [hcursor, hblocks]
    exact h.cursor_le
  · have htiles := h.tiles
    rw [← hcursor] at htiles
    exact hranges.symm ▸ htiles
  · intro c hc
    have hmem : c.holding ∈ e.channels.map holding :=
      hchannels ▸ mem_map_of_mem hc
    obtain ⟨d, hd, hsame⟩ := mem_map.mp hmem
    have hcarry := h.carries d hd
    unfold holding at hsame
    rw [Prod.mk.injEq, Prod.mk.injEq] at hsame
    rwa [hsame.1, hsame.2.2, ← hblocks] at hcarry

theorem Partition.stop_le (h : Partition e) (hc : c ∈ e.channels) :
    c.blockRange.stop ≤ e.blockCursor :=
  (h.tiles.stop_le (mem_map_of_mem hc)).2

/-- The channel that is offered the next batch ends at the cursor, and those before it are closed. -/
theorem Partition.opens (h : Partition e) (hopens : BatchEncoder.Opens e id evs cs c) :
    Tiles 0 (cs.map blockRange) c.blockStart ∧ c.blockEnd = e.blockCursor ∧
      (∀ d ∈ cs, d.isOpen = false) ∧ ∀ d ∈ cs ++ [c], Carries e.blocks d.blockRange d.batches := by
  cases hopens with
  | current hcs =>
    have htiles := h.tiles
    rw [hcs, map_append, map_singleton, tiles_concat] at htiles
    exact ⟨htiles.1, htiles.2.2, onlyLastOpen_concat.mp (hcs ▸ h.onlyLastOpen), hcs ▸ h.carries⟩
  | fresh hclosed =>
    exact ⟨h.tiles, rfl, h.onlyLastOpen.all_closed hclosed,
      forall_mem_append.mpr ⟨h.carries, forall_mem_singleton.mpr ⟨[], [], rfl, rfl, rfl⟩⟩⟩

/-- The channels before a replayed one tile the blocks up to its first. -/
theorem Partition.rewind (h : Partition e) {i : ℕ} {replay : Channel br}
    (hreplay : e.channels[i]? = some replay) (egress : DaEgress) :
    Partition { e with
      egress := egress
      channels := e.channels.take i
      blockCursor := min e.blockCursor replay.blockStart } := by
  have hle := h.stop_le (mem_of_getElem? hreplay)
  have hstart : replay.blockStart ≤ e.blockCursor :=
    (Nat.le_add_right _ _).trans hle
  have hcursor := h.cursor_le
  refine ⟨(min_le_left _ _).trans hcursor, ?_, ?_, ?_⟩
  · rw [min_eq_right hstart, map_take]
    exact h.tiles.take (x := replay.blockRange) (by rw [getElem?_map, hreplay]; rfl)
  · exact h.onlyLastOpen.take (List.getElem?_eq_some_iff.mp hreplay).1
  · exact fun c hc => h.carries c (mem_of_mem_take hc)

theorem BatchEncoder.channels_dropSafe (e : BatchEncoder br) (n : ℕ) :
    (e.dropSafe n).channels = (e.channels.dropWhile fun c => decide (c.blockEnd ≤ n)).map
      (·.rebaseAfterPrune n) := by
  have hdrop : e.channels.drop (e.channels.takeWhile fun c => decide (c.blockEnd ≤ n)).length =
      e.channels.dropWhile fun c => decide (c.blockEnd ≤ n) := by
    conv_lhs =>
      arg 2
      rw [← takeWhile_append_dropWhile (p := fun c : Channel br => decide (c.blockEnd ≤ n))
        (l := e.channels)]
    exact drop_left
  unfold dropSafe rebaseAfterBlockPrune pruneSafeChannels
  simp only
  split_ifs with hcovered
  · rw [hdrop]
  · rw [← hdrop, Nat.eq_zero_of_not_pos hcovered, drop_zero]

theorem BatchEncoder.blocks_dropSafe (e : BatchEncoder br) (n : ℕ) :
    (e.dropSafe n).blocks = e.blocks.drop n := by
  unfold dropSafe pruneSafeChannels
  simp only
  split_ifs <;> rfl

theorem BatchEncoder.blockCursor_dropSafe (e : BatchEncoder br) (n : ℕ) :
    (e.dropSafe n).blockCursor = e.blockCursor - n := by
  unfold dropSafe pruneSafeChannels
  simp only
  split_ifs <;> rfl

/-- A safe prefix may end inside a channel or behind the cursor. -/
theorem Partition.dropSafe (h : Partition e) (n : ℕ) : Partition (e.dropSafe n) := by
  have htiles := h.tiles.prune (n := n)
  have hcursor := h.cursor_le
  have hlive := h.tiles.lt_stop_of_mem_dropWhile (n := n)
  rw [dropWhile_map] at htiles hlive
  refine ⟨?_, ?_, ?_, ?_⟩
  · rw [blockCursor_dropSafe, blocks_dropSafe, length_drop]
    omega
  · rw [blockCursor_dropSafe, channels_dropSafe, map_map]
    rwa [map_map] at htiles
  · rw [channels_dropSafe]
    have hsuffix := dropWhile_suffix (fun c => decide (c.blockEnd ≤ n)) (l := e.channels)
    refine (h.onlyLastOpen.suffix hsuffix).congr ?_
    rw [map_map]
    rfl
  · rw [channels_dropSafe, blocks_dropSafe]
    intro c hc
    obtain ⟨d, hd, rfl⟩ := mem_map.mp hc
    exact (h.carries d ((dropWhile_suffix _).subset hd)).shift (hlive _ (mem_map_of_mem hd))

theorem BatchEncoder.recordConfirmation_map {α : Type} {f : Channel br → α}
    (hf : ∀ (c : Channel br) n, f (c.recordConfirmation n) = f c) (id : ChannelId) (l1Block : ℕ)
    (cs : List (Channel br)) : (recordConfirmation id l1Block cs).map f = cs.map f := by
  induction cs with
  | nil => rfl
  | cons c cs ih =>
    unfold recordConfirmation
    split_ifs
    · rw [map_cons, hf, map_cons]
    · rw [map_cons, ih, map_cons]

theorem BatchEncoder.confirm_map {α : Type} {f : Channel br → α}
    (hf : ∀ (c : Channel br) n, f (c.recordConfirmation n) = f c) (e : BatchEncoder br)
    (id : SubmissionId) (l1Block : ℕ) :
    (e.confirm id l1Block).channels.map f = e.channels.map f := by
  have hfold : ∀ (ids : List ChannelId) (cs : List (Channel br)),
      (ids.foldl (fun cs id => recordConfirmation id l1Block cs) cs).map f = cs.map f := by
    intro ids
    induction ids with
    | nil => exact fun _ => rfl
    | cons id ids ih =>
      intro cs
      rw [foldl_cons, ih, recordConfirmation_map hf]
  unfold confirm
  split
  · rfl
  · exact hfold _ _

theorem Partition.confirm (h : Partition e) (id : SubmissionId) (l1Block : ℕ) :
    Partition (e.confirm id l1Block) := by
  refine h.congr ?_ ?_ (confirm_map (fun _ _ => rfl) e id l1Block)
  · unfold BatchEncoder.confirm
    split <;> rfl
  · unfold BatchEncoder.confirm
    split <;> rfl

/-- What a channel is given when it is started: the frame size and the first block. -/
def Channel.layout (c : Channel br) : ℕ × ℕ := (c.maxFrameSize, c.blockStart)

/-- What a move does to the layouts. -/
inductive BatchEncoder.Lays (e e' : BatchEncoder br) : Prop
  /-- They stay, with that of a new channel or without the last one. -/
  | kept (hlayouts : (e'.channels.map layout).Sublist
        (e.channels.map layout ++ [(e.config.maxFrameSize, e.blockCursor)]))
      (hcursor : e.blockCursor ≤ e'.blockCursor)
  | rewound {i : ℕ} {replay : Channel br} (hreplay : e.channels[i]? = some replay)
      (hchannels : e'.channels = e.channels.take i)
      (hcursor : e'.blockCursor = min e.blockCursor replay.blockStart)
  | rebased {n : ℕ} (heq : e' = e.dropSafe n)
  | emptied (hchannels : e'.channels = [])

theorem BatchEncoder.Opens.layouts {c' : Channel br} (h : BatchEncoder.Opens e id evs cs c)
    (hc' : c'.layout = c.layout) : ((cs ++ [c']).map layout).Sublist
      (e.channels.map layout ++ [(e.config.maxFrameSize, e.blockCursor)]) := by
  rw [map_append, map_singleton, hc']
  cases h with
  | current hcs =>
    rw [hcs, map_append]
    exact sublist_append_left _ _
  | fresh => exact .refl _

theorem BatchEncoder.Move.lays (hmove : BatchEncoder.Move e evs e') :
    Lays e e' := by
  have hsame : ∀ {u : BatchEncoder br}, u.channels.map layout = e.channels.map layout →
      e.blockCursor ≤ u.blockCursor → Lays e u :=
    fun hlayouts => .kept (hlayouts ▸ sublist_append_left _ _)
  cases hmove with
  | append hopens => exact .kept (hopens.layouts rfl) (Nat.le_succ _)
  | fail hopens => exact .kept (hopens.layouts rfl) le_rfl
  | discard hcs hempty =>
    exact .kept (by rw [hcs, map_append, append_assoc]; exact sublist_append_left _ _) le_rfl
  | close hcs hs hne => exact hsame (by rw [hcs, map_append, map_append]; rfl) le_rfl
  | release l1Head => exact hsame (by rw [map_map]; rfl) le_rfl
  | cutBlob hplan hcommit =>
    obtain ⟨frames, htake, rfl⟩ := commitBlob_ok hcommit
    exact hsame (takePlan_map (fun _ _ _ _ => rfl) htake) le_rfl
  | cutCalldata hplan hcommit =>
    obtain ⟨frame, htake, rfl⟩ := commitCalldata_ok hcommit
    exact hsame (takePlanned_map (fun _ _ _ _ => rfl) htake) le_rfl
  | confirm id l1Block =>
    refine hsame (confirm_map (fun _ _ => rfl) e id l1Block) ?_
    unfold BatchEncoder.confirm
    split <;> exact le_rfl
  | invalidate channelIdx =>
    rcases invalidateChannel_cases e channelIdx with
      heq | ⟨st, i, replay, -, hreplay, -, -, heq⟩ <;> rw [heq]
    · exact hsame rfl le_rfl
    · exact .rewound hreplay rfl rfl
  | prune hn => exact .rebased rfl
  | reset => exact .emptied rfl
  | _ => exact hsame rfl le_rfl

/-- The invariant holds behind every move, unless the compressor fails. -/
theorem Partition.move (h : Partition e) (hmove : BatchEncoder.Move e evs e')
    (hundisturbed : .disturbed ∉ evs) : Partition e' := by
  cases hmove with
  | control | lease | requeue id => exact h.congr rfl rfl rfl
  | enqueue block =>
    have hcursor := h.cursor_le
    refine ⟨?_, h.tiles, h.onlyLastOpen, fun c hc => ?_⟩
    · simp only [length_append]
      omega
    · exact (h.carries c hc).enqueue ((h.stop_le hc).trans hcursor) block
  | append hopens hblock hbatch =>
    obtain ⟨hcursor, -⟩ := List.getElem?_eq_some_iff.mp hblock
    obtain ⟨htiles, hstop, hclosed, hcarries⟩ := h.opens hopens
    refine ⟨hcursor, ?_, onlyLastOpen_concat.mpr hclosed, ?_⟩
    · rw [map_append, map_singleton, tiles_concat]
      exact ⟨htiles, Nat.succ_pos _, congrArg (· + 1) hstop⟩
    · rw [forall_mem_append, forall_mem_singleton] at hcarries ⊢
      rw [← hstop] at hblock
      exact ⟨hcarries.1, hcarries.2.append hblock hbatch⟩
  | fail | discard => simp at hundisturbed
  | close hcs hs hne =>
    have htiles := h.tiles
    have hlast := h.onlyLastOpen
    have hcarries := h.carries
    rw [hcs] at htiles hlast hcarries
    refine ⟨h.cursor_le, ?_, onlyLastOpen_concat.mpr (onlyLastOpen_concat.mp hlast), ?_⟩
    · rwa [map_append] at htiles ⊢
    · rwa [forall_mem_append, forall_mem_singleton] at hcarries ⊢
  | release l1Head =>
    refine h.congr rfl rfl ?_
    rw [map_map]
    rfl
  | cutBlob hplan hcommit =>
    obtain ⟨frames, htake, rfl⟩ := commitBlob_ok hcommit
    exact h.congr rfl rfl (takePlan_map (fun _ _ _ _ => rfl) htake)
  | cutCalldata hplan hcommit =>
    obtain ⟨frame, htake, rfl⟩ := commitCalldata_ok hcommit
    exact h.congr rfl rfl (takePlanned_map (fun _ _ _ _ => rfl) htake)
  | confirm id l1Block => exact h.confirm id l1Block
  | invalidate channelIdx =>
    rcases invalidateChannel_cases e channelIdx with
      heq | ⟨st, i, replay, -, hreplay, -, -, heq⟩
    · rwa [heq]
    · rw [heq]
      exact h.rewind hreplay _
  | prune hn => exact h.dropSafe _
  | reset => exact ⟨Nat.zero_le _, rfl, nofun, nofun⟩

theorem Partition.moves (h : Partition e) (hmoves : BatchEncoder.Moves e evs e')
    (hundisturbed : .disturbed ∉ evs) : Partition e' := by
  refine Steps.invariant (fun evs e => .disturbed ∉ evs → Partition e)
    (fun xs ys t u ih hmove hevs => ?_) (fun _ => h) hmoves hundisturbed
  rw [mem_append, not_or] at hevs
  exact (ih hevs.1).move hmove hevs.2

theorem Partition.initial (rollupConfig : RollupConfig) (config : EncoderConfig) :
    Partition (initial br rollupConfig config) :=
  ⟨le_rfl, rfl, nofun, nofun⟩

/-! ## Calls -/

theorem moves_of_call {op : PipelineCall} {reply : PipelineReply}
    (hcall : e.call op = .ok (reply, e')) :
    ∃ evs, BatchEncoder.CallEvents e op reply (Partition e) evs ∧
      BatchEncoder.Moves e evs e' := by
  cases op with try cases hcall
  | step freshId =>
    simp only [call] at hcall
    split at hcall
    · cases hcall
    rename_i r e₁ hstep
    cases hcall
    exact moves_step
      (fun h _ hmoves _ hc => (Partition.moves h hmoves not_mem_nil).tiles.pos (mem_map_of_mem hc))
      hstep
  | nextSubmission =>
    simp only [call] at hcall
    split at hcall
    · cases hcall
    rename_i r e₁ hnext
    cases hcall
    obtain ⟨n, hmoves⟩ := moves_nextSubmission hnext
    exact ⟨_, .cuts n _ _, hmoves⟩
  | addBlock block => exact ⟨[], .nil _ _ _, moves_addBlock e block⟩
  | confirm id l1Block => exact ⟨[], .nil _ _ _, .single (.confirm id l1Block)⟩
  | requeue id => exact ⟨[], .nil _ _ _, .single (.requeue id)⟩
  | flush => exact ⟨[], .nil _ _ _, moves_flush e⟩
  | advanceL1Head l1Block => exact ⟨[], .nil _ _ _, moves_advanceL1Head e l1Block⟩
  | reset => exact ⟨[], .nil _ _ _, .single .reset⟩
  | reconcileDerivation safeL2 currentL1 =>
    exact ⟨[], .nil _ _ _, moves_reconcileDerivation e safeL2 currentL1⟩
  | setBlobOverride active =>
    refine ⟨[], .nil _ _ _, ?_⟩
    unfold setBlobOverride
    split_ifs
    · exact .refl e
    · exact moves_control

variable {ops : List PipelineCall} {replies : List PipelineReply}

theorem runCalls_cons {op : PipelineCall} (hrun : e.runCalls (op :: ops) = some (replies, e')) :
    ∃ reply rest e₁, replies = reply :: rest ∧ e.call op = .ok (reply, e₁) ∧
      e₁.runCalls ops = some (rest, e') := by
  unfold runCalls at hrun
  split at hrun
  · cases hrun
  rename_i reply e₁ hcall
  rw [Option.map_eq_some_iff] at hrun
  obtain ⟨⟨rest, e₂⟩, hrest, heq⟩ := hrun
  cases heq
  exact ⟨reply, rest, e₁, rfl, hcall, hrest⟩

theorem runCalls_append {e'' : BatchEncoder br} {ops' : List PipelineCall}
    {replies' : List PipelineReply} (hrun : e.runCalls ops = some (replies, e'))
    (hrun' : e'.runCalls ops' = some (replies', e'')) :
    e.runCalls (ops ++ ops') = some (replies ++ replies', e'') := by
  induction ops generalizing e replies with
  | nil =>
    cases hrun
    exact hrun'
  | cons op ops ih =>
    obtain ⟨reply, rest, e₁, rfl, hcall, hrest⟩ := runCalls_cons hrun
    rw [cons_append, runCalls, hcall]
    simp [ih hrest]

/-- A run is a sequence of moves that draws identifiers of its calls, in order. -/
theorem moves_of_runCalls (hrun : e.runCalls ops = some (replies, e')) :
    ∃ evs, (evs.filterMap MoveEvent.drawn?).Sublist (ops.flatMap PipelineCall.drawn) ∧
      (Partition e → (∀ r ∈ replies, r.compressorFailed = false) → .disturbed ∉ evs) ∧
      BatchEncoder.Moves e evs e' := by
  induction ops generalizing e replies with
  | nil =>
    cases hrun
    exact ⟨[], List.Sublist.refl _, fun _ _ => not_mem_nil, .refl _⟩
  | cons op ops ih =>
    obtain ⟨reply, rest, e₁, rfl, hcall, hrest⟩ := runCalls_cons hrun
    obtain ⟨evs, hevs, hmoves⟩ := moves_of_call hcall
    obtain ⟨evs', hdrawn', hquiet', hmoves'⟩ := ih hrest
    refine ⟨evs ++ evs', ?_, fun h hreplies => ?_, hmoves.trans hmoves'⟩
    · rw [filterMap_append]
      exact hevs.drawn.append hdrawn'
    · have hquiet := hevs.undisturbed h (hreplies _ mem_cons_self)
      rw [mem_append, not_or]
      exact ⟨hquiet, hquiet' (h.moves hmoves hquiet) fun r hr =>
        hreplies r (mem_cons_of_mem _ hr)⟩

end

/-- In every state that a run without compressor errors reaches, the channels tile the buffered
blocks up to the cursor, at most the last one is open, and the youngest batches of each are composed
from the blocks of its range. -/
theorem queue_partition (br : Brotli) (rollupConfig : RollupConfig) (config : EncoderConfig)
    (e₀ e : BatchEncoder br) (ops : List PipelineCall) (replies : List PipelineReply)
    (hnew : new br rollupConfig config = .ok e₀)
    (hrun : e₀.runCalls ops = some (replies, e))
    (hcompressor : ∀ r ∈ replies, r.compressorFailed = false) :
    e.blockCursor ≤ e.blocks.length ∧ Tiles 0 (e.channels.map blockRange) e.blockCursor ∧
      OnlyLastOpen e.channels ∧
      (∀ i < e.blockCursor, ∃! k : ℕ, ∃ c : Channel br,
        e.channels[k]? = some c ∧ c.blockStart ≤ i ∧ i < c.blockEnd) ∧
      ∀ c ∈ e.channels, Carries e.blocks c.blockRange c.batches := by
  obtain ⟨-, rfl⟩ := new_ok hnew
  have hinit : Partition (initial br rollupConfig config) :=
    Partition.initial rollupConfig config
  obtain ⟨evs, -, hquiet, hmoves⟩ := moves_of_runCalls hrun
  have h := hinit.moves hmoves (hquiet hinit hcompressor)
  refine ⟨h.cursor_le, h.tiles, h.onlyLastOpen, fun i hi => ?_, h.carries⟩
  obtain ⟨k, ⟨x, hx, hin⟩, huniq⟩ := h.tiles.existsUnique (Nat.zero_le i) hi
  rw [getElem?_map, Option.map_eq_some_iff] at hx
  obtain ⟨c, hc, rfl⟩ := hx
  refine ⟨k, ⟨c, hc, hin⟩, ?_⟩
  rintro l ⟨d, hd, hdi⟩
  exact huniq l ⟨d.blockRange, by rw [getElem?_map, hd]; rfl, hdi⟩

theorem queue_partition_sample : ∃ (e₀ e : BatchEncoder Brotli.stored)
    (replies : List PipelineReply),
    new Brotli.stored sampleRollup EncoderConfig.defaultConfig = .ok e₀ ∧
      e₀.runCalls sampleCalls = some (replies, e) ∧
      (∀ r ∈ replies, r.compressorFailed = false) ∧
      e.blockCursor ≤ e.blocks.length ∧
      Tiles 0 (e.channels.map blockRange) e.blockCursor ∧
      OnlyLastOpen e.channels ∧
      (∀ i < e.blockCursor, ∃! k : ℕ, ∃ c : Channel Brotli.stored,
        e.channels[k]? = some c ∧ c.blockStart ≤ i ∧ i < c.blockEnd) ∧
      ∀ c ∈ e.channels, Carries e.blocks c.blockRange c.batches := by
  have hrun : ((initial Brotli.stored sampleRollup
      EncoderConfig.defaultConfig).runCalls sampleCalls).any
        (fun p => p.1.all (!·.compressorFailed)) = true := by
    decide +kernel
  rw [Option.any_eq_true_iff_get] at hrun
  obtain ⟨hsome, hreplies⟩ := hrun
  obtain ⟨⟨replies, e⟩, he⟩ := Option.isSome_iff_exists.mp hsome
  simp only [he] at hreplies
  have hcompressor : ∀ r ∈ replies, r.compressorFailed = false := by simpa using hreplies
  exact ⟨_, e, replies, rfl, he, hcompressor, queue_partition Brotli.stored sampleRollup
    EncoderConfig.defaultConfig _ e sampleCalls replies rfl he hcompressor⟩

end NodeReth
