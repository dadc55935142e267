import NodeReth.Derive.Pipeline

/-!
# The channel assembler

`ChannelAssembler` of `derive/src/stages/channel/channel_assembler.rs`, the stage in front of the
channel reader from Holocene on. There is at most one channel. A frame with number 0 starts a new
one, whatever was there; any other frame must be the next one of the present channel, or it is
dropped; and the channel is handed on as soon as it is closed.

Each call of `next_data` takes at most one frame from the stage before. A run is a list of such
deliveries, with the L1 origin at the time; beside it stands the list of the frames that the
assembler accepted since the last frame with number 0.
-/

namespace NodeReth.Derive

open NodeReth.Derive.Channel Effects List Words

structure ChannelAssembler where
  channel : Option Channel

namespace ChannelAssembler

def new : ChannelAssembler := ⟨none⟩

def isTimedOut (cfg : RollupConfig) (origin : BlockInfo) (s : ChannelAssembler) : Bool :=
  match s.channel with
  | some c => c.timedOut cfg origin
  | none => false

/-- Discards the channel if it has timed out. -/
def expire (cfg : RollupConfig) (origin : BlockInfo) (s : ChannelAssembler) : ChannelAssembler :=
  if s.isTimedOut cfg origin then ⟨none⟩ else s

/-- Starts a new channel at a frame with number 0. -/
def restart (origin : BlockInfo) (frame : Frame) (s : ChannelAssembler) : ChannelAssembler :=
  if frame.number = 0 then ⟨some (.new frame.id origin)⟩ else s

/-- The part of `next_data` behind the arrival of a frame. -/
def takeFrame (cfg : RollupConfig) (origin : BlockInfo) (frame : Frame) :
    EStateM Failure ChannelAssembler (Option Bytes) := fun s =>
  match s.channel with
  | none => .error (.temporary .notEnoughData) s
  | some channel =>
    if frame.number.toNat ≠ channel.len then .error (.temporary .notEnoughData) s
    else
      match addFrame frame origin channel with
      | .error _ channel => .error (.temporary .notEnoughData) ⟨some channel⟩
      | .ok _ channel =>
        -- a channel that has become too large is dropped
        if channel.size > cfg.maxRlpBytesPerChannel origin.timestamp then
          .error (.temporary .notEnoughData) ⟨none⟩
        else if channel.isReady then
          match channel.frameData with
          | none => .error (.critical .channelNotFound) ⟨some channel⟩
          | some data => .ok (some data) ⟨none⟩
        else .error (.temporary .notEnoughData) ⟨some channel⟩

/-- `nextFrame` is the answer of the stage before. -/
def nextData (cfg : RollupConfig) (origin : Option BlockInfo) (nextFrame : Except Failure Frame) :
    EStateM Failure ChannelAssembler (Option Bytes) := fun s =>
  match origin with
  | none => .error (.critical .missingOrigin) s
  | some origin =>
    let s := s.expire cfg origin
    match nextFrame with
    | .error e => .error e s
    | .ok frame => takeFrame cfg origin frame (s.restart origin frame)

/-! ## Runs -/

/-- The origin at a call and the answer of the stage before. -/
abbrev Delivery := BlockInfo × Except Failure Frame

/-- The frame is added to the present channel. -/
def takes (origin : BlockInfo) (frame : Frame) (s : ChannelAssembler) : Bool :=
  match s.channel with
  | none => false
  | some channel =>
    if frame.number.toNat ≠ channel.len then false
    else
      match addFrame frame origin channel with
      | .error _ _ => false
      | .ok _ _ => true

/-- The frame is added to a channel when it is delivered. -/
def accepts (cfg : RollupConfig) (origin : BlockInfo) (frame : Frame) (s : ChannelAssembler) : Bool :=
  takes origin frame ((s.expire cfg origin).restart origin frame)

/-- The assembler and the frames it accepted since the last frame with number 0, each with the
origin at which it came. -/
structure Observed where
  assembler : ChannelAssembler
  accepted : List (Frame × BlockInfo)

def observe (cfg : RollupConfig) (o : Observed) (d : Delivery) : Observed where
  assembler := finalState (nextData cfg (some d.1) d.2 o.assembler)
  accepted :=
    match d.2 with
    | .error _ => o.accepted
    | .ok frame =>
      let before := if frame.number = 0 then [] else o.accepted
      if o.assembler.accepts cfg d.1 frame then before ++ [(frame, d.1)] else before

def observeAll (cfg : RollupConfig) (ds : List Delivery) : Observed :=
  ds.foldl (observe cfg) ⟨new, []⟩

/-- The frames delivered since the last frame with number 0. -/
def delivered (ds : List Delivery) : List (Frame × BlockInfo) :=
  ds.foldl (fun before d =>
    match d.2 with
    | .error _ => before
    | .ok frame => if frame.number = 0 then [(frame, d.1)] else before ++ [(frame, d.1)]) []

/-! ## One channel -/

section Frames

variable {cfg : RollupConfig} {origin : BlockInfo} {frame : Frame} {c : Channel}
  {h : List (Frame × BlockInfo)}

/-- The channel holds these frames: in order from number 0, all in time for the origin of the first
one, and never too large. -/
structure Holds (cfg : RollupConfig) (c : Channel) (h : List (Frame × BlockInfo)) : Prop where
  sound : c.Sound
  numbers : h.map (fun x => x.1.number.toNat) = range h.length
  stored : ∀ x ∈ h, c.inputs.lookup x.1.number = some x.1
  below : ∀ k ∈ c.inputs, k.toNat < h.length
  len : c.len = h.length
  size : c.size = (h.map fun x => x.1.size).sum
  opened : ∀ x ∈ h.head?, x.2 = c.openBlock
  inWindow : ∀ x ∈ h, x.2.number ≤ c.openBlock.number + cfg.channelTimeoutAt x.2.timestamp
  fits : ∀ before x after, h = before ++ x :: after →
    ((before ++ [x]).map fun y => y.1.size).sum ≤ cfg.maxRlpBytesPerChannel x.2.timestamp

theorem holds_new (cfg : RollupConfig) (id : ChannelId) (origin : BlockInfo) :
    Holds cfg (.new id origin) [] where
  sound := sound_new id origin
  numbers := rfl
  stored := nofun
  below := nofun
  len := rfl
  size := rfl
  opened := nofun
  inWindow := nofun
  fits := by
    intro before x after heq
    cases before <;> cases heq

theorem Holds.accept (hc : Holds cfg c h) (ha : c.Accepts frame)
    (hnumber : frame.number.toNat = c.len) (hopened : frame.number = 0 → c.openBlock = origin)
    (hwindow : origin.number ≤ c.openBlock.number + cfg.channelTimeoutAt origin.timestamp)
    (hfits : (c.accept frame origin).size ≤ cfg.maxRlpBytesPerChannel origin.timestamp) :
    Holds cfg (c.accept frame origin) (h ++ [(frame, origin)]) := by
  have hlen : frame.number.toNat = h.length := hnumber.trans hc.len
  have hinputs : (c.accept frame origin).inputs = c.inputs.insert frame.number frame := by
    apply inputs_accept_of_lt
    intro k hk
    rw [hlen]
    exact hc.below k hk
  have hsound := hc.sound.accept ha origin
  have hsize : (c.accept frame origin).size = ((h ++ [(frame, origin)]).map fun x => x.1.size).sum := by
    rw [map_append, sum_append, ← hc.size]
    show (c.accept frame origin).estimatedSize = c.estimatedSize + _
    rw [hsound.size, framesSize, hinputs, FinMap.total_insert _ ha.fresh, hc.sound.size]
    exact Nat.add_comm _ _
  refine ⟨hsound, ?_, ?_, ?_, ?_, hsize, ?_, ?_, ?_⟩
  · rw [map_append, hc.numbers, length_append, length_singleton, range_succ, ← hlen]
    rfl
  · intro x hx
    rw [hinputs, FinMap.lookup_insert_eq]
    rcases mem_append.mp hx with hx | hx
    · have hx' := hc.stored x hx
      rw [if_neg, hx']
      intro heq
      rw [heq] at hx'
      exact ha.fresh (FinMap.mem_iff_lookup.mpr ⟨_, hx'⟩)
    · obtain rfl := mem_singleton.mp hx
      rw [if_pos rfl]
  · intro k hk
    rw [hinputs, AList.mem_insert] at hk
    rw [length_append, length_singleton]
    rcases hk with rfl | hk
    · omega
    · have := hc.below k hk
      omega
  · unfold Channel.len
    rw [hinputs, FinMap.size, AList.entries_insert_of_notMem ha.fresh, length_append,
      length_singleton, ← hc.len]
    rfl
  · intro x hx
    rw [openBlock_accept]
    cases h with
    | nil =>
      obtain rfl := Option.some.inj hx
      exact (hopened (UInt16.toNat_inj.mp hlen)).symm
    | cons y h => exact hc.opened x hx
  · intro x hx
    rw [openBlock_accept]
    rcases mem_append.mp hx with hx | hx
    · exact hc.inWindow x hx
    · obtain rfl := mem_singleton.mp hx
      exact hwindow
  · intro before x after heq
    rcases eq_nil_or_concat after with rfl | ⟨after, last, rfl⟩
    · -- the new frame is the last one
      obtain ⟨rfl, hx⟩ := append_inj' heq rfl
      obtain rfl := (cons.inj hx).1
      rwa [← hsize]
    · rw [concat_eq_append, ← cons_append, ← append_assoc] at heq
      exact hc.fits before x after (append_inj' heq rfl).1

/-- What the assembler hands on, given the frames that it accepted since the last number 0. -/
structure IsChannel (cfg : RollupConfig) (frames : List (Frame × BlockInfo)) (bytes : Bytes) :
    Prop where
  /-- One id, frames up to a last number in order, and only the last one closes. -/
  inOrder : ∃ id n, frames.map (fun x => x.1.number) = numbersTo n ∧
    ∀ x ∈ frames, x.1.id = id ∧ (x.1.isLast = true ↔ x.1.number = n)
  inWindow : ∀ first ∈ frames.head?, ∀ x ∈ frames,
    x.2.number ≤ first.2.number + cfg.channelTimeoutAt x.2.timestamp
  fits : ∀ before x after, frames = before ++ x :: after →
    ((before ++ [x]).map fun y => y.1.size).sum ≤ cfg.maxRlpBytesPerChannel x.2.timestamp
  data : bytes = frames.flatMap fun x => x.1.data

theorem Holds.isChannel (hc : Holds cfg c h) (hready : c.isReady = true) {bytes : Bytes}
    (hdata : c.frameData = some bytes) : IsChannel cfg h bytes := by
  obtain ⟨hcomplete, -⟩ := (isReady_iff hc.sound).mp hready
  have hlen : h.length = c.lastFrameNumber.toNat + 1 := by
    rw [← hcomplete.size_eq]
    exact hc.len.symm
  have hnumbers : h.map (fun x => x.1.number) = numbersTo c.lastFrameNumber := by
    unfold numbersTo
    rw [← hlen, ← hc.numbers, map_map]
    apply map_congr_left
    intro x _
    exact UInt16.ofNat_toNat.symm
  refine ⟨⟨c.id, c.lastFrameNumber, hnumbers, fun x hx => ?_⟩, fun first hfirst x hx => ?_, hc.fits, ?_⟩
  · have hx' := hc.stored x hx
    refine ⟨(hc.sound.filed _ _ hx').2, (hc.sound.closing _ _ hx').trans ?_⟩
    exact ⟨fun hlast => hlast.2, fun hlast => ⟨hcomplete.1, hlast⟩⟩
  · rw [hc.opened first hfirst]
    exact hc.inWindow x hx
  · have hframes := @frameData_eq c (h.map Prod.fst)
      (by rw [map_map]; exact hnumbers) (fun f hf => ?_) (by rw [hcomplete.size_eq]; omega)
    · rw [hdata, flatMap_map] at hframes
      exact Option.some.inj hframes
    · obtain ⟨x, hx, rfl⟩ := mem_map.mp hf
      exact hc.stored x hx

end Frames

/-! ## A delivery -/

section Deliveries

variable {cfg : RollupConfig} {origin : BlockInfo} {frame : Frame} {s : ChannelAssembler}

/-- A frame is dropped and the assembler stays as it is, or it is added to the channel. In that case
the channel is dropped for its size, handed on, or kept. -/
theorem takeFrame_cases (hsound : ∀ c, s.channel = some c → c.Sound) :
    (takes origin frame s = false ∧
      takeFrame cfg origin frame s = .error (.temporary .notEnoughData) s) ∨
    ∃ c, s.channel = some c ∧ frame.number.toNat = c.len ∧ c.Accepts frame ∧
      takes origin frame s = true ∧
      (takeFrame cfg origin frame s = .error (.temporary .notEnoughData) ⟨none⟩ ∨
        (c.accept frame origin).size ≤ cfg.maxRlpBytesPerChannel origin.timestamp ∧
          (((c.accept frame origin).isReady = true ∧
              ∃ data, (c.accept frame origin).frameData = some data ∧
                takeFrame cfg origin frame s = .ok (some data) ⟨none⟩) ∨
            takeFrame cfg origin frame s =
              .error (.temporary .notEnoughData) ⟨some (c.accept frame origin)⟩)) := by
  unfold takes takeFrame
  cases hchannel : s.channel with
  | none => exact .inl ⟨rfl, rfl⟩
  | some c =>
    dsimp only
    by_cases hnumber : frame.number.toNat ≠ c.len
    · rw [if_pos hnumber, if_pos hnumber]
      exact .inl ⟨rfl, rfl⟩
    · rw [if_neg hnumber, if_neg hnumber]
      cases hadd : addFrame frame origin c with
      | error e c' =>
        -- a refused frame leaves the channel as it is
        obtain rfl := atomic_addFrame frame origin _ _ _ hadd
        refine .inl ⟨rfl, ?_⟩
        dsimp only
        rw [← hchannel]
      | ok u c' =>
        obtain ⟨haccepts, rfl⟩ := addFrame_ok_iff.mp hadd
        refine .inr ⟨c, rfl, not_not.mp hnumber, haccepts, rfl, ?_⟩
        dsimp only
        by_cases hsize : (c.accept frame origin).size > cfg.maxRlpBytesPerChannel origin.timestamp
        · rw [if_pos hsize]
          exact .inl rfl
        · rw [if_neg hsize]
          refine .inr ⟨not_lt.mp hsize, ?_⟩
          cases hready : (c.accept frame origin).isReady with
          | false => exact .inr rfl
          | true =>
            obtain ⟨data, hdata⟩ := frameData_of_isReady
              ((hsound c hchannel).accept haccepts origin) hready
            simp [hdata]

/-- Once late channels are gone and a new one is started, the present channel is in time, and it was
opened now if the frame has number 0. -/
theorem restart_expire_cases {h : List (Frame × BlockInfo)}
    (hs : ∀ c, s.channel = some c → Holds cfg c h) {c : Channel}
    (hc : ((s.expire cfg origin).restart origin frame).channel = some c) :
    Holds cfg c (if frame.number = 0 then [] else h) ∧ (frame.number = 0 → c.openBlock = origin) ∧
      origin.number ≤ c.openBlock.number + cfg.channelTimeoutAt origin.timestamp := by
  unfold restart at hc
  by_cases hzero : frame.number = 0
  · rw [if_pos hzero] at hc ⊢
    obtain rfl := Option.some.inj hc
    exact ⟨holds_new cfg _ _, fun _ => rfl, Nat.le_add_right _ _⟩
  · rw [if_neg hzero] at hc ⊢
    unfold expire isTimedOut at hc
    split_ifs at hc with htimed
    refine ⟨hs c hc, fun h0 => absurd h0 hzero, ?_⟩
    rw [hc] at htimed
    have hin : ¬wrapAdd c.openBlock.number (cfg.channelTimeoutAt origin.timestamp) < origin.number :=
      fun hlt => htimed (decide_eq_true hlt)
    exact (not_lt.mp hin).trans (Nat.mod_le _ _)

/-- The assembler's channel, if there is one, holds the accepted frames. -/
def Observed.Inv (cfg : RollupConfig) (o : Observed) : Prop :=
  ∀ c, o.assembler.channel = some c → Holds cfg c o.accepted

/-- What a call leaves, and what it returns. -/
theorem Observed.Inv.observe {o : Observed} (ho : o.Inv cfg) (d : Delivery) :
    (observe cfg o d).Inv cfg ∧
      ∀ bytes s', nextData cfg (some d.1) d.2 o.assembler = .ok (some bytes) s' →
        s'.channel = none ∧ IsChannel cfg (ChannelAssembler.observe cfg o d).accepted bytes := by
  obtain ⟨origin, answer⟩ := d
  cases answer with
  | error e =>
    constructor
    · intro c hc
      change (o.assembler.expire cfg origin).channel = some c at hc
      unfold expire at hc
      split_ifs at hc
      exact ho c hc
    · intro bytes s' hok
      cases hok
  | ok frame =>
    have hmid := fun c => @restart_expire_cases cfg origin frame o.assembler o.accepted ho c
    have hnext : nextData cfg (some origin) (.ok frame) o.assembler =
      takeFrame cfg origin frame ((o.assembler.expire cfg origin).restart origin frame) := rfl
    have haccepts : o.assembler.accepts cfg origin frame =
      takes origin frame ((o.assembler.expire cfg origin).restart origin frame) := rfl
    unfold Observed.Inv ChannelAssembler.observe
    dsimp only
    rw [hnext, haccepts]
    generalize (o.assembler.expire cfg origin).restart origin frame = mid at *
    rcases @takeFrame_cases cfg origin frame mid fun c hc => (hmid c hc).1.sound with
      ⟨hdrop, hresult⟩ | ⟨c, hc, hnumber, ha, htakes, hresult⟩
    · rw [hdrop, hresult]
      refine ⟨fun c hc => ?_, fun bytes s' hok => (by cases hok)⟩
      exact (hmid c hc).1
    · obtain ⟨hholds, hopened, hwindow⟩ := hmid c hc
      rw [htakes]
      rcases hresult with hresult | ⟨hfits, ⟨hready, data, hdata, hresult⟩ | hresult⟩
      · rw [hresult]
        exact ⟨nofun, fun bytes s' hok => (by cases hok)⟩
      · rw [hresult]
        refine ⟨nofun, fun bytes s' hok => ?_⟩
        cases hok
        exact ⟨rfl, (hholds.accept ha hnumber hopened hwindow hfits).isChannel hready hdata⟩
      · rw [hresult]
        refine ⟨fun c' hc' => ?_, fun bytes s' hok => (by cases hok)⟩
        obtain rfl := Option.some.inj hc'
        exact hholds.accept ha hnumber hopened hwindow hfits

theorem inv_observeAll (cfg : RollupConfig) (ds : List Delivery) : (observeAll cfg ds).Inv cfg := by
  have hrun : ∀ o : Observed, o.Inv cfg → (ds.foldl (observe cfg) o).Inv cfg := by
    induction ds with
    | nil => exact fun o ho => ho
    | cons d ds ih => exact fun o ho => ih _ (ho.observe d).1
  apply hrun
  intro c hc
  cases hc

theorem accepted_sublist_delivered (cfg : RollupConfig) (ds : List Delivery) :
    (observeAll cfg ds).accepted.Sublist (delivered ds) := by
  have hrun : ∀ (o : Observed) (before : List (Frame × BlockInfo)), o.accepted.Sublist before →
      (ds.foldl (observe cfg) o).accepted.Sublist (ds.foldl (fun before d =>
        match d.2 with
        | .error _ => before
        | .ok frame => if frame.number = 0 then [(frame, d.1)] else before ++ [(frame, d.1)])
        before) := by
    induction ds with
    | nil => exact fun o before h => h
    | cons d ds ih =>
      intro o before h
      apply ih
      obtain ⟨-, answer⟩ := d
      cases answer with
      | error e => exact h
      | ok frame =>
        unfold ChannelAssembler.observe
        dsimp only
        by_cases hzero : frame.number = 0
        · split_ifs
          · exact List.Sublist.refl _
          · exact nil_sublist _
        · split_ifs
          · exact h.append (List.Sublist.refl _)
          · exact h.trans (sublist_append_left _ _)
  exact hrun _ _ (List.Sublist.refl _)

end Deliveries

/-- Whenever a call returns data, after any deliveries: the assembler is left without a channel, and
the data is that of one channel, whose frames are the ones accepted since the last delivered frame
with number 0. -/
theorem assembles_one_channel (cfg : RollupConfig) (ds : List Delivery) (d : Delivery)
    (bytes : Bytes) (s' : ChannelAssembler)
    (hok : nextData cfg (some d.1) d.2 (observeAll cfg ds).assembler = .ok (some bytes) s') :
    s'.channel = none ∧ (observeAll cfg (ds ++ [d])).accepted.Sublist (delivered (ds ++ [d])) ∧
      IsChannel cfg (observeAll cfg (ds ++ [d])).accepted bytes := by
  have hstep : observeAll cfg (ds ++ [d]) = observe cfg (observeAll cfg ds) d := by
    unfold observeAll
    rw [foldl_append]
    rfl
  obtain ⟨hnone, hchannel⟩ := ((inv_observeAll cfg ds).observe d).2 bytes s' hok
  refine ⟨hnone, accepted_sublist_delivered cfg _, ?_⟩
  rwa [hstep]

/-- Two frames of a channel with a stray frame between them. -/
def sampleDeliveries : List Delivery :=
  let origin : BlockInfo := { BlockInfo.zero with number := 5, timestamp := 60 }
  [(origin, .ok ⟨FixedBytes.zero 16, 0, [1, 2], false⟩),
    (origin, .ok ⟨⟨replicate 16 1, rfl⟩, 1, [9], false⟩)]

theorem assembles_one_channel_sample :
    let d : Delivery := ({ BlockInfo.zero with number := 6, timestamp := 72 },
      .ok ⟨FixedBytes.zero 16, 1, [3], true⟩)
    (observeAll sampleConfig (sampleDeliveries ++ [d])).accepted.Sublist
        (delivered (sampleDeliveries ++ [d])) ∧
      IsChannel sampleConfig (observeAll sampleConfig (sampleDeliveries ++ [d])).accepted
        [1, 2, 3] := by
  intro d
  have hok : nextData sampleConfig (some d.1) d.2 (observeAll sampleConfig sampleDeliveries).assembler =
      .ok (some [1, 2, 3]) ⟨none⟩ := by
    rfl
  exact (assembles_one_channel sampleConfig sampleDeliveries d [1, 2, 3] ⟨none⟩ hok).2

end ChannelAssembler

end NodeReth.Derive
