import NodeReth.Derive.Pipeline

/-!
# The channel bank

`ChannelBank` of `derive/src/stages/channel/channel_bank.rs`, the stage in front of the channel
reader up to Holocene. It keeps channels by id and a queue of their ids in the order in which they
were opened. Frames go to their channel, whatever channel that is; when the bank is too large,
channels are thrown out from the front; and a read takes the first channel that is ready.

The map and the queue are written in different places. That they always hold the same ids is what
keeps ordinary L1 data from ending the pipeline with a critical error.
-/

namespace NodeReth.Derive

open AList Effects FinMap List

structure ChannelBank where
  channels : FinMap ChannelId Channel
  channelQueue : List ChannelId

namespace ChannelBank

def maxChannelBankSize : ℕ := 100000000

def fjordMaxChannelBankSize : ℕ := 1000000000

def new : ChannelBank := ⟨∅, []⟩

def sizeOf (channels : FinMap ChannelId Channel) : ℕ := channels.total fun _ c => c.size

def size (bank : ChannelBank) : ℕ := sizeOf bank.channels

/-- The size that pruning goes down to. -/
def limit (cfg : RollupConfig) (timestamp : ℕ) : ℕ :=
  if cfg.isFjordActive timestamp then fjordMaxChannelBankSize else maxChannelBankSize

/-- The loop of `prune`: channels leave at the front while the total is above the limit. -/
def pruneLoop (max : ℕ) (queue : List ChannelId) (channels : FinMap ChannelId Channel)
    (totalSize : ℕ) : EStateM.Result Failure ChannelBank Unit :=
  if totalSize ≤ max then .ok () ⟨channels, queue⟩
  else
    match queue with
    | [] => .error (.critical .channelProviderEmpty) ⟨channels, []⟩
    | id :: rest =>
      match channels.lookup id with
      | none => .error (.critical .channelNotFound) ⟨channels, rest⟩
      | some channel => pruneLoop max rest (channels.erase id) (totalSize - channel.size)

variable (cfg : RollupConfig) (origin : Option BlockInfo)

def prune : EStateM Failure ChannelBank Unit := fun bank =>
  match origin with
  | none => .error (.critical .missingOrigin) bank
  | some origin =>
    pruneLoop (limit cfg origin.timestamp) bank.channelQueue bank.channels bank.size

/-- Makes sure that there is a channel for an id. -/
def openChannel (bank : ChannelBank) (id : ChannelId) (origin : BlockInfo) : ChannelBank :=
  match bank.channels.lookup id with
  | some _ => bank
  | none => ⟨bank.channels.insert id (.new id origin), bank.channelQueue ++ [id]⟩

def currentChannel (bank : ChannelBank) (id : ChannelId) (origin : BlockInfo) : Channel :=
  (bank.channels.lookup id).getD (.new id origin)

def setChannel (bank : ChannelBank) (id : ChannelId) (channel : Channel) : ChannelBank :=
  { bank with channels := bank.channels.insert id channel }

def ingestFrame (frame : Frame) : EStateM Failure ChannelBank Unit := fun bank =>
  match origin with
  | none => .error (.critical .missingOrigin) bank
  | some origin =>
    let channel := bank.currentChannel frame.id origin
    let bank := bank.openChannel frame.id origin
    -- a frame that comes too late is ignored, but its channel is open now
    if channel.timedOut cfg origin then .ok () bank
    else
      match Channel.addFrame frame origin channel with
      | .error _ channel => .ok () (bank.setChannel frame.id channel)
      | .ok _ channel => prune cfg (some origin) (bank.setChannel frame.id channel)

def tryReadChannelAtIndex (index : ℕ) : EStateM Failure ChannelBank Bytes := fun bank =>
  match bank.channelQueue[index]? with
  | none => .error .indexOutOfRange bank
  | some channelId =>
    match bank.channels.lookup channelId with
    | none => .error (.critical .channelProviderEmpty) bank
    | some channel =>
      match origin with
      | none => .error (.critical .missingOrigin) bank
      | some origin =>
        if channel.timedOut cfg origin || !channel.isReady then .error (.temporary .eof) bank
        else
          let frameData := channel.frameData
          let bank := ⟨bank.channels.erase channelId, bank.channelQueue.eraseIdx index⟩
          match frameData with
          | none => .error (.critical .channelProviderEmpty) bank
          | some data => .ok data bank

/-- Tries the indices in turn until a channel is read; errors on the way are dropped. -/
def readFirst : List ℕ → EStateM Failure ChannelBank (Option Bytes)
  | [], bank => .error (.temporary .eof) bank
  | index :: indices, bank =>
    match tryReadChannelAtIndex cfg origin index bank with
    | .ok data bank => .ok (some data) bank
    | .error _ bank => readFirst indices bank

def read : EStateM Failure ChannelBank (Option Bytes) := fun bank =>
  match bank.channelQueue with
  | [] => .error (.temporary .eof) bank
  | first :: rest =>
    match bank.channels.lookup first with
    | none => .error (.critical .channelProviderEmpty) bank
    | some channel =>
      match origin with
      | none => .error (.critical .channelProviderEmpty) bank
      | some o =>
        if channel.timedOut cfg o then .ok none ⟨bank.channels.erase first, rest⟩
        -- before Canyon only the first channel may be read
        else if !cfg.isCanyonActive o.timestamp then
          match tryReadChannelAtIndex cfg origin 0 bank with
          | .ok data bank => .ok (some data) bank
          | .error e bank => .error e bank
        else readFirst cfg origin (range bank.channelQueue.length) bank

/-! ## Pruning -/

/-- The queue lists the ids of the channels, each once, and every channel is kept under its id. -/
structure Booked (bank : ChannelBank) : Prop where
  nodup : bank.channelQueue.Nodup
  keys : ∀ id, id ∈ bank.channelQueue ↔ id ∈ bank.channels
  sound : ∀ id c, bank.channels.lookup id = some c → c.Sound ∧ c.id = id

/-- Channels have left at the front of the queue, and nothing else has changed. -/
def PrunedTo (bank bank' : ChannelBank) : Prop :=
  (∃ k, bank'.channelQueue = bank.channelQueue.drop k) ∧
    ∀ id, bank'.channels.lookup id = if id ∈ bank'.channelQueue then bank.channels.lookup id else none

/-- Channels have left, and those that are still listed are as they were. -/
def Retains (bank bank' : ChannelBank) : Prop :=
  bank'.channelQueue.Sublist bank.channelQueue ∧
    ∀ id, bank'.channels.lookup id = if id ∈ bank'.channelQueue then bank.channels.lookup id else none

section Bookkeeping

variable {cfg} {bank bank' : ChannelBank} {at' : BlockInfo} {id : ChannelId}
  {channels : FinMap ChannelId Channel}

theorem Booked.lookup (h : bank.Booked) (hid : id ∈ bank.channelQueue) :
    ∃ c, bank.channels.lookup id = some c := mem_iff_lookup.mp ((h.keys id).mp hid)

theorem sizeOf_eq_zero (h : ∀ id, id ∉ channels) : sizeOf channels = 0 := by
  unfold sizeOf
  rw [total_eq_sum _ (S := ∅) fun k hk => absurd hk (h k)]
  rfl

theorem PrunedTo.refl (hkeys : ∀ id, id ∈ bank.channelQueue ↔ id ∈ bank.channels) :
    PrunedTo bank bank := by
  refine ⟨⟨0, rfl⟩, fun id => ?_⟩
  split_ifs with hid
  · rfl
  · exact lookup_eq_none.mpr fun hmem => hid ((hkeys id).mpr hmem)

theorem pruneLoop_of_le {max : ℕ} {queue : List ChannelId}
    (hkeys : ∀ id, id ∈ queue ↔ id ∈ channels) (hle : sizeOf channels ≤ max) :
    ∃ bank', pruneLoop max queue channels (sizeOf channels) = .ok () bank' ∧ bank'.size ≤ max ∧
      PrunedTo ⟨channels, queue⟩ bank' := by
  refine ⟨⟨channels, queue⟩, ?_, hle, PrunedTo.refl hkeys⟩
  rw [pruneLoop.eq_def, if_pos hle]

theorem pruneLoop_ok {max : ℕ} {queue : List ChannelId} (hnodup : queue.Nodup)
    (hkeys : ∀ id, id ∈ queue ↔ id ∈ channels) :
    ∃ bank', pruneLoop max queue channels (sizeOf channels) = .ok () bank' ∧ bank'.size ≤ max ∧
      PrunedTo ⟨channels, queue⟩ bank' := by
  induction queue generalizing channels with
  | nil =>
    apply pruneLoop_of_le hkeys
    rw [sizeOf_eq_zero fun id hid => not_mem_nil ((hkeys id).mpr hid)]
    exact Nat.zero_le max
  | cons first rest ih =>
    by_cases hle : sizeOf channels ≤ max
    · exact pruneLoop_of_le hkeys hle
    · obtain ⟨hnotMem, hrest⟩ := nodup_cons.mp hnodup
      obtain ⟨c, hc⟩ := mem_iff_lookup.mp ((hkeys first).mp mem_cons_self)
      have hkeys' : ∀ id, id ∈ rest ↔ id ∈ channels.erase first := by
        intro id
        rw [mem_erase, ← hkeys id, mem_cons]
        constructor
        · intro hid
          exact ⟨fun heq => hnotMem (heq ▸ hid), .inr hid⟩
        · rintro ⟨hne, rfl | hid⟩
          · exact absurd rfl hne
          · exact hid
      have hsize : sizeOf channels - c.size = sizeOf (channels.erase first) := by
        have := total_erase (fun _ c => Channel.size c) hc
        unfold sizeOf
        omega
      obtain ⟨bank', hok, hmax, ⟨k, hk⟩, hlookup⟩ := ih hrest hkeys'
      refine ⟨bank', ?_, hmax, ⟨k + 1, hk⟩, fun id => ?_⟩
      · rw [pruneLoop, if_neg hle]
        simp only [hc]
        rwa [hsize]
      · rw [hlookup]
        split_ifs with hid
        · rw [hk] at hid
          have hmem := mem_of_mem_drop hid
          exact lookup_erase_ne fun heq => hnotMem (heq ▸ hmem)
        · rfl

theorem PrunedTo.retains (h : PrunedTo bank bank') : Retains bank bank' := by
  obtain ⟨⟨k, hk⟩, hlookup⟩ := h
  exact ⟨hk ▸ drop_sublist k _, hlookup⟩

theorem Booked.retains (h : bank.Booked) (hretains : Retains bank bank') : bank'.Booked := by
  obtain ⟨hsub, hlookup⟩ := hretains
  refine ⟨h.nodup.sublist hsub, fun id => ?_, fun id c hc => ?_⟩
  · rw [← lookup_isSome, hlookup]
    split_ifs with hid
    · obtain ⟨c, hc⟩ := h.lookup (hsub.subset hid)
      rw [hc]
      exact iff_of_true hid rfl
    · exact iff_of_false hid Bool.false_ne_true
  · rw [hlookup] at hc
    split_ifs at hc
    exact h.sound id c hc

theorem prune_ok (h : bank.Booked) :
    ∃ bank', prune cfg (some at') bank = .ok () bank' ∧ bank'.size ≤ limit cfg at'.timestamp ∧
      PrunedTo bank bank' :=
  pruneLoop_ok h.nodup h.keys

/-! ## Ingesting -/

theorem lookup_openChannel (id j : ChannelId) :
    (bank.openChannel id at').channels.lookup j =
      if j = id then some (bank.currentChannel id at') else bank.channels.lookup j := by
  unfold openChannel currentChannel
  cases hid : bank.channels.lookup id with
  | some c =>
    split_ifs with hj
    · rw [hj, hid]
      rfl
    · rfl
  | none => exact lookup_insert_eq _ _ _ _

theorem size_openChannel (bank : ChannelBank) (at' : BlockInfo) (id : ChannelId) :
    (bank.openChannel id at').size = bank.size := by
  unfold openChannel
  cases hid : bank.channels.lookup id with
  | some c => rfl
  | none =>
    unfold size sizeOf
    rw [total_insert _ (lookup_eq_none.mp hid)]
    exact Nat.zero_add _

theorem Booked.openChannel (h : bank.Booked) (at' : BlockInfo) (id : ChannelId) :
    (bank.openChannel id at').Booked := by
  unfold ChannelBank.openChannel
  cases hid : bank.channels.lookup id with
  | some c => exact h
  | none =>
    have hnew : id ∉ bank.channelQueue := fun hmem => lookup_eq_none.mp hid ((h.keys id).mp hmem)
    refine ⟨h.nodup.append (nodup_singleton id) (by simpa using hnew), fun j => ?_, fun j c hc => ?_⟩
    · rw [mem_append, mem_singleton, h.keys, mem_insert, or_comm]
    · rw [lookup_insert_eq] at hc
      split_ifs at hc with hj
      · cases hc
        exact ⟨Channel.sound_new id at', hj.symm⟩
      · exact h.sound j c hc

theorem Booked.setChannel (h : bank.Booked) (hid : id ∈ bank.channelQueue) {c : Channel}
    (hc : c.Sound) (hcid : c.id = id) : (bank.setChannel id c).Booked := by
  refine ⟨h.nodup, fun j => ?_, fun j d hd => ?_⟩
  · show j ∈ bank.channelQueue ↔ j ∈ bank.channels.insert id c
    rw [mem_insert, ← h.keys j, or_iff_right_of_imp]
    rintro rfl
    exact hid
  · unfold ChannelBank.setChannel at hd
    rw [lookup_insert_eq] at hd
    split_ifs at hd with hj
    · cases hd
      exact ⟨hc, hcid.trans hj.symm⟩
    · exact h.sound j d hd

/-- What becomes of the channel that a frame goes to. -/
def fed (cfg : RollupConfig) (at' : BlockInfo) (bank : ChannelBank) (frame : Frame) : Channel :=
  let channel := bank.currentChannel frame.id at'
  if channel.timedOut cfg at' then channel else channel.afterFrame (frame, at')

/-- What ingesting a frame does to a bank: a channel that is new goes to the back, the frame goes to
its channel, and then channels leave at the front. -/
def IngestedTo (cfg : RollupConfig) (at' : BlockInfo) (frame : Frame) (bank bank' : ChannelBank) :
    Prop :=
  (∃ k, bank'.channelQueue = (bank.openChannel frame.id at').channelQueue.drop k) ∧
    ∀ id, bank'.channels.lookup id =
      if id ∈ bank'.channelQueue then
        if id = frame.id then some (fed cfg at' bank frame) else bank.channels.lookup id
      else none

theorem IngestedTo.of_prunedTo {mid : ChannelBank} {frame : Frame} (hpruned : PrunedTo mid bank')
    (hqueue : mid.channelQueue = (bank.openChannel frame.id at').channelQueue)
    (hmid : ∀ id, mid.channels.lookup id =
      if id = frame.id then some (fed cfg at' bank frame) else bank.channels.lookup id) :
    IngestedTo cfg at' frame bank bank' := by
  obtain ⟨⟨k, hk⟩, hlookup⟩ := hpruned
  refine ⟨⟨k, by rw [hk, hqueue]⟩, fun id => ?_⟩
  rw [hlookup id, hmid id]

section

variable (h : bank.Booked)

include h

theorem ingestFrame_ok (hsize : bank.size ≤ limit cfg at'.timestamp) (frame : Frame) :
    ∃ bank', ingestFrame cfg (some at') frame bank = .ok () bank' ∧
      bank'.size ≤ limit cfg at'.timestamp ∧ IngestedTo cfg at' frame bank bank' ∧
      bank'.Booked := by
  have hopened := h.openChannel at' frame.id
  have hmem : frame.id ∈ (bank.openChannel frame.id at').channelQueue := by
    rw [hopened.keys, ← lookup_isSome, lookup_openChannel, if_pos rfl]
    rfl
  obtain ⟨hsound, hid⟩ := hopened.sound frame.id _ (by rw [lookup_openChannel, if_pos rfl])
  have hset : ∀ c j, ((bank.openChannel frame.id at').setChannel frame.id c).channels.lookup j =
      if j = frame.id then some c else bank.channels.lookup j := by
    intro c j
    refine (lookup_insert_eq _ _ _ _).trans ?_
    split_ifs with hj
    · rfl
    · rw [lookup_openChannel, if_neg hj]
  unfold ingestFrame
  dsimp only
  by_cases htimed : (bank.currentChannel frame.id at').timedOut cfg at' = true
  · -- too late: the bank with the opened channel is the result
    rw [if_pos htimed]
    refine ⟨_, rfl, by rw [size_openChannel]; exact hsize, ?_, hopened⟩
    refine IngestedTo.of_prunedTo (PrunedTo.refl hopened.keys) rfl fun id => ?_
    rw [lookup_openChannel, fed, if_pos htimed]
  · rw [if_neg htimed]
    have hfed : fed cfg at' bank frame =
        (bank.currentChannel frame.id at').afterFrame (frame, at') := if_neg htimed
    cases hadd : Channel.addFrame frame at' (bank.currentChannel frame.id at') with
    | error e c =>
      have hsame := Channel.atomic_addFrame frame at' _ _ _ hadd
      subst hsame
      have hbooked := hopened.setChannel hmem hsound hid
      refine ⟨_, rfl, ?_, ?_, hbooked⟩
      · rw [← size_openChannel bank at' frame.id] at hsize
        apply le_trans (le_of_eq _) hsize
        unfold size
        apply total_congr
        intro j
        rw [hset, lookup_openChannel]
      · refine IngestedTo.of_prunedTo (PrunedTo.refl hbooked.keys) rfl fun id => ?_
        rw [hset, hfed, Channel.afterFrame, hadd]
        rfl
    | ok u c =>
      obtain ⟨haccepts, rfl⟩ := Channel.addFrame_ok_iff.mp hadd
      have hbooked := hopened.setChannel hmem (hsound.accept haccepts at')
        (Channel.id_accept.trans hid)
      obtain ⟨bank', hok, hmax, hpruned⟩ := @prune_ok cfg _ at' hbooked
      refine ⟨bank', hok, hmax, ?_, hbooked.retains hpruned.retains⟩
      refine IngestedTo.of_prunedTo hpruned rfl fun id => ?_
      rw [hset, hfed, Channel.afterFrame_of_accepts haccepts]

/-! ## Reading -/

theorem Booked.retains_erase {before after : List ChannelId}
    (hqueue : bank.channelQueue = before ++ id :: after) :
    Retains bank ⟨bank.channels.erase id, before ++ after⟩ := by
  have hnodup := h.nodup
  rw [hqueue, nodup_middle] at hnodup
  refine ⟨?_, fun j => ?_⟩
  · rw [hqueue]
    exact (List.Sublist.refl before).append (sublist_cons_self id after)
  · refine (lookup_erase_eq _ _ _).trans ?_
    split_ifs with hj hmem hmem
    · exact absurd (hj ▸ hmem) (nodup_cons.mp hnodup).1
    · rfl
    · rfl
    · refine lookup_eq_none.mpr fun hin => hmem ?_
      simpa [hqueue, hj] using (h.keys j).mpr hin

/-- The channel at an index is read if it is ready and in time; else nothing changes. -/
theorem tryReadChannelAtIndex_eq {index : ℕ} {c : Channel}
    (hid : bank.channelQueue[index]? = some id) (hc : bank.channels.lookup id = some c) :
    (c.readable cfg at' = false ∧
      tryReadChannelAtIndex cfg (some at') index bank = .error (.temporary .eof) bank) ∨
    (c.readable cfg at' = true ∧ ∃ data, c.frameData = some data ∧
      tryReadChannelAtIndex cfg (some at') index bank =
        .ok data ⟨bank.channels.erase id, bank.channelQueue.eraseIdx index⟩) := by
  unfold tryReadChannelAtIndex Channel.readable
  simp only [hid, hc]
  cases htimed : c.timedOut cfg at' with
  | true => exact .inl ⟨rfl, rfl⟩
  | false =>
    cases hready : c.isReady with
    | false => exact .inl ⟨rfl, rfl⟩
    | true =>
      obtain ⟨data, hdata⟩ := Channel.frameData_of_isReady (h.sound id c hc).1 hready
      refine .inr ⟨rfl, data, hdata, ?_⟩
      simp only [hdata]
      rfl

end

/-- The channel of an id is ready and in time. -/
def Readable (cfg : RollupConfig) (at' : BlockInfo) (bank : ChannelBank) (id : ChannelId) : Prop :=
  ∃ c, bank.channels.lookup id = some c ∧ c.readable cfg at' = true

theorem not_readable {c : Channel} (hc : bank.channels.lookup id = some c)
    (hnot : c.readable cfg at' = false) : ¬bank.Readable cfg at' id := by
  rintro ⟨d, hd, hreadable⟩
  rw [Option.some.inj (hc.symm.trans hd), hreadable] at hnot
  cases hnot

def FrontTimedOut (cfg : RollupConfig) (at' : BlockInfo) (bank : ChannelBank) : Prop :=
  ∃ first rest c, bank.channelQueue = first :: rest ∧ bank.channels.lookup first = some c ∧
    c.timedOut cfg at' = true

/-- What a read may answer, and the bank it leaves. -/
def ReadsAs (cfg : RollupConfig) (at' : BlockInfo) (bank : ChannelBank) :
    EStateM.Result Failure ChannelBank (Option Bytes) → Prop
  | .ok none bank' =>
    bank.FrontTimedOut cfg at' ∧ ∃ first rest, bank.channelQueue = first :: rest ∧
      bank' = ⟨bank.channels.erase first, rest⟩
  | .ok (some data) bank' =>
    ¬bank.FrontTimedOut cfg at' ∧ ∃ before id after c,
      bank.channelQueue = before ++ id :: after ∧ bank.channels.lookup id = some c ∧
      c.readable cfg at' = true ∧ c.frameData = some data ∧
      (∀ j ∈ before, ¬bank.Readable cfg at' j) ∧
      (cfg.isCanyonActive at'.timestamp = false → before = []) ∧
      bank' = ⟨bank.channels.erase id, before ++ after⟩
  | .error e bank' =>
    ¬bank.FrontTimedOut cfg at' ∧ e = .temporary .eof ∧ bank' = bank ∧
      (cfg.isCanyonActive at'.timestamp = true → ∀ id ∈ bank.channelQueue, ¬bank.Readable cfg at' id) ∧
      ∀ id, bank.channelQueue.head? = some id → ¬bank.Readable cfg at' id

/-- The first of the channels that can be read is read; if there is none, nothing changes. -/
theorem readFirst_range (h : bank.Booked) (hfront : ¬bank.FrontTimedOut cfg at')
    (hcanyon : cfg.isCanyonActive at'.timestamp = true) (before rest : List ChannelId)
    (hqueue : bank.channelQueue = before ++ rest)
    (hbefore : ∀ id ∈ before, ¬bank.Readable cfg at' id) :
    ReadsAs cfg at' bank (readFirst cfg (some at') (range' before.length rest.length) bank) := by
  -- the channels before have been tried
  induction rest generalizing before with
  | nil =>
    rw [append_nil] at hqueue
    refine ⟨hfront, rfl, rfl, fun _ => hqueue ▸ hbefore, fun id hid => ?_⟩
    exact hbefore id (hqueue ▸ mem_of_mem_head? hid)
  | cons id rest ih =>
    have hid : bank.channelQueue[before.length]? = some id := by simp [hqueue]
    obtain ⟨c, hc⟩ := h.lookup (mem_of_getElem? hid)
    rw [length_cons, range'_succ, readFirst]
    rcases tryReadChannelAtIndex_eq h hid hc with ⟨hnot, hread⟩ | ⟨hyes, data, hdata, hread⟩
    · have hrest := ih (before ++ [id]) (by simp [hqueue])
        (forall_mem_append.mpr ⟨hbefore, forall_mem_singleton.mpr (not_readable hc hnot)⟩)
      rw [length_append] at hrest
      rwa [hread]
    · rw [hread]
      refine ⟨hfront, before, id, rest, c, hqueue, hc, hyes, hdata, hbefore, fun hno => ?_, ?_⟩
      · rw [hcanyon] at hno
        cases hno
      · rw [hqueue, eraseIdx_append_of_length_le le_rfl, Nat.sub_self, eraseIdx_cons_zero]

theorem readsAs_read (h : bank.Booked) : ReadsAs cfg at' bank (read cfg (some at') bank) := by
  unfold read
  cases hqueue : bank.channelQueue with
  | nil =>
    refine ⟨?_, rfl, rfl, fun _ => ?_, ?_⟩ <;> simp [FrontTimedOut, hqueue]
  | cons first rest =>
    have hfirst : bank.channelQueue[0]? = some first := by rw [hqueue, getElem?_cons_zero]
    obtain ⟨c, hc⟩ := h.lookup (mem_of_getElem? hfirst)
    simp only [hc]
    by_cases htimed : c.timedOut cfg at' = true
    · rw [if_pos htimed]
      exact ⟨⟨first, rest, c, hqueue, hc, htimed⟩, first, rest, hqueue, rfl⟩
    · have hfront : ¬bank.FrontTimedOut cfg at' := by
        rintro ⟨first', rest', d, hcons, hd, htimed'⟩
        rw [hqueue] at hcons
        obtain ⟨rfl, -⟩ := cons.inj hcons
        rw [Option.some.inj (hc.symm.trans hd)] at htimed
        exact htimed htimed'
      rw [if_neg htimed]
      cases hcanyon : cfg.isCanyonActive at'.timestamp with
      | true =>
        rw [← hqueue, range_eq_range']
        exact readFirst_range h hfront hcanyon [] _ rfl nofun
      | false =>
        rcases @tryReadChannelAtIndex_eq cfg bank at' first h 0 c hfirst hc with
          ⟨hnot, hread⟩ | ⟨hyes, data, hdata, hread⟩ <;> rw [hread]
        · refine ⟨hfront, rfl, rfl, fun hyes => ?_, ?_⟩
          · rw [hcanyon] at hyes
            exact absurd hyes (by decide)
          · intro id hid
            rw [hqueue] at hid
            cases hid
            exact not_readable hc hnot
        · refine ⟨hfront, [], first, rest, c, hqueue, hc, hyes, hdata, nofun,
            fun _ => rfl, ?_⟩
          rw [hqueue]
          rfl

/-! ## Runs -/

def openedAt (bank : ChannelBank) (id : ChannelId) : Option ℕ :=
  (bank.channels.lookup id).map fun c => c.openBlock.number

/-- The blocks at which the channels were opened, in the order of the queue. -/
def openings (bank : ChannelBank) : List ℕ := bank.channelQueue.filterMap bank.openedAt

/-- What holds between the calls of a bank, the last of which was made at the given origin. -/
structure Kept (cfg : RollupConfig) (at' : BlockInfo) (bank : ChannelBank) : Prop where
  booked : bank.Booked
  size_le : bank.size ≤ limit cfg at'.timestamp
  opened : ∀ n ∈ bank.openings, n ≤ at'.number
  inOrder : bank.openings.Pairwise (· ≤ ·)

/-- Neither the number nor the timestamp goes down. -/
def NotAfter (a b : BlockInfo) : Prop := a.number ≤ b.number ∧ a.timestamp ≤ b.timestamp

theorem limit_mono {timestamp later : ℕ} (h : timestamp ≤ later) :
    limit cfg timestamp ≤ limit cfg later := by
  unfold limit
  by_cases hfjord : cfg.isFjordActive timestamp = true
  · rw [if_pos hfjord, if_pos (cfg.isFjordActive_mono h hfjord)]
  · split_ifs <;> decide

theorem kept_new (cfg : RollupConfig) (at' : BlockInfo) : Kept cfg at' new where
  booked := by
    refine ⟨nodup_nil, fun id => ?_, fun id c hc => ?_⟩
    · exact iff_of_false not_mem_nil (notMem_empty id)
    · cases hc
  size_le := Nat.zero_le _
  opened := nofun
  inOrder := List.Pairwise.nil

section

variable (h : Kept cfg at' bank)

include h

theorem Kept.later {at'' : BlockInfo} (hle : NotAfter at' at'') :
    Kept cfg at'' bank where
  booked := h.booked
  size_le := h.size_le.trans (limit_mono hle.2)
  opened n hn := (h.opened n hn).trans hle.1
  inOrder := h.inOrder

/-- Channels may leave, as long as those that stay keep their opening block. -/
theorem Kept.of_sublist (hbooked : bank'.Booked) (hsize : bank'.size ≤ limit cfg at'.timestamp)
    (hsub : bank'.channelQueue.Sublist bank.channelQueue)
    (hopened : ∀ id ∈ bank'.channelQueue, bank'.openedAt id = bank.openedAt id) :
    Kept cfg at' bank' := by
  have hopenings : bank'.openings.Sublist bank.openings := by
    unfold openings
    rw [filterMap_congr hopened]
    exact hsub.filterMap _
  exact ⟨hbooked, hsize, fun n hn => h.opened n (hopenings.subset hn), h.inOrder.sublist hopenings⟩

theorem Kept.openChannel (id : ChannelId) : Kept cfg at' (bank.openChannel id at') := by
  have hbooked := h.booked.openChannel at' id
  have hsize := size_openChannel bank at' id
  unfold ChannelBank.openChannel at hbooked hsize ⊢
  cases hid : bank.channels.lookup id with
  | some c => exact h
  | none =>
    rw [hid] at hbooked hsize
    -- the new channel is at the back and was opened at the present origin
    have hopenings : openings ⟨bank.channels.insert id (.new id at'), bank.channelQueue ++ [id]⟩ =
        bank.openings ++ [at'.number] := by
      unfold openings
      rw [filterMap_append]
      congr 1
      · refine filterMap_congr fun j hj => ?_
        unfold openedAt
        rw [lookup_insert_ne]
        rintro rfl
        exact lookup_eq_none.mp hid ((h.booked.keys j).mp hj)
      · simp [openedAt, Channel.new]
    refine ⟨hbooked, hsize.trans_le h.size_le, ?_, ?_⟩
    · rw [hopenings]
      exact forall_mem_append.mpr ⟨h.opened, forall_mem_singleton.mpr le_rfl⟩
    · rw [hopenings, pairwise_append]
      refine ⟨h.inOrder, pairwise_singleton _ _, fun m hm n hn => ?_⟩
      exact (h.opened m hm).trans (mem_singleton.mp hn).ge

theorem Kept.retains (hsize : bank'.size ≤ limit cfg at'.timestamp)
    (hretains : Retains bank bank') : Kept cfg at' bank' := by
  refine h.of_sublist (h.booked.retains hretains) hsize hretains.1 fun id hid => ?_
  unfold openedAt
  rw [hretains.2, if_pos hid]

theorem Kept.ingestedTo {frame : Frame} (hbooked : bank'.Booked)
    (hsize : bank'.size ≤ limit cfg at'.timestamp)
    (hingested : IngestedTo cfg at' frame bank bank') : Kept cfg at' bank' := by
  obtain ⟨⟨k, hk⟩, hlookup⟩ := hingested
  refine (h.openChannel frame.id).of_sublist hbooked hsize ?_ fun id hid => ?_
  · rw [hk]
    exact drop_sublist k _
  · unfold openedAt
    rw [hlookup, lookup_openChannel]
    split_ifs
    · -- neither a frame nor its refusal moves the opening block
      unfold fed
      dsimp only
      split_ifs
      · rfl
      · rw [Option.map_some, Option.map_some, Channel.openBlock_afterFrame]
    · rfl

theorem Kept.erase {before after : List ChannelId}
    (hqueue : bank.channelQueue = before ++ id :: after) :
    Kept cfg at' ⟨bank.channels.erase id, before ++ after⟩ := by
  refine h.retains ?_ (h.booked.retains_erase hqueue)
  obtain ⟨c, hc⟩ := @Booked.lookup bank id h.booked (by simp [hqueue])
  have := total_erase (fun _ c => Channel.size c) hc
  have hle := h.size_le
  unfold size sizeOf at hle ⊢
  dsimp only
  omega

theorem Kept.readsAs {result : EStateM.Result Failure ChannelBank (Option Bytes)}
    (hread : ReadsAs cfg at' bank result) : Kept cfg at' (finalState result) := by
  match result, hread with
  | .ok none bank', hread =>
    obtain ⟨-, first, rest, hqueue, rfl⟩ := hread
    exact @Kept.erase cfg bank at' first h [] rest hqueue
  | .ok (some data) bank', hread =>
    obtain ⟨-, before, id, after, -, hqueue, -, -, -, -, -, rfl⟩ := hread
    exact h.erase hqueue
  | .error e bank', hread =>
    obtain ⟨-, -, rfl, -⟩ := hread
    exact h

inductive Call
  | ingestFrame (frame : Frame)
  | read
  | prune

/-- The bank after a call, whatever the call returned. -/
def afterCall (cfg : RollupConfig) (bank : ChannelBank) (call : BlockInfo × Call) : ChannelBank :=
  match call.2 with
  | .ingestFrame frame => finalState (bank.ingestFrame cfg (some call.1) frame)
  | .read => finalState (bank.read cfg (some call.1))
  | .prune => finalState (bank.prune cfg (some call.1))

def afterCalls (cfg : RollupConfig) (bank : ChannelBank) (calls : List (BlockInfo × Call)) :
    ChannelBank :=
  calls.foldl (afterCall cfg) bank

theorem Kept.afterCall (call : Call) : Kept cfg at' (bank.afterCall cfg (at', call)) := by
  unfold ChannelBank.afterCall
  cases call with
  | ingestFrame frame =>
    obtain ⟨bank', hok, hsize, hingested, hbooked⟩ := ingestFrame_ok h.booked h.size_le frame
    dsimp only
    rw [hok]
    exact h.ingestedTo hbooked hsize hingested
  | read => exact h.readsAs (readsAs_read h.booked)
  | prune =>
    obtain ⟨bank', hok, hsize, hpruned⟩ := @prune_ok cfg bank at' h.booked
    rw [hok]
    exact h.retains hsize hpruned.retains

/-- Between the calls of a run under origins that do not go back, the books are kept. -/
theorem Kept.afterCalls {calls : List (BlockInfo × Call)} {next : BlockInfo}
    (hsorted : (at' :: (calls.map Prod.fst ++ [next])).Pairwise NotAfter) :
    Kept cfg next (bank.afterCalls cfg calls) := by
  induction calls generalizing at' bank with
  | nil => exact h.later ((pairwise_cons.mp hsorted).1 next (by simp))
  | cons call calls ih =>
    obtain ⟨hfirst, hrest⟩ := pairwise_cons.mp hsorted
    exact ih ((h.later (hfirst call.1 (by simp))).afterCall call.2) hrest

end

end Bookkeeping

/-- After any calls and at any next origin, the queue lists the channels in the order of opening,
pruning and ingesting succeed within the limit and take channels from the front only, and a read
answers as `ReadsAs` says. -/
theorem bank_keeps_books (cfg : RollupConfig) (calls : List (BlockInfo × Call)) (next : BlockInfo)
    (hsorted : (calls.map Prod.fst ++ [next]).Pairwise NotAfter) :
    let bank := new.afterCalls cfg calls
    bank.channelQueue.Nodup ∧ (∀ id, id ∈ bank.channelQueue ↔ id ∈ bank.channels) ∧
    (bank.channelQueue.Pairwise fun a b =>
      ∀ m ∈ bank.openedAt a, ∀ n ∈ bank.openedAt b, m ≤ n) ∧
    (∃ bank', bank.prune cfg (some next) = .ok () bank' ∧
      bank'.size ≤ limit cfg next.timestamp ∧ PrunedTo bank bank') ∧
    (∀ frame, ∃ bank', bank.ingestFrame cfg (some next) frame = .ok () bank' ∧
      bank'.size ≤ limit cfg next.timestamp ∧ IngestedTo cfg next frame bank bank') ∧
    ReadsAs cfg next bank (bank.read cfg (some next)) := by
  intro bank
  have hzero : ∀ b, NotAfter BlockInfo.zero b := fun b => ⟨Nat.zero_le _, Nat.zero_le _⟩
  have h : Kept cfg next bank := (kept_new cfg BlockInfo.zero).afterCalls
    (pairwise_cons.mpr ⟨fun b _ => hzero b, hsorted⟩)
  refine ⟨h.booked.nodup, h.booked.keys, pairwise_filterMap.mp h.inOrder, prune_ok h.booked, fun frame => ?_,
    readsAs_read h.booked⟩
  obtain ⟨bank', hok, hsize, hingested, -⟩ := ingestFrame_ok h.booked h.size_le frame
  exact ⟨bank', hok, hsize, hingested⟩

/-- Two frames of different channels, the first of which is complete, and a read. -/
def sampleCalls : List (BlockInfo × Call) :=
  let origin : BlockInfo := { BlockInfo.zero with number := 5, timestamp := 60 }
  [(origin, .ingestFrame ⟨FixedBytes.zero 16, 0, [1, 2], true⟩),
    (origin, .ingestFrame ⟨.fill 16 1, 0, [3], false⟩),
    ({ origin with number := 6, timestamp := 72 }, .read)]

theorem bank_keeps_books_sample : let bank := new.afterCalls sampleConfig sampleCalls
    let next : BlockInfo := { BlockInfo.zero with number := 7, timestamp := 84 }
    bank.channelQueue.Nodup ∧ (∀ id, id ∈ bank.channelQueue ↔ id ∈ bank.channels) ∧
      ReadsAs sampleConfig next bank (bank.read sampleConfig (some next)) := by
  intro bank next
  have hsorted : (sampleCalls.map Prod.fst ++ [next]).Pairwise NotAfter := by
    simp [sampleCalls, NotAfter, next]
  have h := bank_keeps_books sampleConfig sampleCalls next hsorted
  exact ⟨h.1, h.2.1, h.2.2.2.2.2⟩

example : (new.afterCalls sampleConfig sampleCalls).channelQueue = [.fill 16 1] := by
  decide +kernel

end ChannelBank

end NodeReth.Derive
