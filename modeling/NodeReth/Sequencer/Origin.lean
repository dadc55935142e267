import NodeReth.Protocol.CheckBatch

/-!
# The L1 origin of the next block

The sequencer chooses the L1 origin of the block that it builds (`sequencer/l1_origin`,
`sequencer/build.rs`, `sequencer/pool.rs`): the origin of the parent, or the block after it, which a
background task looks up. The selector is never given the whole L1 chain; a call to it meets
whatever the provider answers by then. `Sound` is what its state keeps over all calls: everything it
holds lies on the chain, and a successor that is ready, or being looked up, is that of a block with a
known hash. Metrics, logs and the shadow funding transaction are left out.
-/

namespace NodeReth.Sequencer

open Words

/-! ## The L1 provider -/

structure L1Header where
  number : ℕ
  parentHash : B256
  timestamp : ℕ
  rest : Bytes
  deriving DecidableEq

structure PreparedL1Origin where
  hash : B256
  header : L1Header
  /-- Whether the receipts came with it. -/
  receipts : Bool
  deriving DecidableEq

def PreparedL1Origin.blockInfo (p : PreparedL1Origin) : BlockInfo where
  hash := p.hash
  number := p.header.number
  parentHash := p.header.parentHash
  timestamp := p.header.timestamp

inductive L1OriginSelectorError
  | provider
  | notEnoughData (current : BlockInfo)
  | originNotFound (hash : B256)
  | nextL1OriginOrphaned (current next : B256)
  deriving DecidableEq

/-- The answers of the RPC to a lookup: the header, and whether the receipts are there. -/
structure RpcAnswers where
  header : Except Unit (Option L1Header)
  receipts : Except Unit Bool

namespace DelayedL1OriginSelectorProvider

def preparedByHash (hashSlow : L1Header → B256) (rpc : RpcAnswers) (hash : B256) :
    Except L1OriginSelectorError (Option PreparedL1Origin) :=
  match rpc.header with
  | .error _ => .error .provider
  | .ok none => .ok none
  | .ok (some header) =>
    if hashSlow header ≠ hash then .ok none
    else
      match rpc.receipts with
      | .error _ => .error .provider
      | .ok receipts => .ok (some ⟨hash, header, receipts⟩)

/-- Only blocks that are deep enough below the observed head are looked up. -/
def preparedByNumber (hashSlow : L1Header → B256) (confirmationDepth : ℕ) (l1Head : Option BlockInfo)
    (rpc : RpcAnswers) (number : ℕ) : Except L1OriginSelectorError (Option PreparedL1Origin) :=
  match l1Head with
  | none => .ok none
  | some head =>
    if number = 0 ∨ confirmationDepth = 0 ∨ satAdd number confirmationDepth ≤ head.number then
      match rpc.header with
      | .error _ => .error .provider
      | .ok none => .ok none
      | .ok (some header) =>
        if header.number ≠ number then .error .provider
        else .ok (some ⟨hashSlow header, header, rpc.receipts.toOption.getD false⟩)
    else .ok none

end DelayedL1OriginSelectorProvider

open DelayedL1OriginSelectorProvider

/-! ## The selector -/

/-- The successor of the current origin and the work to obtain it. -/
inductive NextSlot
  | idle
  /-- A lookup of the block with the number, which has to extend the block with the hash. -/
  | inFlight (parentHash chainView : B256) (number : ℕ)
  | ready (block : PreparedL1Origin) (chainView : B256)
  deriving DecidableEq

structure L1OriginSelector where
  current : Option PreparedL1Origin
  next : NextSlot
  /-- What is published for the next payload. -/
  selected : Option PreparedL1Origin

/-- What a call to the selector meets: the answer to the lookup by hash, the hash of the L1 head each
time it is looked at, and the result of the background task if it has finished; a failure of the
task is no result. -/
structure Answers where
  byHash : Except L1OriginSelectorError (Option PreparedL1Origin)
  chainView : Option B256
  adoptionView : Option B256
  respawnView : Option B256
  finished : Option (Option PreparedL1Origin)

namespace L1OriginSelector

def new : L1OriginSelector := ⟨none, .idle, none⟩

def nextReady (s : L1OriginSelector) : Option PreparedL1Origin :=
  match s.next with
  | .ready block _ => some block
  | _ => none

def chooseOrigin (cfg : RollupConfig) (s : L1OriginSelector) (unsafeHead : L2BlockInfo) :
    Except L1OriginSelectorError PreparedL1Origin :=
  let nextL2Timestamp := cfg.l2BlockTimestamp (satAdd unsafeHead.blockInfo.number 1)
  match s.current with
  | none => .error (.originNotFound unsafeHead.l1Origin.hash)
  | some current =>
    let maxSeqDrift := cfg.maxSequencerDriftAt current.header.timestamp
    let pastSeqDrift := nextL2Timestamp - current.header.timestamp > maxSeqDrift
    match s.nextReady with
    | some next =>
      if nextL2Timestamp ≥ next.header.timestamp then .ok next
      else if ¬pastSeqDrift then .ok current
      -- the next origin is ahead of the next block
      else .ok current
    | none => if ¬pastSeqDrift then .ok current else .error (.notEnoughData current.blockInfo)

def spawnNext (currentHash : B256) (currentNumber : ℕ) (chainView : B256) : NextSlot :=
  .inFlight currentHash chainView (satAdd currentNumber 1)

def adoptNext (currentHash chainView : B256) (liveView : Option B256)
    (fetched : Option PreparedL1Origin) : Except L1OriginSelectorError NextSlot :=
  match fetched with
  | none => .ok .idle
  | some block =>
    if liveView ≠ some chainView then .ok .idle
    else if block.header.parentHash ≠ currentHash then
      .error (.nextL1OriginOrphaned currentHash block.hash)
    else if block.receipts = false then .ok .idle
    else .ok (.ready block chainView)

/-- The slot is left idle when the current origin turns out to be orphaned. -/
def pollNext (answers : Answers) (currentHash : B256) (currentNumber : ℕ) (next : NextSlot) :
    Except L1OriginSelectorError NextSlot :=
  match answers.chainView with
  | none => .ok .idle
  | some chainView =>
    match next with
    | .ready block readyView =>
      if block.header.parentHash = currentHash ∧ readyView = chainView then
        .ok (.ready block readyView)
      else .ok (spawnNext currentHash currentNumber chainView)
    | .inFlight parentHash fetchView number =>
      if parentHash ≠ currentHash ∨ fetchView ≠ chainView then
        .ok (spawnNext currentHash currentNumber chainView)
      else
        match answers.finished with
        | some fetched =>
          match adoptNext currentHash chainView answers.adoptionView fetched with
          | .ok .idle =>
            match answers.respawnView with
            | none => .ok .idle
            | some liveView => .ok (spawnNext currentHash currentNumber liveView)
          | adopted => adopted
        | none => .ok (.inFlight parentHash fetchView number)
    | .idle => .ok (spawnNext currentHash currentNumber chainView)

/-- The current origin for the unsafe head, and the slot that goes with it. -/
def resolveCurrent (s : L1OriginSelector) (originHash : B256) (answers : Answers) :
    Except L1OriginSelectorError (Option PreparedL1Origin × NextSlot) :=
  if s.current.any (fun current => current.hash = originHash) then .ok (s.current, s.next)
  else
    match s.nextReady with
    | some block =>
      if block.hash = originHash then .ok (some block, .idle)
      else answers.byHash.map fun current => (current, .idle)
    | none => answers.byHash.map fun current => (current, .idle)

def selectOrigins (s : L1OriginSelector) (unsafeHead : L2BlockInfo) (answers : Answers) :
    Except L1OriginSelectorError Unit × L1OriginSelector :=
  match s.resolveCurrent unsafeHead.l1Origin.hash answers with
  | .error e => (.error e, { s with next := .idle })
  | .ok (none, next) => (.ok (), { s with current := none, next })
  | .ok (some current, next) =>
    match pollNext answers current.hash current.header.number next with
    | .error e => (.error e, { s with current := some current, next := .idle })
    | .ok next => (.ok (), { s with current := some current, next })

def nextL1Origin (cfg : RollupConfig) (s : L1OriginSelector) (unsafeHead : L2BlockInfo)
    (answers : Answers) : Except L1OriginSelectorError BlockInfo × L1OriginSelector :=
  match s.selectOrigins unsafeHead answers with
  | (.error e, s) => (.error e, { s with selected := none })
  | (.ok (), s) =>
    match s.chooseOrigin cfg unsafeHead with
    | .error e => (.error e, { s with selected := none })
    | .ok selected => (.ok selected.blockInfo, { s with selected := some selected })

end L1OriginSelector

/-! ## Building on the origin -/

inductive BuildOutcome (α : Type)
  | ready (a : α)
  | deferred
  | awaitingL1Origin
  deriving DecidableEq

/-- An error defers the block; some errors also reset the engine. -/
def getNextPayloadL1Origin (unsafeHead : L2BlockInfo)
    (origin : Except L1OriginSelectorError BlockInfo) : BuildOutcome BlockInfo :=
  match origin with
  | .error (.notEnoughData _) => .awaitingL1Origin
  | .error _ => .deferred
  | .ok l1Origin =>
    if unsafeHead.l1Origin.hash ≠ l1Origin.parentHash ∧ unsafeHead.l1Origin.hash ≠ l1Origin.hash then
      .deferred
    else .ready l1Origin

inductive BuilderError
  | blockMismatchEpochReset
  | blockMismatch
  | brokenTimeInvariant
  deriving DecidableEq

/-- The timestamp of the attributes, with the checks of `prepare_payload_attributes` on the header of
the epoch. -/
def preparePayloadTimestamp (cfg : RollupConfig) (l2Parent : L2BlockInfo) (epoch : BlockNumHash)
    (l1Header : L1Header) : Except BuilderError ℕ :=
  let targetL2Time := cfg.l2BlockTimestamp (wrapAdd l2Parent.blockInfo.number 1)
  if l2Parent.l1Origin.number ≠ epoch.number ∧ l2Parent.l1Origin.hash ≠ l1Header.parentHash then
    .error .blockMismatchEpochReset
  else if l2Parent.l1Origin.number = epoch.number ∧ l2Parent.l1Origin.hash ≠ epoch.hash then
    .error .blockMismatch
  else if targetL2Time < l1Header.timestamp then .error .brokenTimeInvariant
  else .ok targetL2Time

/-- Whether transactions of the pool may go into the block. -/
def PoolActivation.isEnabled (cfg : RollupConfig) (recoveryMode : Bool) (l1Origin : BlockInfo)
    (parentTimestamp timestamp : ℕ) : Bool :=
  if recoveryMode then false
  else if timestamp > wrapAdd l1Origin.timestamp (cfg.maxSequencerDriftAt l1Origin.timestamp) then
    false
  else if cfg.isFirstEcotoneBlock timestamp parentTimestamp then false
  else if cfg.isFirstFjordBlock timestamp parentTimestamp then false
  else if cfg.isFirstGraniteBlock timestamp parentTimestamp then false
  else if cfg.isFirstHoloceneBlock timestamp parentTimestamp then false
  else if cfg.isFirstIsthmusBlock timestamp parentTimestamp then false
  else if cfg.isFirstJovianBlock timestamp parentTimestamp then false
  else true

/-- The part of the attributes that the origin decides. -/
structure Attributes where
  timestamp : ℕ
  noTxPool : Bool
  deriving DecidableEq

/-- No attributes when the origin does not fit the parent. -/
def buildAttributes (cfg : RollupConfig) (recoveryMode : Bool) (unsafeHead : L2BlockInfo)
    (l1Origin : BlockInfo) (l1Header : L1Header) : Option Attributes :=
  match preparePayloadTimestamp cfg unsafeHead ⟨l1Origin.number, l1Origin.hash⟩ l1Header with
  | .error _ => none
  | .ok timestamp =>
    some ⟨timestamp, !PoolActivation.isEnabled cfg recoveryMode l1Origin
      unsafeHead.blockInfo.timestamp timestamp⟩

/-- The batch of the block that is built on the parent. -/
def builtBatch (unsafeHead : L2BlockInfo) (l1Origin : BlockInfo) (attributes : Attributes)
    (transactions : List Bytes) : SingleBatch where
  parentHash := unsafeHead.blockInfo.hash
  epochNum := l1Origin.number
  epochHash := l1Origin.hash
  timestamp := attributes.timestamp
  transactions := transactions

/-! ## The chain -/

/-- An L1 chain: headers by number, linked by hashes that no other header shares. -/
structure L1Chain where
  hashSlow : L1Header → B256
  header : ℕ → Option L1Header
  unique : ∀ n h h', header n = some h → hashSlow h' = hashSlow h → h' = h
  number : ∀ n h, header n = some h → h.number = n
  link : ∀ n a b, header n = some a → header (n + 1) = some b → b.parentHash = hashSlow a
  bound : ∀ n h, header n = some h → n < u64Max

variable {p : PreparedL1Origin}

namespace L1Chain

variable (chain : L1Chain)

def blockInfo (h : L1Header) : BlockInfo := ⟨chain.hashSlow h, h.number, h.parentHash, h.timestamp⟩

def HasOrigin (block : L2BlockInfo) : Prop :=
  ∃ h, chain.header block.l1Origin.number = some h ∧ chain.hashSlow h = block.l1Origin.hash

def Holds (p : PreparedL1Origin) : Prop :=
  chain.header p.header.number = some p.header ∧ p.hash = chain.hashSlow p.header

variable {chain}

theorem Holds.header_eq {q : PreparedL1Origin} (hp : chain.Holds p) (hq : chain.Holds q)
    (h : p.hash = q.hash) : p.header = q.header := by
  rw [hp.2, hq.2] at h
  exact chain.unique _ _ _ hq.1 h

theorem Holds.blockInfo (h : chain.Holds p) : p.blockInfo = chain.blockInfo p.header := by
  unfold PreparedL1Origin.blockInfo L1Chain.blockInfo
  rw [h.2]

def Follows (chain : L1Chain) (p q : PreparedL1Origin) : Prop :=
  chain.Holds p ∧ chain.Holds q ∧ q.header.parentHash = p.hash ∧ q.header.number = p.header.number + 1

end L1Chain

/-! ## Soundness -/

section

variable {cfg : RollupConfig} {chain : L1Chain} {s : L1OriginSelector} {head : L2BlockInfo}
  {answers : Answers} {origin : BlockInfo}

/-- The lookup by hash and the background task return what the RPC has of the chain, at whatever
time and depth. -/
structure Answers.Faithful (chain : L1Chain) (s : L1OriginSelector) (head : L2BlockInfo)
    (answers : Answers) : Prop where
  byHash : ∃ rpc, answers.byHash = preparedByHash chain.hashSlow rpc head.l1Origin.hash
  finished : ∀ parentHash chainView number block, s.next = .inFlight parentHash chainView number →
    answers.finished = some (some block) → ∃ depth l1Head rpc,
      (∀ h, rpc.header = .ok (some h) → chain.header number = some h) ∧
      preparedByNumber chain.hashSlow depth l1Head rpc number = .ok (some block)

theorem preparedByHash_holds {rpc : RpcAnswers} (hhead : chain.HasOrigin head)
    (h : preparedByHash chain.hashSlow rpc head.l1Origin.hash =
      .ok (some p)) : chain.Holds p ∧ p.hash = head.l1Origin.hash := by
  unfold preparedByHash at h
  split at h
  · cases h
  · cases h
  · rename_i header hheader
    split_ifs at h with hhash
    · cases h
    rw [not_not] at hhash
    split at h <;> cases h
    · obtain ⟨origin, horigin, hash⟩ := hhead
      obtain rfl : header = origin := chain.unique _ _ _ horigin (hhash.trans hash.symm)
      refine ⟨⟨?_, hhash.symm⟩, rfl⟩
      rwa [chain.number _ _ horigin]

theorem preparedByNumber_holds {rpc : RpcAnswers} {depth number : ℕ} {l1Head : Option BlockInfo}
    (hrpc : ∀ h, rpc.header = .ok (some h) → chain.header number = some h)
    (h : preparedByNumber chain.hashSlow depth l1Head rpc number =
      .ok (some p)) : chain.Holds p ∧ p.header.number = number := by
  unfold preparedByNumber at h
  split at h
  · cases h
  split_ifs at h
  · split at h
    · cases h
    · cases h
    · rename_i header hheader
      split_ifs at h with hnumber
      rw [not_not] at hnumber
      cases h
      exact ⟨⟨by rw [hnumber]; exact hrpc header hheader, rfl⟩, hnumber⟩
  · cases h

namespace L1OriginSelector

variable {block : PreparedL1Origin} {next : NextSlot}

/-- A slot whose successor, found or looked for, is that of a block of the chain. -/
def SlotSound (chain : L1Chain) : NextSlot → Prop
  | .idle => True
  | .inFlight parentHash _ number => ∃ p, chain.Holds p ∧ p.hash = parentHash ∧
    number = satAdd p.header.number 1
  | .ready block _ => ∃ p, chain.Follows p block

structure Sound (chain : L1Chain) (s : L1OriginSelector) : Prop where
  current : ∀ p, s.current = some p → chain.Holds p
  next : SlotSound chain s.next

theorem Sound.new (chain : L1Chain) : Sound chain L1OriginSelector.new := ⟨nofun, trivial⟩

theorem nextReady_eq_some (h : s.nextReady = some block) :
    ∃ chainView, s.next = .ready block chainView := by
  unfold nextReady at h
  split at h
  · rename_i b chainView hnext
    cases h
    exact ⟨chainView, hnext⟩
  · cases h

/-- The slot is sound, and a successor that is ready extends the given origin. -/
def SlotExtends (chain : L1Chain) (p : PreparedL1Origin) (next : NextSlot) : Prop :=
  SlotSound chain next ∧ ∀ block chainView, next = .ready block chainView → chain.Follows p block

theorem slotExtends_idle (p : PreparedL1Origin) : SlotExtends chain p .idle := ⟨trivial, nofun⟩

theorem slotExtends_spawnNext (hp : chain.Holds p) (chainView : B256) :
    SlotExtends chain p (spawnNext p.hash p.header.number chainView) :=
  ⟨⟨p, hp, rfl, rfl⟩, nofun⟩

theorem slotExtends_ready (h : chain.Follows p block) (chainView : B256) :
    SlotExtends chain p (.ready block chainView) := by
  refine ⟨⟨p, h⟩, fun block' chainView' heq => ?_⟩
  cases heq
  exact h

theorem adoptNext_ok {chainView : B256} {liveView : Option B256} {fetched : Option PreparedL1Origin}
    (hfetched : ∀ block, fetched = some block → block.header.parentHash = p.hash →
      chain.Follows p block)
    (h : adoptNext p.hash chainView liveView fetched = .ok next) : SlotExtends chain p next := by
  unfold adoptNext at h
  split at h
  · cases h
    exact slotExtends_idle p
  · rename_i block
    split_ifs at h with hview hparent hreceipts <;> cases h
    · exact slotExtends_idle p
    · exact slotExtends_idle p
    · exact slotExtends_ready (hfetched block rfl (not_not.mp hparent)) chainView

/-- A poll keeps a successor only if it extends the current origin. -/
theorem pollNext_ok {next' : NextSlot} (hp : chain.Holds p) (hnext : SlotSound chain next)
    (hfinished : ∀ parentHash chainView number block, next = .inFlight parentHash chainView number →
      answers.finished = some (some block) → chain.Holds block ∧ block.header.number = number)
    (h : pollNext answers p.hash p.header.number next = .ok next') : SlotExtends chain p next' := by
  unfold pollNext at h
  split at h
  · cases h
    exact slotExtends_idle p
  split at h
  · rename_i block readyView
    split_ifs at h with hkeep <;> cases h
    · obtain ⟨q, hq, hr, hlink, hnumber⟩ := hnext
      rw [hq.header_eq hp (hlink.symm.trans hkeep.1)] at hnumber
      exact slotExtends_ready ⟨hp, hr, hkeep.1, hnumber⟩ readyView
    · exact slotExtends_spawnNext hp _
  · split_ifs at h with hstale
    · cases h
      exact slotExtends_spawnNext hp _
    rw [not_or, not_not] at hstale
    split at h
    · rename_i fetched hfetched
      have hfollows : ∀ block, fetched = some block → block.header.parentHash = p.hash →
          chain.Follows p block := by
        intro block hblock hlink
        rw [hblock] at hfetched
        obtain ⟨hholds, hnumber⟩ := hfinished _ _ _ _ rfl hfetched
        obtain ⟨q, hq, hhash, hsucc⟩ := hnext
        rw [hq.header_eq hp (hhash.trans hstale.1)] at hsucc
        refine ⟨hp, hholds, hlink, ?_⟩
        have hbound := chain.bound _ _ hholds.1
        rw [hnumber, hsucc] at hbound ⊢
        exact satAdd_eq_of_lt hbound
      split at h
      · split at h <;> cases h
        · exact slotExtends_idle p
        · exact slotExtends_spawnNext hp _
      · exact adoptNext_ok hfollows h
    · cases h
      exact ⟨hnext, nofun⟩
  · cases h
    exact slotExtends_spawnNext hp _

theorem resolveCurrent_ok (hsound : Sound chain s) (hhead : chain.HasOrigin head)
    (hanswers : answers.Faithful chain s head) {current : Option PreparedL1Origin}
    (h : s.resolveCurrent head.l1Origin.hash answers = .ok (current, next)) :
    (∀ p, current = some p → chain.Holds p ∧ p.hash = head.l1Origin.hash) ∧
      (next = .idle ∨ next = s.next) := by
  have hbyHash : ∀ next, answers.byHash.map (fun current => (current, NextSlot.idle)) =
      .ok (current, next) →
      (∀ p, current = some p → chain.Holds p ∧ p.hash = head.l1Origin.hash) ∧ next = .idle := by
    intro next hmap
    cases hby : answers.byHash with rw [hby] at hmap
    | error e => cases hmap
    | ok found =>
      cases hmap
      refine ⟨fun p hp => ?_, rfl⟩
      obtain ⟨rpc, hrpc⟩ := hanswers.byHash
      rw [hby, hp] at hrpc
      exact preparedByHash_holds hhead hrpc.symm
  unfold resolveCurrent at h
  split_ifs at h with hsame
  · cases h
    refine ⟨fun p hp => ⟨hsound.current p hp, ?_⟩, .inr rfl⟩
    rw [hp] at hsame
    simpa using hsame
  · split at h
    · rename_i block hready
      split_ifs at h with hhash
      · cases h
        refine ⟨fun p hp => ?_, .inl rfl⟩
        cases hp
        obtain ⟨chainView, hnext⟩ := nextReady_eq_some hready
        have hslot := hsound.next
        rw [hnext] at hslot
        obtain ⟨q, hq⟩ := hslot
        exact ⟨hq.2.1, hhash⟩
      · exact (hbyHash next h).imp_right .inl
    · exact (hbyHash next h).imp_right .inl

/-- Whatever a call meets, the selector stays sound; and when the origins have been selected, the
current one is that of the head, and a successor that is ready extends it. -/
theorem selectOrigins_spec (hsound : Sound chain s) (hhead : chain.HasOrigin head)
    (hanswers : answers.Faithful chain s head) :
    Sound chain (s.selectOrigins head answers).2 ∧
      ((s.selectOrigins head answers).1 = .ok () →
        ∀ p, (s.selectOrigins head answers).2.current = some p →
          p.hash = head.l1Origin.hash ∧ SlotExtends chain p (s.selectOrigins head answers).2.next) := by
  unfold selectOrigins
  cases hresolve : s.resolveCurrent head.l1Origin.hash answers with
  | error e => exact ⟨⟨hsound.current, trivial⟩, nofun⟩
  | ok resolved =>
    obtain ⟨current, next⟩ := resolved
    obtain ⟨hcurrent, hnext⟩ := resolveCurrent_ok hsound hhead hanswers hresolve
    have hslot : SlotSound chain next := by
      rcases hnext with rfl | rfl
      · trivial
      · exact hsound.next
    cases current with
    | none => exact ⟨⟨nofun, hslot⟩, fun _ => nofun⟩
    | some p =>
      obtain ⟨hp, hhash⟩ := hcurrent p rfl
      have hholds : ∀ q, some p = some q → chain.Holds q := by
        rintro q ⟨⟩
        exact hp
      dsimp only
      cases hpoll : pollNext answers p.hash p.header.number next with
      | error e => exact ⟨⟨hholds, trivial⟩, nofun⟩
      | ok next' =>
        have hextends : SlotExtends chain p next' := by
          refine pollNext_ok hp hslot (fun parentHash chainView number block hin hdone => ?_) hpoll
          rcases hnext with rfl | rfl
          · cases hin
          · obtain ⟨depth, l1Head, rpc, hrpc, hprepared⟩ := hanswers.finished _ _ _ _ hin hdone
            exact preparedByNumber_holds hrpc hprepared
        refine ⟨⟨hholds, hextends.1⟩, fun _ q hq => ?_⟩
        cases hq
        exact ⟨hhash, hextends⟩

theorem chooseOrigin_ok {origin : PreparedL1Origin} (h : s.chooseOrigin cfg head = .ok origin) :
    ∃ current, s.current = some current ∧
      ((s.nextReady = some origin ∧
          origin.header.timestamp ≤ cfg.l2BlockTimestamp (satAdd head.blockInfo.number 1)) ∨
        (origin = current ∧ ∃ next, s.nextReady = some next ∧
          cfg.l2BlockTimestamp (satAdd head.blockInfo.number 1) < next.header.timestamp) ∨
        (origin = current ∧ cfg.l2BlockTimestamp (satAdd head.blockInfo.number 1) ≤
          current.header.timestamp + cfg.maxSequencerDriftAt current.header.timestamp)) := by
  unfold chooseOrigin at h
  dsimp only at h
  split at h
  · cases h
  rename_i current hcurrent
  refine ⟨current, hcurrent, ?_⟩
  split at h
  · rename_i next hready
    split_ifs at h with hadopt hdrift <;> cases h
    · exact .inl ⟨hready, hadopt⟩
    all_goals exact .inr (.inl ⟨rfl, next, hready, not_le.mp hadopt⟩)
  · split_ifs at h with hdrift
    cases h
    exact .inr (.inr ⟨rfl, by omega⟩)

/-- A selector after any calls for heads of the chain, whatever they met. -/
inductive Reaches (cfg : RollupConfig) (chain : L1Chain) : L1OriginSelector → Prop
  | new : Reaches cfg chain .new
  | call {s : L1OriginSelector} {head : L2BlockInfo} {answers : Answers} :
      Reaches cfg chain s → chain.HasOrigin head → answers.Faithful chain s head →
      Reaches cfg chain (s.nextL1Origin cfg head answers).2

theorem sound_nextL1Origin (hsound : Sound chain s) (hhead : chain.HasOrigin head)
    (hanswers : answers.Faithful chain s head) :
    Sound chain (s.nextL1Origin cfg head answers).2 := by
  have hselect := (selectOrigins_spec hsound hhead hanswers).1
  unfold nextL1Origin
  split
  · rename_i e t heq
    rw [heq] at hselect
    exact ⟨hselect.current, hselect.next⟩
  · rename_i t heq
    rw [heq] at hselect
    split <;> exact ⟨hselect.current, hselect.next⟩

theorem Reaches.sound (h : Reaches cfg chain s) : Sound chain s := by
  induction h with
  | new => exact .new chain
  | call _ hhead hanswers ih => exact sound_nextL1Origin ih hhead hanswers

/-- The origin for a head, against the chain: its successor, if that is not ahead of the next block;
or the origin itself, when the successor is ahead or the drift allows it. -/
inductive Chosen (cfg : RollupConfig) (chain : L1Chain) (head : L2BlockInfo) : BlockInfo → Prop
  | successor {next : L1Header} :
      chain.header (head.l1Origin.number + 1) = some next →
      next.parentHash = head.l1Origin.hash →
      next.timestamp ≤ cfg.l2BlockTimestamp (satAdd head.blockInfo.number 1) →
      Chosen cfg chain head (chain.blockInfo next)
  | ahead {current next : L1Header} :
      chain.header head.l1Origin.number = some current →
      chain.hashSlow current = head.l1Origin.hash →
      chain.header (head.l1Origin.number + 1) = some next →
      cfg.l2BlockTimestamp (satAdd head.blockInfo.number 1) < next.timestamp →
      Chosen cfg chain head (chain.blockInfo current)
  | withinDrift {current : L1Header} :
      chain.header head.l1Origin.number = some current →
      chain.hashSlow current = head.l1Origin.hash →
      cfg.l2BlockTimestamp (satAdd head.blockInfo.number 1) ≤
        current.timestamp + cfg.maxSequencerDriftAt current.timestamp →
      Chosen cfg chain head (chain.blockInfo current)

theorem chosen_of_nextL1Origin (hsound : Sound chain s) (hhead : chain.HasOrigin head)
    (hanswers : answers.Faithful chain s head)
    (h : (s.nextL1Origin cfg head answers).1 = .ok origin) : Chosen cfg chain head origin := by
  obtain ⟨hselect, hextends⟩ := selectOrigins_spec hsound hhead hanswers
  unfold nextL1Origin at h
  split at h
  · cases h
  rename_i t heq
  rw [heq] at hselect hextends
  split at h
  · cases h
  rename_i selected hchoose
  cases h
  obtain ⟨current, hcurrent, hcases⟩ := chooseOrigin_ok hchoose
  obtain ⟨hhash, hslot⟩ := hextends rfl current hcurrent
  have hholds := hselect.current current hcurrent
  -- the current origin is the one that the head names
  obtain ⟨header, hheader, hheaderHash⟩ := hhead
  obtain rfl : current.header = header :=
    chain.unique _ _ _ hheader ((hholds.2.symm.trans hhash).trans hheaderHash.symm)
  have hnumber := chain.number _ _ hheader
  have hfollows : ∀ next, t.nextReady = some next → chain.Follows current next := by
    intro next hready
    obtain ⟨chainView, hnext⟩ := nextReady_eq_some hready
    exact hslot.2 next chainView hnext
  have hsuccessor : ∀ next, chain.Follows current next →
      chain.header (head.l1Origin.number + 1) = some next.header := by
    intro next hnext
    obtain ⟨-, hnextHolds, -, hsucc⟩ := hnext
    rw [← hnumber, ← hsucc]
    exact hnextHolds.1
  rcases hcases with ⟨hready, hle⟩ | ⟨rfl, next, hready, hlt⟩ | ⟨rfl, hdrift⟩
  · have hnext := hfollows selected hready
    rw [hnext.2.1.blockInfo]
    exact .successor (hsuccessor selected hnext) (hnext.2.2.1.trans hhash) hle
  · rw [hholds.blockInfo]
    exact .ahead hheader hheaderHash (hsuccessor next (hfollows next hready)) hlt
  · rw [hholds.blockInfo]
    exact .withinDrift hheader hheaderHash hdrift

end L1OriginSelector

/-! ## Agreement with derivation -/

open L1OriginSelector SingleBatch

theorem getNextPayloadL1Origin_ready {origin : Except L1OriginSelectorError BlockInfo}
    {accepted : BlockInfo} (h : getNextPayloadL1Origin head origin = .ready accepted) :
    origin = .ok accepted ∧
      (accepted.parentHash = head.l1Origin.hash ∨ accepted.hash = head.l1Origin.hash) := by
  unfold getNextPayloadL1Origin at h
  split at h
  · cases h
  · cases h
  · split_ifs at h with hbad
    cases h
    refine ⟨rfl, ?_⟩
    rw [not_and_or, not_not, not_not] at hbad
    exact hbad.imp Eq.symm Eq.symm

/-- The attributes have the timestamp of the next block, which the origin is not ahead of; and the
pool is off past the drift and in the first Jovian block. -/
theorem buildAttributes_some {recoveryMode : Bool} {header : L1Header} {attributes : Attributes}
    (hnumber : head.blockInfo.number < u64Max)
    (hfits : origin.timestamp + cfg.maxSequencerDriftAt origin.timestamp ≤ u64Max)
    (h : buildAttributes cfg recoveryMode head origin header = some attributes) :
    attributes.timestamp = cfg.l2BlockTimestamp (satAdd head.blockInfo.number 1) ∧
      header.timestamp ≤ attributes.timestamp ∧
      (attributes.noTxPool = false →
        attributes.timestamp ≤ origin.timestamp + cfg.maxSequencerDriftAt origin.timestamp ∧
        cfg.isFirstJovianBlock attributes.timestamp head.blockInfo.timestamp = false) := by
  unfold buildAttributes at h
  split at h
  · cases h
  rename_i timestamp hprepare
  cases h
  unfold preparePayloadTimestamp at hprepare
  dsimp only at hprepare
  rw [wrapAdd_eq (by omega), ← satAdd_eq (by omega)] at hprepare
  split_ifs at hprepare with hreset hmismatch hinvariant
  cases hprepare
  refine ⟨rfl, not_lt.mp hinvariant, fun henabled => ?_⟩
  have hon : PoolActivation.isEnabled cfg recoveryMode origin head.blockInfo.timestamp
      (cfg.l2BlockTimestamp (satAdd head.blockInfo.number 1)) = true := by
    simpa using henabled
  unfold PoolActivation.isEnabled at hon
  rw [wrapAdd_eq hfits] at hon
  split_ifs at hon with hrecovery hdrift _ _ _ _ _ hjovian
  exact ⟨not_lt.mp hdrift, Bool.eq_false_iff.mpr hjovian⟩

/-- The batch of a block that was built on a chosen origin is in its place. -/
theorem checkBatch_chosen {inclusionBlock : BlockInfo} {current next : L1Header}
    {rest : List BlockInfo} {attributes : Attributes} {transactions : List Bytes}
    (hchosen : Chosen cfg chain head origin)
    (hcurrent : chain.header head.l1Origin.number = some current)
    (hnext : chain.header (head.l1Origin.number + 1) = some next)
    (hfits : origin.timestamp + cfg.maxSequencerDriftAt origin.timestamp ≤ u64Max)
    (htime : attributes.timestamp = cfg.l2BlockTimestamp (satAdd head.blockInfo.number 1))
    (hafter : origin.timestamp ≤ attributes.timestamp) (hpool : attributes.noTxPool = false →
      attributes.timestamp ≤ origin.timestamp + cfg.maxSequencerDriftAt origin.timestamp ∧
      cfg.isFirstJovianBlock attributes.timestamp head.blockInfo.timestamp = false)
    (hempty : attributes.noTxPool = true → transactions = []) :
    (builtBatch head origin attributes transactions).checkBatch cfg
        (chain.blockInfo current :: chain.blockInfo next :: rest) head inclusionBlock =
      if wrapAdd origin.number cfg.seqWindowSize < inclusionBlock.number then .drop .includedTooLate
      else checkTransactions cfg attributes.timestamp transactions := by
  have hcurrentNumber := chain.number _ _ hcurrent
  have hnextNumber := chain.number _ _ hnext
  have hbound := chain.bound _ _ hnext
  have hdriftEmpty : origin.timestamp + cfg.maxSequencerDriftAt origin.timestamp <
      attributes.timestamp → transactions = [] := by
    intro hpast
    cases hoff : attributes.noTxPool with
    | true => exact hempty hoff
    | false => exact absurd (hpool hoff).1 (not_le.mpr hpast)
  have hjovian : cfg.isFirstJovianBlock attributes.timestamp head.blockInfo.timestamp = true →
      transactions = [] := by
    intro hfirst
    cases hoff : attributes.noTxPool with
    | true => exact hempty hoff
    | false =>
      rw [(hpool hoff).2] at hfirst
      cases hfirst
  -- the epoch is the current one or the next one
  have horigin : (builtBatch head origin attributes transactions).batchOrigin
      (chain.blockInfo current) (some (chain.blockInfo next)) = .ok origin := by
    cases hchosen with
    | successor hsucc _ _ =>
      obtain rfl := Option.some.inj (hsucc.symm.trans hnext)
      refine batchOrigin_next ?_ ?_
      · exact hnextNumber.trans (congrArg (· + 1) hcurrentNumber.symm)
      · show current.number < u64Max
        omega
    | ahead hstay _ _ _ | withinDrift hstay _ _ =>
      obtain rfl := Option.some.inj (hstay.symm.trans hcurrent)
      exact batchOrigin_current rfl
  refine checkBatch_eq htime rfl horigin rfl hafter (checkDrift_ok hfits hdriftEmpty ?_) hjovian
  intro (hpast : _ < attributes.timestamp) hsame
  show attributes.timestamp < next.timestamp
  rw [htime] at hpast ⊢
  cases hchosen with
  | @successor n hsucc _ _ =>
    obtain rfl : next = n := Option.some.inj (hnext.symm.trans hsucc)
    have : current.number = next.number := hsame
    omega
  | ahead _ _ hsucc hlt =>
    obtain rfl := Option.some.inj (hsucc.symm.trans hnext)
    exact hlt
  | withinDrift hstay _ hdrift =>
    exact absurd hdrift (not_le.mpr hpast)

theorem L1OriginSelector.Chosen.onChain (h : Chosen cfg chain head origin) :
    ∃ n header, chain.header n = some header ∧ origin = chain.blockInfo header := by
  cases h with
  | successor hnext _ _ => exact ⟨_, _, hnext, rfl⟩
  | ahead hcurrent _ _ _ | withinDrift hcurrent _ _ => exact ⟨_, _, hcurrent, rfl⟩

/-- After any calls, whatever the provider answers: an origin that the sequencer accepts for the
next block is that of the parent or extends it, and derivation accepts the batch of a block built on
it, its transactions aside, when it is in time and the next L1 block is known. The sum of an L1
timestamp and the drift has to fit in a word. -/
theorem sequencer_agrees_with_derivation (hreaches : Reaches cfg chain s)
    (hhead : chain.HasOrigin head) (hanswers : answers.Faithful chain s head)
    (hnumber : head.blockInfo.number < u64Max) (hfits : ∀ n h, chain.header n = some h →
      h.timestamp + cfg.maxSequencerDriftAt h.timestamp ≤ u64Max)
    {origin : BlockInfo}
    (haccept : getNextPayloadL1Origin head (s.nextL1Origin cfg head answers).1 = .ready origin) :
    (origin.parentHash = head.l1Origin.hash ∨ origin.hash = head.l1Origin.hash) ∧
    ∀ recoveryMode header attributes transactions current next rest inclusionBlock,
      chain.hashSlow header = origin.hash →
      buildAttributes cfg recoveryMode head origin header = some attributes →
      (attributes.noTxPool = true → transactions = []) →
      chain.header head.l1Origin.number = some current →
      chain.header (head.l1Origin.number + 1) = some next →
      ¬wrapAdd origin.number cfg.seqWindowSize < inclusionBlock.number →
      attributes.timestamp = cfg.l2BlockTimestamp (head.blockInfo.number + 1) ∧
      ((builtBatch head origin attributes transactions).checkBatch cfg
          (chain.blockInfo current :: chain.blockInfo next :: rest) head inclusionBlock = .accept ∨
        ∃ reason ∈ transactionReasons, (builtBatch head origin attributes transactions).checkBatch cfg
          (chain.blockInfo current :: chain.blockInfo next :: rest) head inclusionBlock =
            .drop reason) := by
  obtain ⟨hreturned, hextends⟩ := getNextPayloadL1Origin_ready haccept
  have hchosen := chosen_of_nextL1Origin hreaches.sound hhead hanswers hreturned
  refine ⟨hextends, ?_⟩
  intro recoveryMode header attributes transactions current next rest inclusionBlock hheader hbuild
    hempty hcurrent hnext hwindow
  obtain ⟨n, h, honChain, rfl⟩ := hchosen.onChain
  obtain rfl := chain.unique _ _ _ honChain hheader
  obtain ⟨htime, hafter, hpool⟩ := buildAttributes_some hnumber (hfits n header honChain) hbuild
  constructor
  · rw [htime, satAdd_eq hnumber]
  · rw [checkBatch_chosen hchosen hcurrent hnext (hfits n header honChain) htime hafter hpool hempty,
      if_neg hwindow]
    exact checkTransactions_cases cfg attributes.timestamp transactions

end

namespace OriginExample

open Bytes L1OriginSelector

/-! Two L1 blocks, and an L2 block whose origin is the first one. -/

def first : L1Header := ⟨7, fixedBe 32 6, 10, []⟩
def second : L1Header := ⟨8, fixedBe 32 7, 12, []⟩

def hashSlow (h : L1Header) : B256 :=
  if h = first then fixedBe 32 7 else if h = second then fixedBe 32 8 else fixedBe 32 0

theorem eq_of_hashSlow {h h' : L1Header} (hne : hashSlow h' ≠ fixedBe 32 0)
    (heq : hashSlow h = hashSlow h') : h = h' := by
  have hboth : ∀ k, hashSlow k ≠ fixedBe 32 0 → k = first ∨ k = second := by
    intro k hk
    unfold hashSlow at hk
    split_ifs at hk with h₁ h₂
    · exact .inl h₁
    · exact .inr h₂
    · exact absurd rfl hk
  rcases hboth h (heq ▸ hne) with rfl | rfl <;> rcases hboth h' hne with rfl | rfl
  · rfl
  · exact absurd heq (by decide)
  · exact absurd heq (by decide)
  · rfl

def chain : L1Chain where
  hashSlow := hashSlow
  header n := if n = 7 then some first else if n = 8 then some second else none
  unique n h h' hn hh := by
    refine eq_of_hashSlow ?_ hh
    split_ifs at hn with h₇ h₈ <;> cases hn
    · decide
    · decide
  number n h hn := by
    split_ifs at hn with h₇ h₈ <;> cases hn
    · exact h₇.symm
    · exact h₈.symm
  link n a b ha hb := by
    split_ifs at ha with h₇ h₈
    · cases ha
      subst h₇
      cases hb
      decide
    · subst h₈
      cases hb
  bound n h hn := by
    split_ifs at hn with h₇ h₈
    · rw [h₇]
      decide
    · rw [h₈]
      decide

def cfg (maxSequencerDrift : ℕ) : RollupConfig :=
  { sampleRollup with
    genesis := ⟨0, 10⟩
    maxSequencerDrift := maxSequencerDrift
    upgradeActivationTimestamp := fun _ => none }

def head : L2BlockInfo := ⟨⟨fixedBe 32 99, 0, fixedBe 32 98, 10⟩, ⟨7, fixedBe 32 7⟩, 0⟩

def prepared (h : L1Header) : PreparedL1Origin := ⟨chain.hashSlow h, h, true⟩

/-- The head of L1 has been seen, and the lookup of the successor has come to the given result. -/
def answers (finished : Option (Option PreparedL1Origin)) : Answers where
  byHash := .ok (some (prepared first))
  chainView := some (fixedBe 32 8)
  adoptionView := some (fixedBe 32 8)
  respawnView := some (fixedBe 32 8)
  finished := finished

def selector (maxSequencerDrift : ℕ) : L1OriginSelector :=
  (L1OriginSelector.new.nextL1Origin (cfg maxSequencerDrift) head (answers none)).2

theorem hasOrigin : chain.HasOrigin head := ⟨first, rfl, by decide⟩

theorem answers_none_faithful (s : L1OriginSelector) : (answers none).Faithful chain s head where
  byHash := ⟨⟨.ok (some first), .ok true⟩, by decide⟩
  finished := nofun

theorem answers_second_faithful :
    (answers (some (some (prepared second)))).Faithful chain (selector 600) head where
  byHash := ⟨⟨.ok (some first), .ok true⟩, by decide⟩
  finished parentHash chainView number block hnext hblock := by
    cases hnext
    cases hblock
    refine ⟨0, some ⟨fixedBe 32 8, 8, fixedBe 32 7, 12⟩, ⟨.ok (some second), .ok true⟩, ?_, ?_⟩
    · rintro h ⟨⟩
      rfl
    · decide

theorem drift_fits (n : ℕ) (h : L1Header) (hn : chain.header n = some h) :
    h.timestamp + (cfg 600).maxSequencerDriftAt h.timestamp ≤ u64Max := by
  unfold chain at hn
  simp only at hn
  split_ifs at hn <;> cases hn
  · decide
  · decide

/-- What derivation makes of the block with one transaction. -/
def exampleVerdict : BatchValidity :=
  (builtBatch head (chain.blockInfo second) ⟨12, false⟩ [[0x02]]).checkBatch (cfg 600)
    [chain.blockInfo first, chain.blockInfo second] head (chain.blockInfo second)

end OriginExample

open OriginExample

/-- With a drift that does not fit, derivation drops the empty block on the parent's own origin. -/
theorem sequencer_drift_overflows :
    let cfg := cfg u64Max
    L1OriginSelector.Reaches cfg chain .new ∧
    chain.HasOrigin head ∧
    (answers none).Faithful chain .new head ∧
    getNextPayloadL1Origin head (L1OriginSelector.new.nextL1Origin cfg head (answers none)).1 =
      .ready (chain.blockInfo first) ∧
    buildAttributes cfg false head (chain.blockInfo first) first = some ⟨12, true⟩ ∧
    (builtBatch head (chain.blockInfo first) ⟨12, true⟩
      []).checkBatch cfg [chain.blockInfo first, chain.blockInfo second] head
        (chain.blockInfo second) = .drop .sequencerDriftOverflow :=
  ⟨.new, hasOrigin, answers_none_faithful _, by decide +kernel, by decide +kernel, by decide +kernel⟩

/-- The successor is ready at the second call, and its timestamp is that of the next block. -/
theorem sequencer_agrees_with_derivation_second :
    getNextPayloadL1Origin head
      ((selector 600).nextL1Origin (cfg 600) head (answers (some (some (prepared second))))).1 =
      .ready (chain.blockInfo second) ∧
    (exampleVerdict = .accept ∨
      ∃ reason ∈ SingleBatch.transactionReasons, exampleVerdict = .drop reason) := by
  have haccept : getNextPayloadL1Origin head
      ((selector 600).nextL1Origin (cfg 600) head (answers (some (some (prepared second))))).1 =
      .ready (chain.blockInfo second) := by
    decide +kernel
  obtain ⟨-, hbatch⟩ := sequencer_agrees_with_derivation (.call .new hasOrigin (answers_none_faithful _))
    hasOrigin answers_second_faithful (by decide)
    drift_fits haccept
  exact ⟨haccept, (hbatch false second ⟨12, false⟩ [[0x02]] first second [] (chain.blockInfo second) rfl
    (by decide +kernel) nofun rfl rfl (by decide)).2⟩

end NodeReth.Sequencer
