import NodeReth.Lib.Effects
import NodeReth.Protocol.SingleBatch

/-!
# The proof window

The two backends of the proofs store of `execution/trie`, MDBX and RocksDB, keep the history of the
trie from an earliest to a latest block. What they do to the rows of the history is left open, since
the window does not depend on it. A transaction of MDBX is committed also where it has failed; a
write batch of RocksDB is written as a whole or not at all.
-/

namespace NodeReth

open Effects List

structure BlockWithParent where
  block : BlockNumHash
  parent : B256

/-- The history and the two pointers of the table `ProofWindow`. -/
structure ProofsStore (T : Type) where
  tables : T
  earliest : Option BlockNumHash
  latest : Option BlockNumHash

inductive ProofsStorageError (E : Type)
  | outOfOrder (blockNumber : ℕ) (parentBlockHash latestBlockHash : B256)
  | unwindBeyondEarliest (unwindBlockNumber earliestBlockNumber : ℕ)
  | database (e : E)

inductive Backend
  | mdbx
  | rocksdb
  deriving DecidableEq

/-- What a store does to its rows `T`, with block diffs `D`, keys to delete `K` and prune plans `P`.
The sort by number may put blocks of the same number in any order. -/
structure HistoryTables (T D K P E : Type) where
  collectHistoryRanged : ℕ → T → Except E K
  deleteHistoryRanged : ℕ → K → EStateM E T PUnit
  storeTrieUpdatesForBlock : ℕ → D → EStateM E T PUnit
  storeReplacementTrieUpdates : ℕ → List (BlockWithParent × D) → EStateM E T PUnit
  calculatePrunePlan : ℕ → ℕ → T → Except E P
  pruneHistoryPreceding : ℕ → ℕ → P → EStateM E T PUnit
  sortUnstable : List (BlockWithParent × D) → List (BlockWithParent × D)
  sortUnstable_perm : ∀ blocks, (sortUnstable blocks).Perm blocks

namespace ProofsStore

variable {T D K P E α : Type}

abbrev StorageM (T E : Type) := EStateM (ProofsStorageError E) (ProofsStore T)

def view (f : T → Except E α) : StorageM T E α := fun s =>
  match f s.tables with
  | .ok a => .ok a s
  | .error e => .error (.database e) s

/-- A write to the rows may fail half way. -/
def write (x : EStateM E T PUnit) : StorageM T E PUnit := fun s =>
  match x s.tables with
  | .ok _ tables => .ok ⟨⟩ { s with tables }
  | .error e tables => .error (.database e) { s with tables }

/-- A transaction of MDBX, or a write batch of RocksDB. -/
def update (backend : Backend) (x : StorageM T E PUnit) : StorageM T E PUnit := fun s =>
  match backend, x s with
  | .rocksdb, .error e _ => .error e s
  | _, r => r

def setLatest (block : BlockNumHash) : StorageM T E PUnit :=
  modify fun s => { s with latest := some block }

variable (rows : HistoryTables T D K P E) (backend : Backend)

def storeTrieUpdatesAppendOnly (b : BlockWithParent) (diff : D) : StorageM T E PUnit := do
  let s ← get
  let latestBlockHash := ((s.latest.or s.earliest).map (·.hash)).getD (FixedBytes.zero 32)
  ensure (latestBlockHash = b.parent) (.outOfOrder b.block.number b.parent latestBlockHash)
  write (rows.storeTrieUpdatesForBlock b.block.number diff)
  setLatest b.block

/-- RocksDB does not prune beyond the latest block. -/
def pruneTarget (s : ProofsStore T) (earliest requested : BlockNumHash) : BlockNumHash :=
  let latest := s.latest.getD earliest
  if backend = .rocksdb ∧ latest.number < requested.number then latest else requested

def pruneEarliestState (newEarliest : BlockWithParent) : StorageM T E PUnit := do
  let s ← get
  match s.earliest with
  | none => pure ⟨⟩
  | some earliest =>
    let target := s.pruneTarget backend earliest newEarliest.block
    if target.number ≤ earliest.number then pure ⟨⟩
    else do
      let plan ← view (rows.calculatePrunePlan earliest.number target.number)
      update backend do
        write (rows.pruneHistoryPreceding earliest.number target.number plan)
        modify fun s => { s with earliest := some target }

/-- `unwind_history` from the reading of the window on. -/
def unwindWindow (upto : BlockWithParent) (collect : StorageM T E K) : StorageM T E PUnit := do
  let s ← get
  match s.earliest with
  | none => pure ⟨⟩
  | some earliest =>
    if (s.latest.getD earliest).number < upto.block.number then pure ⟨⟩
    else do
      ensure (earliest.number < upto.block.number)
        (.unwindBeyondEarliest upto.block.number earliest.number)
      let keys ← collect
      write (rows.deleteHistoryRanged upto.block.number keys)
      setLatest ⟨upto.block.number - 1, upto.parent⟩

/-- MDBX collects the rows in a transaction of its own, before it looks at the window. -/
def unwindHistory (upto : BlockWithParent) : StorageM T E PUnit := do
  let collect := view (rows.collectHistoryRanged upto.block.number)
  match backend with
  | .mdbx =>
    let keys ← collect
    unwindWindow rows upto (pure keys)
  | .rocksdb => update .rocksdb (unwindWindow rows upto collect)

def removeFrom (start : ℕ) : StorageM T E PUnit := do
  let keys ← view (rows.collectHistoryRanged start)
  write (rows.deleteHistoryRanged start keys)

/-- RocksDB compares the parents of all blocks before it writes. -/
def checkParents (latestBlockHash : B256) : List (BlockWithParent × D) → StorageM T E PUnit
  | [] => pure ⟨⟩
  | (b, _) :: blocks => do
    ensure (latestBlockHash = b.parent) (.outOfOrder b.block.number b.parent latestBlockHash)
    checkParents b.block.hash blocks

/-- The first block that a replacement removes. The sum wraps in MDBX; in RocksDB it is checked, and
nothing is removed when it does not fit. -/
def firstRemoved (latestCommon : BlockNumHash) : ℕ :=
  match backend with
  | .mdbx => (latestCommon.number + 1) % 2 ^ 64
  | .rocksdb => latestCommon.number + 1

def replaceUpdates (latestCommon : BlockNumHash) (blocksToAdd : List (BlockWithParent × D)) :
    StorageM T E PUnit :=
  let blocks := rows.sortUnstable blocksToAdd
  let start := firstRemoved backend latestCommon
  match backend with
  | .mdbx => do
    removeFrom rows start
    setLatest latestCommon
    blocks.forM fun b => storeTrieUpdatesAppendOnly rows b.1 b.2
  | .rocksdb => update .rocksdb do
    checkParents latestCommon.hash blocks
    if start < 2 ^ 64 then removeFrom rows start
    write (rows.storeReplacementTrieUpdates latestCommon.number blocks)
    setLatest ((blocks.getLast?.map (·.1.block)).getD latestCommon)

/-! ## Runs -/

inductive Call (D : Type)
  | storeTrieUpdates (b : BlockWithParent) (diff : D)
  | pruneEarliestState (newEarliest : BlockWithParent)
  | unwindHistory (upto : BlockWithParent)
  | replaceUpdates (latestCommon : BlockNumHash) (blocksToAdd : List (BlockWithParent × D))

def call : Call D → StorageM T E PUnit
  | .storeTrieUpdates b diff => update backend (storeTrieUpdatesAppendOnly rows b diff)
  | .pruneEarliestState newEarliest => pruneEarliestState rows backend newEarliest
  | .unwindHistory upto => unwindHistory rows backend upto
  | .replaceUpdates latestCommon blocks => replaceUpdates rows backend latestCommon blocks

/-- The calls of a run, each with the store before it and its result. -/
def journal (s : ProofsStore T) : List (Call D) →
    List (ProofsStore T × Call D × EStateM.Result (ProofsStorageError E) (ProofsStore T) PUnit)
  | [] => []
  | c :: calls =>
    let result := call rows backend c s
    (s, c, result) :: journal (finalState result) calls

/-- The block is not below the earliest one. -/
def Reaches (earliest : Option BlockNumHash) (number : ℕ) : Prop :=
  ∀ e ∈ earliest, e.number ≤ number

def WellFormed (s : ProofsStore T) : Prop := ∀ latest ∈ s.latest, Reaches s.earliest latest.number

/-- The calls that remove the earliest block, or go below it. -/
def Crosses (s : ProofsStore T) : Call D → Prop
  | .unwindHistory upto => ∃ e ∈ s.earliest, upto.block.number ≤ e.number
  | .replaceUpdates latestCommon blocks => ∃ e ∈ s.earliest,
      firstRemoved backend latestCommon ≤ e.number ∨ ∃ b ∈ blocks, b.1.block.number < e.number
  | _ => False

/-- Appended blocks are not below the earliest one, MDBX is not asked to prune beyond the latest
block, and replaced blocks are above the earliest one. -/
def Guarded (s : ProofsStore T) : Call D → Prop
  | .storeTrieUpdates b _ => Reaches s.earliest b.block.number
  | .pruneEarliestState newEarliest =>
    backend = .mdbx → ∀ latest ∈ s.latest, newEarliest.block.number ≤ latest.number
  | .unwindHistory _ => True
  | .replaceUpdates latestCommon blocks => ¬Crosses backend s (.replaceUpdates latestCommon blocks)

/-- The earliest block stays, and the latest one is not below it. -/
def Bounded (earliest : Option BlockNumHash) (s : ProofsStore T) : Prop :=
  s.earliest = earliest ∧ ∀ latest ∈ s.latest, Reaches earliest latest.number

variable {rows} {backend} {s : ProofsStore T} {earliest : Option BlockNumHash}
  {inv : ProofsStore T → Prop} {first : BlockNumHash} {b upto : BlockWithParent} {c : Call D}

theorem Bounded.wellFormed (h : Bounded earliest s) : s.WellFormed := by
  obtain ⟨rfl, hlatest⟩ := h
  exact hlatest

theorem reads_view (f : T → Except E α) : Reads (view f) := by
  constructor
  all_goals
    intro s _ t h
    unfold view at h
    split at h <;> cases h
    rfl

theorem maintains_write {x : EStateM E T PUnit} (h : ∀ s tables, inv s → inv { s with tables }) :
    Maintains inv (write x) := by
  intro s hs
  unfold write
  cases x s.tables with
  | ok _ tables | error e tables => exact h s tables hs

theorem maintains_update {x : StorageM T E PUnit} (h : Maintains inv x) :
    Maintains inv (update backend x) := by
  intro s hs
  have hx := h s hs
  unfold update
  split
  · exact hs
  · exact hx

theorem bounded_write {x : EStateM E T PUnit} : Maintains (Bounded earliest) (write x) :=
  maintains_write fun _ _ hs => hs

theorem bounded_setLatest {block : BlockNumHash} (h : Reaches earliest block.number) :
    Maintains (Bounded earliest) (setLatest block : StorageM T E PUnit) := by
  refine fun s hs => ⟨hs.1, ?_⟩
  rintro _ ⟨⟩
  exact h

theorem bounded_append {diff : D} (h : Reaches earliest b.block.number) :
    Maintains (Bounded earliest) (storeTrieUpdatesAppendOnly rows b diff) :=
  reads_get.maintains.bind fun _ => maintains_ensure_bind fun _ =>
    bounded_write.bind fun _ => bounded_setLatest h

theorem bounded_unwindWindow {collect : StorageM T E K} (hcollect : Reads collect) :
    Maintains (Bounded earliest) (unwindWindow rows upto collect) := by
  intro s hs
  unfold unwindWindow
  rw [get_bind]
  cases hfirst : s.earliest with
  | none => exact hs
  | some first =>
    dsimp only
    split_ifs
    · exact hs
    · refine maintains_ensure_bind (fun hup => hcollect.maintains.bind fun _ =>
        bounded_write.bind fun _ => bounded_setLatest fun e he => ?_) s hs
      rw [← hs.1, hfirst] at he
      cases he
      exact Nat.le_sub_one_of_lt hup

theorem bounded_unwindHistory : Maintains (Bounded earliest) (unwindHistory rows backend upto) := by
  cases backend with
  | mdbx => exact (reads_view _).maintains.bind fun _ => bounded_unwindWindow (reads_pure _)
  | rocksdb => exact maintains_update (bounded_unwindWindow (reads_view _))

theorem bounded_removeFrom (start : ℕ) : Maintains (Bounded earliest) (removeFrom rows start) :=
  (reads_view _).maintains.bind fun _ => bounded_write

theorem reads_checkParents (hash : B256) (blocks : List (BlockWithParent × D)) :
    Reads (checkParents hash blocks : StorageM T E PUnit) := by
  induction blocks generalizing hash with
  | nil => exact reads_pure _
  | cons b blocks ih => exact (reads_ensure _ _).bind fun _ => ih _

theorem bounded_replaceUpdates {latestCommon : BlockNumHash} {blocks : List (BlockWithParent × D)}
    (hcommon : Reaches earliest latestCommon.number)
    (hblocks : ∀ b ∈ blocks, Reaches earliest b.1.block.number) :
    Maintains (Bounded earliest) (replaceUpdates rows backend latestCommon blocks) := by
  have hsorted : ∀ b ∈ rows.sortUnstable blocks, Reaches earliest b.1.block.number :=
    fun b hb => hblocks b ((rows.sortUnstable_perm blocks).mem_iff.mp hb)
  cases backend with
  | mdbx =>
    exact (bounded_removeFrom _).bind fun _ => (bounded_setLatest hcommon).bind fun _ =>
      maintains_forM fun b hb => bounded_append (hsorted b hb)
  | rocksdb =>
    refine maintains_update ((reads_checkParents _ _).maintains.bind fun _ => ?_)
    have hwrite : Maintains (Bounded earliest) (do
        write (rows.storeReplacementTrieUpdates latestCommon.number (rows.sortUnstable blocks))
        setLatest (((rows.sortUnstable blocks).getLast?.map (·.1.block)).getD latestCommon)) := by
      refine bounded_write.bind fun _ => bounded_setLatest ?_
      cases hlast : (rows.sortUnstable blocks).getLast? with
      | none => exact hcommon
      | some b => exact hsorted b (mem_of_getLast? hlast)
    split_ifs
    · exact (bounded_removeFrom _).bind fun _ => hwrite
    · exact hwrite

theorem pruneTarget_le {latest newEarliest : BlockNumHash} (hlatest : s.latest = some latest)
    (h : backend = .mdbx → newEarliest.number ≤ latest.number) :
    (s.pruneTarget backend first newEarliest).number ≤ latest.number := by
  unfold pruneTarget
  rw [hlatest]
  dsimp only [Option.getD_some]
  split_ifs with hlt
  · exact le_rfl
  · cases backend with
    | mdbx => exact h rfl
    | rocksdb => exact Nat.le_of_not_lt fun hgt => hlt ⟨rfl, hgt⟩

theorem wellFormed_pruneEarliestState (h : s.WellFormed)
    (hguard : backend = .mdbx → ∀ latest ∈ s.latest, b.block.number ≤ latest.number) :
    (finalState (pruneEarliestState rows backend b s)).WellFormed := by
  unfold pruneEarliestState
  rw [get_bind]
  cases hfirst : s.earliest with
  | none => exact h
  | some first =>
    dsimp only
    split_ifs
    · exact h
    · -- the transaction keeps the latest block
      let inv (u : ProofsStore T) : Prop := u.WellFormed ∧ u.latest = s.latest
      refine ((show Maintains inv _ from (reads_view _).maintains.bind fun plan => maintains_update
        ((maintains_write fun _ _ hu => hu).bind fun _ u hu => ?_)) s ⟨h, rfl⟩).1
      refine ⟨fun latest hlatest e he => ?_, hu.2⟩
      obtain rfl := Option.some.inj he
      have hlatest : s.latest = some latest := hu.2.symm.trans hlatest
      exact pruneTarget_le hlatest fun hb => hguard hb latest hlatest

theorem unwindWindow_crosses {collect : StorageM T E K} (h : s.WellFormed)
    (hfirst : s.earliest = some first) (hcross : upto.block.number ≤ first.number) :
    unwindWindow rows upto collect s =
      .error (.unwindBeyondEarliest upto.block.number first.number) s := by
  have hlatest : upto.block.number ≤ (s.latest.getD first).number := by
    cases hl : s.latest with
    | none => exact hcross
    | some latest => exact hcross.trans (h latest hl first hfirst)
  unfold unwindWindow
  rw [get_bind, hfirst]
  dsimp only
  rw [if_neg hlatest.not_gt]
  unfold ensure
  rw [if_neg hcross.not_gt]
  rfl

theorem unwindHistory_crosses (h : s.WellFormed) (hfirst : s.earliest = some first)
    (hcross : upto.block.number ≤ first.number) :
    ∃ e, unwindHistory rows backend upto s = .error e s := by
  cases backend with
  | mdbx =>
    show ∃ e, EStateM.bind _ _ s = .error e s
    unfold EStateM.bind
    cases hcollect : view (rows.collectHistoryRanged upto.block.number) s with
    | ok keys t =>
      obtain rfl := (reads_view _).1 _ _ _ hcollect
      exact ⟨_, unwindWindow_crosses h hfirst hcross⟩
    | error e t =>
      obtain rfl := (reads_view _).2 _ _ _ hcollect
      exact ⟨e, rfl⟩
  | rocksdb =>
    refine ⟨.unwindBeyondEarliest upto.block.number first.number, ?_⟩
    show update .rocksdb (unwindWindow rows upto _) s = _
    unfold update
    rw [unwindWindow_crosses h hfirst hcross]

theorem wellFormed_call (h : s.WellFormed) (hguard : Guarded backend s c) :
    (finalState (call rows backend c s)).WellFormed := by
  have hs : Bounded s.earliest s := ⟨rfl, h⟩
  cases c with
  | storeTrieUpdates b diff => exact (maintains_update (bounded_append hguard) s hs).wellFormed
  | pruneEarliestState newEarliest => exact wellFormed_pruneEarliestState h hguard
  | unwindHistory upto => exact (bounded_unwindHistory s hs).wellFormed
  | replaceUpdates latestCommon blocks =>
    have hle : firstRemoved backend latestCommon ≤ latestCommon.number + 1 := by
      cases backend with
      | mdbx => exact Nat.mod_le _ _
      | rocksdb => exact le_rfl
    refine (bounded_replaceUpdates (fun e he => ?_) (fun b hb e he => ?_) s hs).wellFormed
    · have hlt := Nat.lt_of_not_le fun hn => hguard ⟨e, he, .inl hn⟩
      exact Nat.lt_succ_iff.mp (hlt.trans_le hle)
    · exact Nat.le_of_not_lt fun hlt => hguard ⟨e, he, .inr ⟨b, hb, hlt⟩⟩

/-- In a run of guarded calls, the window is well formed after every call, and a call that would
remove the earliest block fails and changes nothing. -/
theorem window_stays_well_formed (rows : HistoryTables T D K P E) (backend : Backend)
    (calls : List (Call D)) (h : s.WellFormed)
    (hguard : ∀ x ∈ journal rows backend s calls, Guarded backend x.1 x.2.1) :
    ∀ x ∈ journal rows backend s calls, (finalState x.2.2).WellFormed ∧
      (Crosses backend x.1 x.2.1 → ∃ e, x.2.2 = .error e x.1) := by
  induction calls generalizing s with
  | nil => exact fun x hx => absurd hx not_mem_nil
  | cons c calls ih =>
    obtain ⟨hc, hcalls⟩ := forall_mem_cons.mp hguard
    refine forall_mem_cons.mpr ⟨⟨wellFormed_call h hc, fun hcross => ?_⟩,
      ih (wellFormed_call h hc) hcalls⟩
    cases c with
    | unwindHistory upto =>
      obtain ⟨first, hfirst, hle⟩ := hcross
      exact unwindHistory_crosses h hfirst hle
    | replaceUpdates latestCommon blocks => exact absurd hcross hc
    | storeTrieUpdates | pruneEarliestState => exact hcross.elim

namespace Example

/-- The numbers of the blocks that have a change set. -/
def changeSets : HistoryTables (List ℕ) Unit Unit Unit Unit where
  collectHistoryRanged _ _ := .ok ()
  deleteHistoryRanged start _ := modify (filter (· < start))
  storeTrieUpdatesForBlock number _ := modify (· ++ [number])
  storeReplacementTrieUpdates _ blocks := modify (· ++ blocks.map (·.1.block.number))
  calculatePrunePlan _ _ _ := .ok ()
  pruneHistoryPreceding _ target _ := modify (filter (target < ·))
  sortUnstable := insertionSort fun a b => a.1.block.number ≤ b.1.block.number
  sortUnstable_perm := perm_insertionSort _

def block (number : ℕ) : BlockNumHash := ⟨number, Bytes.fixedBe 32 number⟩

/-- The blocks of another branch. -/
def forked (number : ℕ) : BlockNumHash := ⟨number, Bytes.fixedBe 32 (2 ^ 64 + number)⟩

def window : ProofsStore (List ℕ) := ⟨[6, 7, 8], some (block 5), some (block 8)⟩

def append : Call Unit := .storeTrieUpdates ⟨block 9, (block 8).hash⟩ ()

def prune : Call Unit := .pruneEarliestState ⟨block 7, (block 6).hash⟩

/-- Replaces the block nine by two blocks of the other branch. -/
def reorg : Call Unit :=
  .replaceUpdates (block 8) [(⟨forked 10, (forked 9).hash⟩, ()), (⟨forked 9, (block 8).hash⟩, ())]

/-- Removes the earliest block. -/
def unwind : Call Unit := .unwindHistory ⟨block 7, (block 6).hash⟩

def appended : ProofsStore (List ℕ) := ⟨[6, 7, 8, 9], some (block 5), some (block 9)⟩

def pruned : ProofsStore (List ℕ) := ⟨[8, 9], some (block 7), some (block 9)⟩

def replaced : ProofsStore (List ℕ) := ⟨[8, 9, 10], some (block 7), some (forked 10)⟩

theorem journal_run : journal changeSets .mdbx window [append, prune, reorg, unwind] =
    [(window, append, .ok ⟨⟩ appended), (appended, prune, .ok ⟨⟩ pruned),
      (pruned, reorg, .ok ⟨⟩ replaced),
      (replaced, unwind, .error (.unwindBeyondEarliest 7 7) replaced)] := rfl

theorem guarded_run :
    ∀ x ∈ journal changeSets .mdbx window [append, prune, reorg, unwind], Guarded .mdbx x.1 x.2.1 := by
  rw [journal_run]
  refine forall_mem_cons.mpr ⟨?_, forall_mem_cons.mpr ⟨?_, forall_mem_cons.mpr ⟨?_,
    forall_mem_singleton.mpr trivial⟩⟩⟩
  · rintro _ ⟨⟩
    decide
  · rintro - _ ⟨⟩
    decide
  · rintro ⟨_, ⟨⟩, hcross⟩
    revert hcross
    decide

end Example

open Example

/-- A block is appended, the window is pruned and the appended block is replaced; the earliest block
is not removed. -/
theorem window_stays_well_formed_run :
    journal changeSets .mdbx window [append, prune, reorg, unwind] =
        [(window, append, .ok ⟨⟩ appended), (appended, prune, .ok ⟨⟩ pruned),
          (pruned, reorg, .ok ⟨⟩ replaced),
          (replaced, unwind, .error (.unwindBeyondEarliest 7 7) replaced)] ∧
      ∀ x ∈ journal changeSets .mdbx window [append, prune, reorg, unwind],
        (finalState x.2.2).WellFormed ∧ (Crosses .mdbx x.1 x.2.1 → ∃ e, x.2.2 = .error e x.1) := by
  refine ⟨journal_run, window_stays_well_formed changeSets .mdbx _ ?_ guarded_run⟩
  rintro _ ⟨⟩ _ ⟨⟩
  decide

/-- MDBX prunes beyond the latest block, and both backends replace blocks below the earliest one. -/
theorem window_inverted :
    call changeSets .mdbx (.pruneEarliestState ⟨block 9, FixedBytes.zero 32⟩) window =
        .ok ⟨⟩ ⟨[], some (block 9), some (block 8)⟩ ∧
      ∀ backend, call changeSets backend (.replaceUpdates (block 3) []) window =
        .ok ⟨⟩ ⟨[], some (block 5), some (block 3)⟩ := by
  refine ⟨rfl, fun backend => ?_⟩
  cases backend <;> rfl

end ProofsStore

end NodeReth
