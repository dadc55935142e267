import NodeReth.Lib.Fallible
import NodeReth.Mpt.Node

/-!
# The challenger's output validator

`OutputValidator` compares the roots at a game's checkpoints with the output roots that it computes
from the answers of a node. Headers, hashes and trie proofs belong to packages outside the
repository (`Alloy`). The roots are computed concurrently but consumed in order, in a loop here.
-/

namespace NodeReth.OutputValidator

open Bytes Fallible List Nat

inductive RpcError
  | transport (text : String)
  | blockNotFound (text : String)
  | headerNotFound (text : String)
  | proofNotFound (text : String)
  | witnessNotFound (text : String)
  | invalidResponse (text : String)
  | timeout (text : String)
  | connection (text : String)
  | serialization (text : String)
  | headerChainInvalid (text : String)
  deriving DecidableEq

inductive ValidatorError
  | blockNotAvailable (blockNumber : UInt64)
  | headerHashMismatch (blockNumber : UInt64) (rpcHash computedHash : B256)
  | invalidInterval
  | invalidBlockRange (startingBlockNumber l2BlockNumber : UInt64)
  | checkpointCountMismatch (expected actual : ℕ)
  | arithmeticOverflow (blockNumber : UInt64)
  | accountProofFailed (blockNumber : UInt64) (reason : String)
  | rpc (e : RpcError)
  deriving DecidableEq

structure TrieAccount where
  nonce : UInt64
  balance : ℕ
  storageRoot : B256
  codeHash : B256

structure Alloy where
  Header : Type
  stateRoot : Header → B256
  hashSlow : Header → B256
  keccak256 : Bytes → B256
  display : Address → String
  unpack : B256 → Nibbles
  encodeAccount : TrieAccount → Bytes
  verifyProof : B256 → Nibbles → Option Bytes → List Bytes → Except String Unit

/-- The response to `eth_getProof`. -/
structure AccountProof extends TrieAccount where
  address : Address
  accountProof : List Bytes

structure L2Provider (alloy : Alloy) where
  headerByNumber : UInt64 → Except RpcError (B256 × alloy.Header)
  getProof : Address → B256 → Except RpcError AccountProof

structure OutputRoot where
  stateRoot : B256
  bridgeStorageRoot : B256
  blockHash : B256

def OutputRoot.encode (root : OutputRoot) : Bytes :=
  -- version 0 in the first word
  replicate 32 0 ++ root.stateRoot.val ++ root.bridgeStorageRoot.val ++ root.blockHash.val

def l2ToL1MessagePasser : Address := fixedBe 20 0x4200000000000000000000000000000000000016

structure ValidationResult where
  isValid : Bool
  expectedRoot : B256
  invalidIntermediateIndex : Option ℕ
  deriving DecidableEq

variable {alloy : Alloy} (l2 : L2Provider alloy)

def computeOutputRootWithHash (n : UInt64) : Except ValidatorError (B256 × B256) := do
  let (rpcHash, header) ← (l2.headerByNumber n).mapError fun
    | .headerNotFound _ | .blockNotFound _ => .blockNotAvailable n
    | e => .rpc e
  let computedHash := alloy.hashSlow header
  failIf (rpcHash ≠ computedHash) (.headerHashMismatch n rpcHash computedHash)
  let account ← (l2.getProof l2ToL1MessagePasser rpcHash).mapError .rpc
  failIf (account.address ≠ l2ToL1MessagePasser) (.accountProofFailed n
    ("account proof address mismatch: expected " ++ alloy.display l2ToL1MessagePasser ++
      ", got " ++ alloy.display account.address))
  (alloy.verifyProof (alloy.stateRoot header) (alloy.unpack (alloy.keccak256 account.address.val))
    (some (alloy.encodeAccount account.toTrieAccount)) account.accountProof).mapError fun error =>
      .accountProofFailed n ("account proof verification failed: " ++ error)
  return (computedHash, alloy.keccak256
    (OutputRoot.encode ⟨alloy.stateRoot header, account.storageRoot, computedHash⟩))

def computeOutputRoot (n : UInt64) : Except ValidatorError B256 := do
  let (_, root) ← computeOutputRootWithHash l2 n
  return root

/-- The first checkpoint whose root differs, and the root computed for it. -/
def validateOutputRoots : List ((UInt64 × B256) × ℕ) → Except ValidatorError (Option (ℕ × B256))
  | [] => .ok none
  | ((block, claimedRoot), i) :: rest => do
    let expectedRoot ← computeOutputRoot l2 block
    if expectedRoot ≠ claimedRoot then return some (i, expectedRoot) else validateOutputRoots rest

def checkpoints (interval : UInt64) : UInt64 → List B256 → List (UInt64 × B256)
  | _, [] => []
  | block, root :: roots => (block + interval, root) :: checkpoints interval (block + interval) roots

/-- The quotient fits in a `usize` of 64 bits, so that there is no arithmetic error. -/
def expectedCount (start last interval : UInt64) : ℕ := ((last - start) / interval).toNat

def validateIntermediateRoots (start last interval : UInt64) (claimedRoot : B256)
    (roots : List B256) : Except ValidatorError ValidationResult := do
  failIf (interval = 0) .invalidInterval
  failIf (last ≤ start) (.invalidBlockRange start last)
  failIf (roots.length ≠ expectedCount start last interval)
    (.checkpointCountMismatch (expectedCount start last interval) roots.length)
  if roots.isEmpty then
    return ⟨true, claimedRoot, none⟩
  let mismatch ← validateOutputRoots l2 (checkpoints interval start roots).zipIdx
  return ⟨mismatch.isNone, mismatch.elim claimedRoot Prod.snd, mismatch.map Prod.fst⟩

/-! ## Against an honest node -/

structure Chain (alloy : Alloy) where
  header : ℕ → alloy.Header
  /-- The storage root of the message passer. -/
  storageRoot : ℕ → B256

def Chain.outputRoot (chain : Chain alloy) (n : ℕ) : B256 :=
  alloy.keccak256 (OutputRoot.encode
    ⟨alloy.stateRoot (chain.header n), chain.storageRoot n, alloy.hashSlow (chain.header n)⟩)

/-- The node may fail to answer, but what it answers about blocks up to `last` is true. -/
structure Honest (chain : Chain alloy) (last : UInt64) : Prop where
  header : ∀ n ≤ last, ∀ h, l2.headerByNumber n = .ok h → h.2 = chain.header n.toNat
  storageRoot : ∀ n ≤ last, ∀ account,
    l2.getProof l2ToL1MessagePasser (alloy.hashSlow (chain.header n.toNat)) = .ok account →
      account.storageRoot = chain.storageRoot n.toNat

variable {l2} {chain : Chain alloy} {start last n interval : UInt64} {roots : List B256}

theorem Honest.computeOutputRoot (hhonest : Honest l2 chain last) (hn : n ≤ last) {root : B256}
    (h : computeOutputRoot l2 n = .ok root) : root = chain.outputRoot n.toNat := by
  obtain ⟨⟨hash, root'⟩, hcompute, rfl⟩ := bind_return_ok h
  obtain ⟨⟨rpcHash, header⟩, hheader, hrest⟩ := bind_ok_iff.mp hcompute
  obtain ⟨_, hhash, hrest⟩ := bind_ok_iff.mp hrest
  obtain ⟨account, haccount, hrest⟩ := bind_ok_iff.mp hrest
  obtain ⟨_, -, hrest⟩ := bind_ok_iff.mp hrest
  obtain ⟨_, -, hreturn⟩ := bind_return_ok hrest
  obtain ⟨-, rfl⟩ := Prod.mk.inj hreturn
  obtain rfl := hhonest.header n hn _ (mapError_ok_iff.mp hheader)
  obtain rfl := not_not.mp (failIf_ok_iff.mp hhash)
  rw [hhonest.storageRoot n hn account (mapError_ok_iff.mp haccount)]
  rfl

theorem Honest.validateOutputRoots (hhonest : Honest l2 chain last)
    {l : List (UInt64 × B256)} (hl : ∀ c ∈ l, c.1 ≤ last) {k : ℕ} {found : Option (ℕ × B256)}
    (h : validateOutputRoots l2 (l.zipIdx k) = .ok found) :
    found = (((l.map fun c => (c.1.toNat, c.2)).zipIdx k).find?
      fun c => c.1.2 ≠ chain.outputRoot c.1.1).map fun c => (c.2, chain.outputRoot c.1.1) := by
  induction l generalizing k with
  | nil =>
    cases h
    rfl
  | cons c l ih =>
    obtain ⟨hc, hl⟩ := forall_mem_cons.mp hl
    obtain ⟨expected, hexpected, hrest⟩ := bind_ok_iff.mp h
    obtain rfl := hhonest.computeOutputRoot hc hexpected
    by_cases heq : chain.outputRoot c.1.toNat = c.2
    · rw [if_neg (not_not.mpr heq)] at hrest
      simpa [heq] using ih hl hrest
    · rw [if_pos heq] at hrest
      cases hrest
      simp [Ne.symm heq]

/-- The block of checkpoint `i`. -/
def checkpoint (start interval : UInt64) (i : ℕ) : ℕ := start.toNat + (i + 1) * interval.toNat

/-- No addition wraps around as long as the last checkpoint fits. -/
theorem checkpoints_eq (hfit : start.toNat + roots.length * interval.toNat < 2 ^ 64) :
    (checkpoints interval start roots).map (fun c => (c.1.toNat, c.2)) =
      roots.mapIdx fun i root => (checkpoint start interval i, root) := by
  induction roots generalizing start with
  | nil => rfl
  | cons root roots ih =>
    rw [length_cons, succ_mul] at hfit
    have hnext : (start + interval).toNat = start.toNat + interval.toNat := by
      rw [UInt64.toNat_add, mod_eq_of_lt (by omega)]
    rw [checkpoints, map_cons, ih (by omega), mapIdx_cons]
    unfold checkpoint
    rw [hnext]
    congr 2
    · rw [zero_add, one_mul]
    · funext i root
      rw [succ_mul (i + 1), add_assoc, add_comm interval.toNat]

theorem expectedCount_fits (hrange : start ≤ last) :
    start.toNat + expectedCount start last interval * interval.toNat ≤ last.toNat := by
  have hle := UInt64.le_iff_toNat_le.mp hrange
  have hmul := div_mul_le_self (last.toNat - start.toNat) interval.toNat
  rw [expectedCount, UInt64.toNat_div, UInt64.toNat_sub_of_le _ _ hrange]
  omega

/-- The claimed root is not looked at: it is returned when every checkpoint passes. -/
theorem verdict_exact (hhonest : Honest l2 chain last) (claimedRoot : B256) :
    (start ≤ last → roots.length = expectedCount start last interval →
      (checkpoints interval start roots).map (fun c => (c.1.toNat, c.2)) =
        roots.mapIdx fun i root => (checkpoint start interval i, root)) ∧
    ∀ result, validateIntermediateRoots l2 start last interval claimedRoot roots = .ok result →
      (result.isValid = true ↔ ∀ i (h : i < roots.length),
        roots[i] = chain.outputRoot (checkpoint start interval i)) ∧
      (result.isValid = false → ∃ i, ∃ h : i < roots.length, result.invalidIntermediateIndex = some i ∧
        result.expectedRoot = chain.outputRoot (checkpoint start interval i) ∧
        roots[i] ≠ chain.outputRoot (checkpoint start interval i) ∧
        ∀ j (hj : j < i), roots[j] = chain.outputRoot (checkpoint start interval j)) := by
  refine ⟨fun hrange hcount => ?_, fun result h => ?_⟩
  · exact checkpoints_eq (hcount ▸ (expectedCount_fits hrange).trans_lt last.toNat_lt)
  obtain ⟨_, -, h⟩ := bind_ok_iff.mp h
  obtain ⟨_, hrange, h⟩ := bind_ok_iff.mp h
  obtain ⟨_, hcount, h⟩ := bind_ok_iff.mp h
  have hrange := UInt64.le_of_lt (UInt64.not_le.mp (failIf_ok_iff.mp hrange))
  have hcount := not_not.mp (failIf_ok_iff.mp hcount)
  split_ifs at h with hempty
  · cases h
    simp [isEmpty_iff.mp hempty]
  obtain ⟨found, hfound, rfl⟩ := bind_return_ok h
  have hfits : start.toNat + roots.length * interval.toNat ≤ last.toNat :=
    hcount ▸ expectedCount_fits hrange
  have heq := checkpoints_eq (hfits.trans_lt last.toNat_lt)
  have hle : ∀ c ∈ checkpoints interval start roots, c.1 ≤ last := by
    intro c hc
    obtain ⟨i, hi, hci⟩ := mem_mapIdx.mp (heq ▸ mem_map_of_mem hc)
    rw [UInt64.le_iff_toNat_le, ← (Prod.mk.inj hci).1]
    exact (Nat.add_le_add_left (Nat.mul_le_mul_right _ hi) _).trans hfits
  have hfind := hhonest.validateOutputRoots hle hfound
  rw [heq] at hfind
  cases found with
  | none =>
    have hnone := find?_eq_none.mp (Option.map_eq_none_iff.mp hfind.symm)
    refine ⟨⟨fun _ i hi => ?_, fun _ => rfl⟩, nofun⟩
    simpa using hnone ((checkpoint start interval i, roots[i]), i)
      (by simp [mem_zipIdx_iff_getElem?, hi])
  | some f =>
    obtain ⟨c, hc, rfl⟩ := Option.map_eq_some_iff.mp hfind.symm
    obtain ⟨hwrong, i, hi, rfl, hfirst⟩ := find?_eq_some_iff_getElem.mp hc
    simp only [length_zipIdx, length_mapIdx] at hi
    simp at hwrong hfirst
    refine ⟨⟨nofun, fun hall => absurd (hall i hi) hwrong⟩, fun _ => ⟨i, hi, ?_⟩⟩
    simpa using ⟨hwrong, hfirst⟩

/-! ## Three checkpoints -/

namespace Example

def stateRoot (n : ℕ) : B256 := fixedBe 32 (0xbeef0000 + n)

def storageRoot (n : ℕ) : B256 := fixedBe 32 (0xbabe0000 + n)

def blockHash (n : ℕ) : B256 := fixedBe 32 (0xc0de0000 + n)

def preimage (n : ℕ) : Bytes := OutputRoot.encode ⟨stateRoot n, storageRoot n, blockHash n⟩

/-- The headers of the chain, with the hashes of three outputs. -/
def library : Alloy where
  Header := ℕ
  stateRoot := stateRoot
  hashSlow := blockHash
  keccak256 b :=
    if b = preimage 95 then
      fixedBe 32 0x99983a0aed2c3494193953ea64b8a7b30a5f413973dd3e3354a002a8fe878a1f
    else if b = preimage 100 then
      fixedBe 32 0x3f95338702e9c58decab04c7f40723fd7b9acc95dab76b7c20ed3f2a6823420f
    else if b = preimage 105 then
      fixedBe 32 0x369bdb0de6c79c97c6ec9851de307e488212b13adf2f5526e5113aa1a182c51f
    else .zero 32
  display _ := ""
  unpack _ := []
  encodeAccount _ := []
  verifyProof _ _ _ _ := .ok ()

def blocks : Chain library := ⟨id, storageRoot⟩

def node : L2Provider library where
  headerByNumber n := .ok (blockHash n.toNat, n.toNat)
  getProof address hash :=
    .ok ⟨⟨0, 0, storageRoot (ofBe hash.val - 0xc0de0000), .zero 32⟩, address, []⟩

theorem node_honest : Honest node blocks 105 where
  header _ _ _ hheader := by
    obtain rfl := Except.ok.inj hheader
    rfl
  storageRoot n hn account hproof := by
    have hn : n.toNat ≤ 105 := UInt64.le_iff_toNat_le.mp hn
    have hhash : ofBe (blockHash n.toNat).val = 0xc0de0000 + n.toNat := by
      refine ofBe_toBe ?_
      norm_num
      omega
    obtain rfl := Except.ok.inj hproof
    show storageRoot (ofBe (blockHash n.toNat).val - 0xc0de0000) = storageRoot n.toNat
    rw [hhash, Nat.add_sub_cancel_left]

/-- The second root is the one of the first checkpoint. -/
def wrongRoots : List B256 := [blocks.outputRoot 95, blocks.outputRoot 95, blocks.outputRoot 105]

def rightRoots : List B256 := [blocks.outputRoot 95, blocks.outputRoot 100, blocks.outputRoot 105]

theorem wrong_refuted : validateIntermediateRoots node 90 105 5 (.zero 32) wrongRoots =
    .ok ⟨false, blocks.outputRoot 100, some 1⟩ := by
  decide +kernel

end Example

open Example

theorem verdict_exact_sample :
    validateIntermediateRoots node 90 105 5 (.zero 32) wrongRoots =
        .ok ⟨false, blocks.outputRoot 100, some 1⟩ ∧
      ∃ i, ∃ h : i < wrongRoots.length, some 1 = some i ∧
        blocks.outputRoot 100 = blocks.outputRoot (checkpoint 90 5 i) ∧
        wrongRoots[i] ≠ blocks.outputRoot (checkpoint 90 5 i) ∧
        ∀ j (hj : j < i), wrongRoots[j] = blocks.outputRoot (checkpoint 90 5 j) :=
  ⟨wrong_refuted, ((verdict_exact node_honest (.zero 32)).2 _ wrong_refuted).2 rfl⟩

/-- A game whose checkpoints are right is valid whatever it claims. -/
theorem claimedRoot_unchecked : Honest node blocks 105 ∧
    validateIntermediateRoots node 90 105 5 (.zero 32) rightRoots = .ok ⟨true, .zero 32, none⟩ ∧
    FixedBytes.zero 32 ≠ blocks.outputRoot 105 :=
  ⟨node_honest, by decide +kernel, by decide +kernel⟩

end NodeReth.OutputValidator
