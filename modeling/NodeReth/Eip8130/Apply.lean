import NodeReth.Eip8130.Authorize

/-!
# Applying account changes

The writes of an authorized change (`apply.rs`): the operations of a signed batch, which work on the
storage and on an account state that the caller loads and writes back, and the creation of an
account at the address that its entry determines. Storage faults are left out; a rejected change is
an error, and its caller drops what was written.
-/

namespace NodeReth.Eip8130

open Bytes Fallible AccountConfigurationStorage

/-! ## Results -/

structure CreatedAccount where
  address : Address
  code : Bytes

structure DelegationEffect where
  account : Address
  target : Address

/-- Code writes that are left to the execution layer. -/
structure AppliedAccountChanges where
  created : Option CreatedAccount
  delegation : Option DelegationEffect

def u32SaturatingAdd (a b : ℕ) : ℕ := min (a + b) (2 ^ 32 - 1)

/-- `ActorAuthorized.actorData`. -/
def packActorData (config : ActorConfig) (manager : Address) (commitment : B256)
    (policyAttached : Bool) : Bytes :=
  config.authenticator.val ++ toBe 6 config.expiry.toNat ++ toBe 2 config.scope.toNat ++ toBe 4 0 ++
    if policyAttached then manager.val ++ commitment.val else []

namespace AccountChangeApplier

/-! ## Actors -/

/-- Empty data attaches no policy; otherwise it is a manager and a commitment. -/
def slicePolicy (policyData : Bytes) : Except ApplyError (Address × B256) :=
  if policyData = [] then .ok (FixedBytes.zero 20, FixedBytes.zero 32)
  else if h : policyData.length ≠ policyDataLen then .error .invalidPolicyData
  else
    have hlen : policyData.length = 52 := not_not.mp h
    .ok (addressAt policyData 0 (by omega),
      ⟨(policyData.drop 20).take 32, by rw [List.length_take, List.length_drop]; omega⟩)

def policyAttached (policyData : Bytes) : Bool := !policyData.isEmpty

variable (storage : AccountConfigurationStorage)

/-- The policy slots are written and the event is emitted for every authorized actor. -/
def finishAuthorize (account : Address) (actorId : B256) (config : ActorConfig)
    (policyData : Bytes) (policy : Address × B256) : AccountConfigurationStorage :=
  (storage.setPolicy account actorId policy.1 policy.2).emitEvent
    (.actorAuthorized account actorId
      (packActorData config policy.1 policy.2 (policyAttached policyData)))

def authorizeNonSelfActor (account : Address) (actorId : B256) (config : ActorConfig)
    (policyData : Bytes) : Except ApplyError AccountConfigurationStorage := do
  failIf (actorId = FixedBytes.zero 32) .invalidActorId
  failIf (config.authenticator = FixedBytes.zero 20) .invalidAuthenticator
  let policy ← slicePolicy policyData
  return finishAuthorize (storage.setActorConfig account actorId config) account actorId config
    policyData policy

/-- The inline key, moved to the account state. -/
def inlineSelf (state : AccountState) (config : ActorConfig) : AccountState :=
  { state with
    defaultEoaScope := config.scope
    defaultEoaExpiry := config.expiry
    flags := state.flags &&& ~~~defaultEoaRevoked }

def disableInlineSelf (state : AccountState) : AccountState :=
  { state with
    flags := state.flags ||| defaultEoaRevoked
    defaultEoaScope := 0
    defaultEoaExpiry := 0 }

/-- The actor of the account itself lives either in the account state, under secp256k1, or in the
configuration, under another authenticator; writing one clears the other. -/
def authorizeActorWithAccountState (account : Address) (actorId : B256) (config : ActorConfig)
    (policyData : Bytes) (state : AccountState) :
    Except ApplyError (AccountConfigurationStorage × AccountState) := do
  failIf (config.authenticator = FixedBytes.zero 20) .invalidAuthenticator
  if actorId ≠ selfActorId account then
    let storage ← authorizeNonSelfActor storage account actorId config policyData
    return (storage, state)
  else
    let policy ← slicePolicy policyData
    if config.authenticator = k1Authenticator then
      return (finishAuthorize (storage.clearActorConfig account actorId) account actorId config
        policyData policy, inlineSelf state config)
    else
      return (finishAuthorize (storage.setActorConfig account actorId config) account actorId config
        policyData policy, disableInlineSelf state)

def authorizeActor (account : Address) (actorId : B256) (config : ActorConfig)
    (policyData : Bytes) : Except ApplyError AccountConfigurationStorage :=
  if actorId = selfActorId account then do
    let (storage, state) ← authorizeActorWithAccountState storage account actorId config policyData
      (storage.getAccountState account)
    return storage.setAccountState account state
  else authorizeNonSelfActor storage account actorId config policyData

/-- While an account is locked, a new actor must outlive the lock, and of an actor in force only the
expiry may change. -/
def enforceLockedAuthorizeRules (account : Address) (actorId : B256) (config : ActorConfig)
    (policyData : Bytes) (state : AccountState) (now : UInt64) : Except ApplyError Unit := do
  failIf (config.expiry ≠ 0 ∧ config.expiry ≤ state.unlockFloor now) .expiryDoesNotOutliveUnlock
  let current := storage.resolveLiveActorConfigWithState account actorId state now
  if ¬current.isEmpty then
    let policy ← slicePolicy policyData
    failIf (config.authenticator ≠ current.authenticator ∨ config.scope ≠ current.scope ∨
      policy.1 ≠ storage.getPolicyManager account actorId ∨
      policy.2 ≠ storage.getPolicyCommitment account actorId) .accountIsLocked

def revokeExplicitActor (account : Address) (actorId : B256) (config : ActorConfig) :
    AccountConfigurationStorage :=
  if config.authenticator = FixedBytes.zero 20 then storage
  else ((storage.clearActorConfig account actorId).clearPolicy account actorId).emitEvent
    (.actorRevoked account actorId)

/-- Also returns how many of the three slots of the actor were empty. -/
def revokeActorWithAccountState (account : Address) (actorId : B256) (state : AccountState) :
    AccountConfigurationStorage × AccountState × ℕ :=
  let config := storage.actorConfigSlot account actorId
  let isSelf := actorId = selfActorId account
  if config.authenticator ≠ FixedBytes.zero 20 then
    (revokeExplicitActor storage account actorId config,
      if isSelf then disableInlineSelf state else state, 0)
  else if ¬isSelf ∨ state.defaultEoaRevoked then (storage, state, 3)
  else
    let emptySlots := 1 +
      (if storage.getPolicyManager account actorId = FixedBytes.zero 20 then 1 else 0) +
      (if storage.getPolicyCommitment account actorId = FixedBytes.zero 32 then 1 else 0)
    (((storage.clearActorConfig account actorId).clearPolicy account actorId).emitEvent
      (.actorRevoked account actorId), disableInlineSelf state, emptySlots)

/-! ## Signed batches -/

variable (env : Env)

def decodeAuthorize (payload : Bytes) : Except ApplyError (B256 × ActorConfig × Bytes) := do
  let (actorId, abi, policyData) ← orFail (env.abiDecodeAuthorize payload) .malformedAuthorizeData
  return (actorId, ⟨abi.authenticator, UInt64.ofNat abi.expiry.toNat, abi.scope⟩, policyData)

def decodeRevoke (payload : Bytes) : Except ApplyError B256 :=
  orFail (env.abiDecodeRevoke payload) .malformedRevokeData

def advanceChannelSequence (channel : AccountChangeChannel) (sequence : UInt64)
    (state : AccountState) : Except ApplyError AccountState :=
  match channel with
  | .localChain =>
    let seq := sequence.toUInt32
    if seq ≠ unsequenced then do
      failIf (seq.toUInt64 = 0xffffffffffffffff) .sequenceSaturated
      return { state with localSequence := seq.toUInt64 + 1 }
    else if ¬state.isInitialized then .ok { state with localSequence := 1 }
    else .ok state
  | .multichain => do
    failIf (state.multichainSequence = 0xffffffffffffffff) .sequenceSaturated
    return { state with multichainSequence := state.multichainSequence + 1 }

def applyIncrementLocalEpoch (payload : Bytes) (state : AccountState) :
    Except ApplyError AccountState := do
  failIf (payload ≠ []) .invalidChangePayload
  failIf (state.localEpoch = 0xffffffff) .epochSaturated
  return { state with localEpoch := state.localEpoch + 1, localSequence := 0 }

/-- The storage and the account state in the course of a batch, and the empty slots so far. -/
structure Batch where
  storage : AccountConfigurationStorage
  state : AccountState
  revokeDiscountSlots : ℕ

def applyChange (account : Address) (isUnsequenced locked : Bool) (now : UInt64) (b : Batch)
    (change : SignedChange) : Except ApplyError Batch :=
  match change.changeType with
  | .authorizeActor => do
    let (actorId, config, policyData) ← decodeAuthorize env change.payload
    -- a batch that can be replayed must not bring back a grant that has lapsed
    if isUnsequenced ∧ config.isExpired now then return b
    else
      if locked then
        enforceLockedAuthorizeRules b.storage account actorId config policyData b.state now
      let (storage, state) ← authorizeActorWithAccountState b.storage account actorId config
        policyData b.state
      return { b with storage, state }
  | .revokeActor => do
    failIf (locked = true) .accountIsLocked
    let actorId ← decodeRevoke env change.payload
    let (storage, state, slots) := revokeActorWithAccountState b.storage account actorId b.state
    return ⟨storage, state, u32SaturatingAdd b.revokeDiscountSlots slots⟩
  | .incrementLocalEpoch => do
    let state ← applyIncrementLocalEpoch change.payload b.state
    return { b with state }
  | .lock => .error .unknownChangeType
  | .unlock => .error .unknownChangeType

def applyConfigChangeWithAccountState (storage : AccountConfigurationStorage) (account : Address)
    (changes : List SignedChange) (channel : AccountChangeChannel) (sequence : UInt64)
    (state : AccountState) (now : UInt64) : Except ApplyError Batch := do
  failIf (changes = []) .emptyChangeSet
  let state ← advanceChannelSequence channel sequence state
  let isUnsequenced := channel = .localChain && sequence.toUInt32 = unsequenced
  changes.foldlM (applyChange env account isUnsequenced (state.isLocked now) now) ⟨storage, state, 0⟩

/-! ## Creation -/

def validateCreateRuntime (bytecode : Bytes) : Except ApplyError Unit := do
  failIf (bytecode = []) .emptyBytecode
  failIf (bytecode.length > maxCodeSize) .createCodeExceedsMaxSize
  failIf (bytecode.getD 0 0 = 0xef) .createCodeStartsWithEf

/-- A loader that returns the bytecode. -/
def buildDeploymentCode (bytecode : Bytes) : Except ApplyError Bytes := do
  let n := bytecode.length
  failIf (n = 0) .emptyBytecode
  failIf (n > 0xffff) .bytecodeTooLarge
  let hi := UInt8.ofNat (n / 256)
  let lo := UInt8.ofNat n
  return [0x61, hi, lo, 0x60, 0x0e, 0x60, 0x00, 0x39, 0x61, hi, lo, 0x60, 0x00, 0xf3] ++ bytecode

def actorsCommitment (initialActors : List InitialActor) : B256 :=
  env.keccak256 (initialActors.flatMap fun actor =>
    (env.keccak256 (actor.actorId.val ++ actor.authenticator.val ++ toBe 2 actor.scope.toNat ++
      actor.policyData)).val)

def effectiveSalt (userSalt : B256) (initialActors : List InitialActor) : B256 :=
  env.keccak256 (userSalt.val ++ (actorsCommitment env initialActors).val)

def computeAddress (userSalt : B256) (code : Bytes) (initialActors : List InitialActor) :
    Except ApplyError Address := do
  let effectiveSalt := effectiveSalt env userSalt initialActors
  let codeHash := env.keccak256 (← buildDeploymentCode code)
  let hash := env.keccak256 (0xff :: (accountConfig.val ++ effectiveSalt.val ++ codeHash.val))
  return hash.sub 12 20 address_in_word

/-- One initial actor; the ids must ascend. -/
def initializeActor (account : Address) (p : B256 × AccountConfigurationStorage)
    (actor : InitialActor) : Except ApplyError (B256 × AccountConfigurationStorage) := do
  failIf (ofBe actor.actorId.val ≤ ofBe p.1.val) .actorsNotSortedOrDuplicate
  let storage ← authorizeActor p.2 account actor.actorId ⟨actor.authenticator, 0, actor.scope⟩
    actor.policyData
  return (actor.actorId, storage)

def initializeActors (account : Address) (initialActors : List InitialActor) :
    Except ApplyError AccountConfigurationStorage := do
  failIf (initialActors = []) .noInitialActors
  let (_, storage) ← initialActors.foldlM (initializeActor account) (FixedBytes.zero 32, storage)
  return storage

def createdState (state : AccountState) : AccountState :=
  { state with localSequence := 1, flags := defaultEoaRevoked }

def applyCreate (storage : AccountConfigurationStorage) (entry : CreateEntry) :
    Except ApplyError (AccountConfigurationStorage × CreatedAccount) := do
  validateCreateRuntime entry.code
  let address ← computeAddress env entry.userSalt entry.code entry.initialActors
  let state := storage.getAccountState address
  failIf (state.isInitialized = true) (.alreadyInitialized address)
  let storage := storage.setAccountState address (createdState state)
  let storage ← initializeActors storage address entry.initialActors
  return (storage.emitEvent (.accountCreated address entry.userSalt (env.keccak256 entry.code)),
    ⟨address, entry.code⟩)

end AccountChangeApplier

end NodeReth.Eip8130
