import NodeReth.Eip8130.Codec
import NodeReth.Eip8130.Storage
import NodeReth.Lib.Fallible

/-!
# Authentication of actors

From an authentication blob to the actor of an account that it proves (`recovered.rs`,
`dispatch.rs`, `authorize.rs`), the admin check of a signed batch (`config.rs`) and the check of the
sender and the payer of a transaction (`verify.rs`). An actor is either the inline secp256k1 key of
the account or an entry of its configuration; the delegate authenticator accepts an admin of another
account, one level deep.
-/

namespace NodeReth.Eip8130

open Bytes Fallible AccountConfigurationStorage

def addressAt (data : Bytes) (i : ℕ) (h : i + 20 ≤ data.length) : Address :=
  ⟨(data.drop i).take 20, by rw [List.length_take, List.length_drop]; omega⟩

/-! ## Signature schemes -/

/-- An address that was recovered from a secp256k1 signature. -/
structure RecoveredActorId where
  address : Address

namespace RecoveredActorId

def recoverK1 (env : Env) (hash : B256) (signature : Bytes) : Except AuthError RecoveredActorId := do
  failIf (signature.length ≠ 65) .malformedAuth
  let v := signature.getD 64 0
  failIf (v ≠ 27 ∧ v ≠ 28) .invalidSignature
  let sig := signature.take 64
  failIf (env.k256FromSlice sig = false) .invalidSignature
  failIf (env.k256HighS sig = true) .invalidSignature
  let key ← orFail (env.k256RecoverFromPrehash hash sig (v - 27)) .invalidSignature
  return ⟨(env.keccak256 key.val).sub 12 20 address_in_word⟩

def recoverEoaSender (env : Env) (signed : Eip8130Signed) :
    Except AuthError (Option RecoveredActorId) := do
  let address ← (signed.recoverEoaSender env).mapError fun _ => .invalidSignature
  return address.map (⟨·⟩)

def actorId (recovered : RecoveredActorId) : B256 := selfActorId recovered.address

end RecoveredActorId

inductive DispatchOutcome
  | authenticated (actorId : B256)
  | delegated (actorId : B256) (delegateAccount : Address)

namespace AuthenticatorDispatch

def addressActorId (address : Address) : B256 := selfActorId address

def ecrecover (env : Env) (hash : B256) (data : Bytes) : Except AuthError B256 := do
  return (← RecoveredActorId.recoverK1 env hash data).actorId

def p256Verify (env : Env) (prehash r s x y : Bytes) : Except AuthError Unit := do
  let sec1 := 0x04 :: (x ++ y)
  failIf (env.p256FromSec1Bytes sec1 = false) .invalidPublicKey
  failIf (env.p256FromSlice (r ++ s) = false) .invalidSignature
  failIf (env.p256HighS (r ++ s) = true) .invalidSignature
  failIf (env.p256VerifyPrehash sec1 prehash (r ++ s) = false) .invalidSignature

def p256 (env : Env) (hash : B256) (data : Bytes) : Except AuthError B256 := do
  failIf (data.length ≠ 129) .malformedAuth
  let x := data.slice 64 96
  let y := data.slice 96 128
  p256Verify env hash.val (data.slice 0 32) (data.slice 32 64) x y
  return env.keccak256 (x ++ y)

/-- Narrows an index to the pointer width. -/
def index (value : BitVec 256) : Except AuthError ℕ := do
  failIf (2 ^ 64 ≤ value.toNat) .malformedAuth
  return value.toNat

def containsAt (haystack : Bytes) (i : BitVec 256) (needle : Bytes) : Except AuthError Unit := do
  let i ← index i
  let stop := i + needle.length
  failIf (2 ^ 64 ≤ stop) .malformedAuth
  failIf (haystack.length < stop ∨ haystack.slice i stop ≠ needle) .invalidSignature

/-- The characters of `"type":"webauthn.get"`. -/
def webauthnType : Bytes :=
  [34, 116, 121, 112, 101, 34, 58, 34, 119, 101, 98, 97, 117, 116, 104, 110, 46, 103, 101, 116, 34]

/-- The characters of `"challenge":"`. -/
def webauthnChallengePrefix : Bytes := [34, 99, 104, 97, 108, 108, 101, 110, 103, 101, 34, 58, 34]

def flagUserPresent : UInt8 := 0x01
def flagBackupEligible : UInt8 := 0x08
def flagBackupState : UInt8 := 0x10

def webauthn (env : Env) (hash : B256) (data : Bytes) : Except AuthError B256 := do
  let decoded ← orFail (env.abiDecodeWebAuthn data) .malformedAuth
  failIf (env.abiEncodeWebAuthn decoded ≠ data) .malformedAuth
  let (auth, x, y) := decoded
  let authData := auth.authenticatorData
  failIf (authData.length ≤ 36) .invalidSignature
  containsAt auth.clientDataJSON auth.typeIndex webauthnType
  let expected := webauthnChallengePrefix ++ env.base64Url hash.val ++ [34]
  containsAt auth.clientDataJSON auth.challengeIndex expected
  let flags := authData.getD 32 0
  failIf (flags &&& flagUserPresent ≠ flagUserPresent) .invalidSignature
  failIf (flags &&& flagBackupEligible ≠ flagBackupEligible ∧ flags &&& flagBackupState ≠ 0)
    .invalidSignature
  let clientHash := env.sha256 auth.clientDataJSON
  let signed := env.sha256 (authData ++ clientHash.val)
  p256Verify env signed.val auth.r.val auth.s.val x.val y.val
  return env.keccak256 (x.val ++ y.val)

/-- Only the structure: the nested signature is left to the caller. -/
def delegate (data : Bytes) : Except AuthError DispatchOutcome :=
  if h : data.length < 40 then .error .malformedAuth
  else do
    let delegateAccount := addressAt data 0 (by omega)
    let nestedAuthenticator := addressAt data 20 (by omega)
    failIf (nestedAuthenticator = delegateAuthenticator) .nestedDelegate
    return .delegated (addressActorId delegateAccount) delegateAccount

def authenticate (env : Env) (hash : B256) (authenticator : Address) (data : Bytes) :
    Except AuthError DispatchOutcome :=
  if authenticator = k1Authenticator then do return .authenticated (← ecrecover env hash data)
  else if authenticator = p256Authenticator then do return .authenticated (← p256 env hash data)
  else if authenticator = webauthnAuthenticator then do
    return .authenticated (← webauthn env hash data)
  else if authenticator = delegateAuthenticator then delegate data
  else .error (.notCanonical authenticator)

end AuthenticatorDispatch

/-! ## Actors of an account -/

/-- What an actor may do. -/
structure ResolvedActor where
  actorId : B256
  scope : UInt16
  policyTarget : Address
  expiry : UInt64
  deriving DecidableEq

namespace ResolvedActor

def isAdmin (a : ResolvedActor) : Bool := a.scope = 0

def canUseNonceKey (a : ResolvedActor) (nonceKey : BitVec 256) : Bool :=
  a.scope = scopeUnrestricted || nonceKey = nonceKeyMax || a.scope &&& scopeNonce ≠ 0

end ResolvedActor

namespace Operation

def isGrantedBy (operation : Operation) (scope : UInt16) : Bool :=
  match operation with
  | config => scope = scopeUnrestricted
  | sender =>
    scope = scopeUnrestricted || scope &&& scopeOperator ≠ 0 || scope &&& scopePolicy ≠ 0
  | selfPayer => scope = scopeUnrestricted || scope &&& scopeSelfPayer ≠ 0
  | sponsorPayer => scope = scopeUnrestricted || scope &&& scopeSponsorPayer ≠ 0

def isGranted (operation : Operation) (actor : ResolvedActor) : Bool :=
  operation.isGrantedBy actor.scope

end Operation

namespace ActorAuthorizer

variable (storage : AccountConfigurationStorage)

/-- The tail that all entries of the configuration share: the entry must name the authenticator and
must not have expired. -/
def resolveBound (account : Address) (actorId : B256) (authenticator : Address) (now : UInt64) :
    Except AuthorizeError ResolvedActor := do
  failIf (actorId = FixedBytes.zero 32) .authenticationFailed
  let config := storage.actorConfigSlot account actorId
  failIf (config.authenticator ≠ authenticator) (.authenticatorMismatch actorId authenticator)
  failIf (config.expiry ≠ 0 ∧ now > config.expiry) (.actorExpired actorId config.expiry)
  let policyTarget :=
    if senderIsPolicyGated config.scope then storage.getPolicyManager account actorId
    else FixedBytes.zero 20
  return ⟨actorId, config.scope, policyTarget, config.expiry⟩

/-- A recovered secp256k1 signer. The key of the account itself is inline in the account state, which
the caller may have loaded already. -/
def authorizeK1WithAccountState (account : Address) (recovered : RecoveredActorId) (now : UInt64)
    (accountState : Option AccountState) : Except AuthorizeError ResolvedActor :=
  let recovered := recovered.actorId
  if recovered = selfActorId account then do
    let state := accountState.getD (storage.getAccountState account)
    failIf (state.defaultEoaRevoked = true) (.defaultEoaRevoked account)
    failIf (state.defaultEoaExpiry ≠ 0 ∧ now > state.defaultEoaExpiry)
      (.actorExpired recovered state.defaultEoaExpiry)
    let policyTarget :=
      if senderIsPolicyGated state.defaultEoaScope then storage.getPolicyManager account recovered
      else FixedBytes.zero 20
    return ⟨recovered, state.defaultEoaScope, policyTarget, state.defaultEoaExpiry⟩
  else resolveBound storage account recovered k1Authenticator now

def authorizeK1 (account : Address) (recovered : RecoveredActorId) (now : UInt64) :
    Except AuthorizeError ResolvedActor :=
  authorizeK1WithAccountState storage account recovered now none

mutual

/-- An authentication blob is the address of an authenticator and what is meant for it. -/
def authenticateActorWithAccountState (env : Env) (storage : AccountConfigurationStorage)
    (account : Address) (hash : B256) (auth : Bytes) (now : UInt64)
    (accountState : Option AccountState) : Except AuthorizeError ResolvedActor :=
  if h : auth.length < 20 then .error (.authenticate .malformedAuth)
  else
    authenticate env storage account hash (addressAt auth 0 (by omega)) (auth.drop 20) now accountState
termination_by 2 * auth.length

/-- A delegate re-enters on the account that is delegated to, whose own state is loaded, and must
find an admin there. -/
def authenticate (env : Env) (storage : AccountConfigurationStorage) (account : Address)
    (hash : B256) (authenticator : Address) (data : Bytes) (now : UInt64)
    (accountState : Option AccountState) : Except AuthorizeError ResolvedActor :=
  if authenticator = k1Authenticator then do
    let recovered ← (RecoveredActorId.recoverK1 env hash data).mapError .authenticate
    authorizeK1WithAccountState storage account recovered now accountState
  else do
    match ← (AuthenticatorDispatch.authenticate env hash authenticator data).mapError
      .authenticate with
    | .authenticated actorId => resolveBound storage account actorId authenticator now
    | .delegated actorId delegateAccount =>
      failIf ((data.drop 20).take 20 = delegateAuthenticator.val) (.authenticate .nestedDelegate)
      let nested ← authenticateActorWithAccountState env storage delegateAccount hash
        (data.drop 20) now none
      failIf (nested.scope ≠ 0) (.nestedSignatureScope nested.actorId)
      resolveBound storage account actorId delegateAuthenticator now
termination_by 2 * data.length + 1

end

def authenticateActor (env : Env) (storage : AccountConfigurationStorage) (account : Address)
    (hash : B256) (auth : Bytes) (now : UInt64) : Except AuthorizeError ResolvedActor :=
  authenticateActorWithAccountState env storage account hash auth now none

end ActorAuthorizer

/-! ## Signed batches -/

namespace ConfigChangeAuthorizer

def signedAccountChangesTypehash : B256 :=
  fixedBe 32 0xbee0c72c3efba751405b4c241f52736439f7e1e2a804925d36ddc9a6e1aa3614

def accountChangeTypehash : B256 :=
  fixedBe 32 0x681f8ef00ffa856a78cc6a384ed51300e5805fdf59f4567ee51634dc39e0cb43

/-- The word of a batch must be the next one of its channel. -/
def checkChannelSequence (change : SignedAccountChanges) (state : AccountState) :
    Except TxAuthError Unit :=
  match change.channel with
  | .localChain => do
    failIf (change.epoch ≠ state.localEpoch) (.staleEpoch state.localEpoch change.epoch)
    if change.seq ≠ unsequenced then
      failIf (change.seq.toUInt64 ≠ state.localSequence)
        (.badSequence state.localSequence change.seq.toUInt64)
      failIf (change.seq ≥ unsequenced - 1) .sequenceSaturated
  | .multichain => do
    failIf (change.sequence ≠ state.multichainSequence)
      (.badSequence state.multichainSequence change.sequence)
    failIf (change.sequence = 0xffffffffffffffff) .sequenceSaturated

/-- What an operation contributes to the digest. -/
def changeLeaf (env : Env) (op : SignedChange) : Bytes :=
  accountChangeTypehash.val ++ toBe 32 op.changeType.opByte.toNat ++ (env.keccak256 op.payload).val

/-- What the signature of a batch covers; the multichain channel is bound to chain 0. -/
def changesDigest (env : Env) (account : Address) (localChainId : UInt64)
    (change : SignedAccountChanges) : B256 :=
  let chainId := if change.channel.isLocal then localChainId else 0
  let changesHash := env.keccak256
    (change.changes.flatMap fun op => (env.keccak256 (changeLeaf env op)).val)
  env.keccak256 (signedAccountChangesTypehash.val ++ (List.replicate 12 0 ++ account.val) ++
    toBe 32 chainId.toNat ++ toBe 32 change.sequence.toNat ++ changesHash.val)

def authorizeWithAccountState (env : Env) (storage : AccountConfigurationStorage)
    (account : Address) (localChainId : UInt64) (change : SignedAccountChanges) (now : UInt64)
    (state : AccountState) : Except TxAuthError ResolvedActor := do
  checkChannelSequence change state
  let digest := changesDigest env account localChainId change
  let resolved ← (ActorAuthorizer.authenticateActorWithAccountState env storage account digest
    change.signature now (some state)).mapError .authorize
  failIf (Operation.config.isGranted resolved = false) (.scope .config resolved.scope)
  return resolved

end ConfigChangeAuthorizer

/-! ## Sender and payer -/

/-- An actor and the account it acts for. -/
structure AuthorizedActor where
  account : Address
  resolved : ResolvedActor
  deriving DecidableEq

structure TxActors where
  sender : AuthorizedActor
  /-- Nothing when the sender pays without saying so. -/
  payer : Option AuthorizedActor
  deriving DecidableEq

namespace ActorTxVerifier

def authorizeScoped (env : Env) (storage : AccountConfigurationStorage) (account : Address)
    (hash : B256) (auth : Bytes) (operation : Operation) (now : UInt64) :
    Except TxAuthError ResolvedActor := do
  let resolved ← (ActorAuthorizer.authenticateActor env storage account hash auth now).mapError
    .authorize
  failIf (operation.isGranted resolved = false) (.scope operation resolved.scope)
  return resolved

/-- The recovered signer of a transaction without an explicit sender, unless the caller has it. -/
def recoverSender (env : Env) (signed : Eip8130Signed) (recoveredSender : Option RecoveredActorId) :
    Except TxAuthError RecoveredActorId :=
  match recoveredSender with
  | some recovered => .ok recovered
  | none => do
    let recovered ← (RecoveredActorId.recoverEoaSender env signed).mapError fun _ => .senderRecovery
    orFail recovered .senderRecovery

def verifySender (env : Env) (signed : Eip8130Signed) (storage : AccountConfigurationStorage)
    (now : UInt64) (recoveredSender : Option RecoveredActorId) :
    Except TxAuthError AuthorizedActor :=
  match signed.explicitSender with
  | some account => do
    let resolved ← authorizeScoped env storage account (signed.tx.senderSignatureHash env)
      signed.senderAuth .sender now
    failIf (resolved.canUseNonceKey signed.tx.nonceKey = false) (.scope .sender resolved.scope)
    return ⟨account, resolved⟩
  | none => do
    let recovered ← recoverSender env signed recoveredSender
    let account := recovered.address
    let resolved ← (ActorAuthorizer.authorizeK1 storage account recovered now).mapError .authorize
    failIf (Operation.sender.isGranted resolved = false) (.scope .sender resolved.scope)
    failIf (resolved.canUseNonceKey signed.tx.nonceKey = false) (.scope .sender resolved.scope)
    return ⟨account, resolved⟩

def verifyWithRecoveredSender (env : Env) (signed : Eip8130Signed)
    (storage : AccountConfigurationStorage) (now : UInt64)
    (recoveredSender : Option RecoveredActorId) : Except TxAuthError TxActors := do
  let sender ← verifySender env signed storage now recoveredSender
  match signed.tx.payer with
  | none =>
    failIf (Operation.selfPayer.isGranted sender.resolved = false)
      (.scope .selfPayer sender.resolved.scope)
    return ⟨sender, none⟩
  | some account =>
    let hash := signed.tx.payerSignatureHash env sender.account
    let operation := if account = sender.account then Operation.selfPayer else .sponsorPayer
    let resolved ← authorizeScoped env storage account hash signed.payerAuth operation now
    return ⟨sender, some ⟨account, resolved⟩⟩

end ActorTxVerifier

end NodeReth.Eip8130
