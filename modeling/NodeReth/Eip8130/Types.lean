import NodeReth.Primitives

/-!
# Account abstraction transactions

Transactions that carry changes to the configuration of their sender
(`consensus/src/transaction/eip8130`): the entries of such a change, the transaction with its two
authentication blobs, and its wire format. The hash functions, the
signature schemes and the ABI decoders are libraries and stand as parameters.
-/

namespace NodeReth.Eip8130

open Bytes RlpFormat

/-! ## Constants -/

def eip8130TxType : UInt8 := 0x79
def eip8130PayerType : UInt8 := 0x7a

def nonceKeyMax : BitVec 256 := BitVec.allOnes 256

def scopeUnrestricted : UInt16 := 0
def scopeOperator : UInt16 := 0x0001
def scopeSelfPayer : UInt16 := 0x0002
def scopeSponsorPayer : UInt16 := 0x0004
def scopePolicy : UInt16 := 0x0008
def scopeNonce : UInt16 := 0x0010

def senderIsPolicyGated (scope : UInt16) : Bool :=
  scope &&& scopePolicy != 0 && scope &&& scopeOperator == 0

/-- The low half of the sequence word of a batch that consumes no counter. -/
def unsequenced : UInt32 := 0xffffffff

def defaultEoaRevoked : UInt8 := 0x01
def flagLocked : UInt8 := 0x02
def flagUnlockInitiated : UInt8 := 0x04

def policyDataLen : ℕ := 52
def maxCodeSize : ℕ := 24576

def k1Authenticator : Address := fixedBe 20 1
def p256Authenticator : Address := fixedBe 20 0x8130C89F65750431b564A4730397552a11CeA256
def webauthnAuthenticator : Address := fixedBe 20 0x813007b6b1b48E75D91dEc5927ab515d12a0F1d0
def delegateAuthenticator : Address := fixedBe 20 0x81301AA52202f8C6b79Cde660440E3c6A7c5ade1

def accountConfig : Address := fixedBe 20 0x813012Bd8D971928475235BBac6F0488c4A100AC

/-! ## Libraries -/

structure ActorConfigAbi where
  authenticator : Address
  expiry : BitVec 48
  scope : UInt16

structure WebAuthnAuth where
  r : B256
  s : B256
  challengeIndex : BitVec 256
  typeIndex : BitVec 256
  authenticatorData : Bytes
  clientDataJSON : Bytes

structure Env where
  keccak256 : Bytes → B256
  sha256 : Bytes → B256
  /-- `URL_SAFE_NO_PAD.encode`. -/
  base64Url : Bytes → Bytes
  /-- Whether 64 bytes are a secp256k1 signature. -/
  k256FromSlice : Bytes → Bool
  /-- Whether `normalize_s` would change a secp256k1 signature. -/
  k256HighS : Bytes → Bool
  /-- `recover_from_prehash`: the coordinates of the key, from hash, signature and recovery id. -/
  k256RecoverFromPrehash : B256 → Bytes → UInt8 → Option (FixedBytes 64)
  /-- `secp256k1::recover_signer` of a 65-byte signature, which rejects a high `s`. -/
  recoverSigner : Bytes → B256 → Option Address
  /-- Whether 65 bytes are a P-256 key. -/
  p256FromSec1Bytes : Bytes → Bool
  /-- Whether 64 bytes are a P-256 signature. -/
  p256FromSlice : Bytes → Bool
  p256HighS : Bytes → Bool
  /-- `verify_prehash`, from key, hash and signature. -/
  p256VerifyPrehash : Bytes → Bytes → Bytes → Bool
  abiDecodeWebAuthn : Bytes → Option (WebAuthnAuth × B256 × B256)
  abiEncodeWebAuthn : WebAuthnAuth × B256 × B256 → Bytes
  /-- `abi_decode_params_validate` of `(bytes32, ActorConfigAbi, bytes)`. -/
  abiDecodeAuthorize : Bytes → Option (B256 × ActorConfigAbi × Bytes)
  /-- `abi_decode_params_validate` of `(bytes32,)`. -/
  abiDecodeRevoke : Bytes → Option B256

/-! ## Account changes -/

structure InitialActor where
  actorId : B256
  authenticator : Address
  scope : UInt16
  policyData : Bytes

inductive ChangeType
  | authorizeActor
  | revokeActor
  | incrementLocalEpoch
  | lock
  | unlock
  deriving DecidableEq

def ChangeType.opByte : ChangeType → UInt8
  | authorizeActor => 0x00
  | revokeActor => 0x01
  | incrementLocalEpoch => 0x02
  | lock => 0x03
  | unlock => 0x04

/-- The replay domain of a batch. -/
inductive AccountChangeChannel
  | localChain
  | multichain
  deriving DecidableEq

def AccountChangeChannel.byte : AccountChangeChannel → UInt8
  | localChain => 0x00
  | multichain => 0x01

def AccountChangeChannel.isLocal : AccountChangeChannel → Bool
  | localChain => true
  | multichain => false

structure SignedChange where
  changeType : ChangeType
  payload : Bytes

structure CreateEntry where
  userSalt : B256
  code : Bytes
  initialActors : List InitialActor

structure SignedAccountChanges where
  channel : AccountChangeChannel
  sequence : UInt64
  changes : List SignedChange
  signature : Bytes

/-- The epoch that a sequence word of the local channel carries. -/
def SignedAccountChanges.epoch (change : SignedAccountChanges) : UInt64 :=
  (change.sequence >>> 32).toUInt32.toUInt64

/-- The sequence number that a sequence word of the local channel carries. -/
def SignedAccountChanges.seq (change : SignedAccountChanges) : UInt32 := change.sequence.toUInt32

inductive AccountChange
  | create (entry : CreateEntry)
  | configChange (change : SignedAccountChanges)
  | delegation (target : Address)

/-! ## Wire format -/

def encodeVec {α : Type} (encode : α → Bytes) (l : List α) : Bytes := writeList (l.flatMap encode)

def InitialActor.encode (a : InitialActor) : Bytes :=
  writeList (writeString a.actorId.val ++ writeString a.authenticator.val ++
    writeNat a.scope.toNat ++ writeString a.policyData)

def SignedChange.encode (c : SignedChange) : Bytes :=
  writeList (writeNat c.changeType.opByte.toNat ++ writeString c.payload)

/-- One list, with the type byte as its first element. -/
def AccountChange.encode : AccountChange → Bytes
  | create b =>
    writeList (writeNat 0 ++ writeString b.userSalt.val ++ writeString b.code ++
      encodeVec InitialActor.encode b.initialActors)
  | configChange b =>
    writeList (writeNat 1 ++ writeNat b.channel.byte.toNat ++ writeNat b.sequence.toNat ++
      encodeVec SignedChange.encode b.changes ++ writeString b.signature)
  | delegation target => writeList (writeNat 2 ++ writeString target.val)

structure Call where
  toAddress : Address
  data : Bytes

def Call.encode (c : Call) : Bytes := writeList (writeString c.toAddress.val ++ writeString c.data)

/-! ## Transactions -/

structure TxEip8130 where
  chainId : UInt64
  /-- The account, or nothing when it is recovered from the signature. -/
  sender : Option Address
  nonceKey : BitVec 256
  nonceSequence : UInt64
  validAfter : UInt64
  validBefore : UInt64
  maxPriorityFeePerGas : BitVec 128
  maxFeePerGas : BitVec 128
  gasLimit : UInt64
  accountChanges : List AccountChange
  calls : List (List Call)
  metadata : Bytes
  payer : Option Address

namespace TxEip8130

def encodeAddressOpt : Option Address → Bytes
  | none => writeString []
  | some a => writeString a.val

def rlpEncodeFieldsWithSender (tx : TxEip8130) (sender : Option Address) : Bytes :=
  writeNat tx.chainId.toNat ++ encodeAddressOpt sender ++ writeNat tx.nonceKey.toNat ++
    writeNat tx.nonceSequence.toNat ++ writeNat tx.validAfter.toNat ++
    writeNat tx.validBefore.toNat ++ writeNat tx.maxPriorityFeePerGas.toNat ++
    writeNat tx.maxFeePerGas.toNat ++ writeNat tx.gasLimit.toNat ++
    encodeVec AccountChange.encode tx.accountChanges ++
    encodeVec (encodeVec Call.encode) tx.calls ++ writeString tx.metadata ++
    encodeAddressOpt tx.payer

end TxEip8130

structure Eip8130Signed where
  tx : TxEip8130
  senderAuth : Bytes
  payerAuth : Bytes

namespace Eip8130Signed

def explicitSender (signed : Eip8130Signed) : Option Address := signed.tx.sender

end Eip8130Signed

/-! ## Errors -/

inductive AuthError
  | malformedAuth
  | notCanonical (authenticator : Address)
  | invalidSignature
  | nestedDelegate
  | invalidPublicKey
  deriving DecidableEq

inductive AuthorizeError
  | authenticate (e : AuthError)
  | authenticationFailed
  | authenticatorMismatch (actorId : B256) (authenticator : Address)
  | defaultEoaRevoked (account : Address)
  | actorExpired (actorId : B256) (expiry : UInt64)
  | nestedSignatureScope (actorId : B256)
  deriving DecidableEq

inductive ApplyError
  | malformedAuthorizeData
  | malformedRevokeData
  | invalidChangePayload
  | epochSaturated
  | unknownChangeType
  | accountIsLocked
  | expiryDoesNotOutliveUnlock
  | emptyChangeSet
  | invalidActorId
  | invalidAuthenticator
  | invalidPolicyData
  | noInitialActors
  | actorsNotSortedOrDuplicate
  | emptyBytecode
  | bytecodeTooLarge
  | createCodeExceedsMaxSize
  | createCodeStartsWithEf
  | alreadyInitialized (account : Address)
  | createAddressMismatch (derived sender : Address)
  | invalidCreatePosition
  | multipleDelegations
  | createAndDelegation
  | sequenceSaturated
  deriving DecidableEq

inductive Operation
  | sender
  | selfPayer
  | sponsorPayer
  | config
  deriving DecidableEq

inductive TxAuthError
  | authorize (e : AuthorizeError)
  | apply (e : ApplyError)
  | senderRecovery
  | scope (operation : Operation) (scope : UInt16)
  | accountIsLocked
  | delegationUnauthorized
  | badSequence (expected got : UInt64)
  | staleEpoch (expected got : UInt64)
  | sequenceSaturated
  deriving DecidableEq

end NodeReth.Eip8130
