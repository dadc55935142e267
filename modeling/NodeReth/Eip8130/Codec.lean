import NodeReth.Eip8130.Types
import NodeReth.Lib.RlpReader

/-!
# Encoders and decoders of transactions

The code behind the wire format (`account_changes.rs`, `call.rs`, `tx.rs`, `signed.rs`): functions
that predict the length of an encoding, encoders that write a header with a predicted length and
then the fields, decoders that check the announced length against what the fields took up, the
hashes that the sender and the payer sign, the replay identifier, the typed envelope, its form inside
of another RLP structure, and the compact form of the database.
Lengths of the library's own types are the lengths of their encodings.
-/

namespace NodeReth.Eip8130

open Bytes RlpFormat Readers

def maxCallPhasesPerTx : ℕ := 1024

def replayIdType : Bytes := [0x79, 0x01]

/-! ## Lists -/

def vecLength {α : Type} (length : α → ℕ) (l : List α) : ℕ :=
  lengthOfLength (l.map length).sum + (l.map length).sum

/-- The items behind a header with the sum of their predicted lengths. -/
def vecEncode {α : Type} (length : α → ℕ) (encode : α → Bytes → Bytes) (l : List α) (out : Bytes) :
    Bytes :=
  l.foldl (fun out a => encode a out) (out ++ header 0xc0 (l.map length).sum)

/-! ## Numbers -/

def readU8 : Reader RlpError UInt8 := UInt8.ofNat <$> readUint 1
def readU16 : Reader RlpError UInt16 := UInt16.ofNat <$> readUint 2
def readU64 : Reader RlpError UInt64 := UInt64.ofNat <$> readUint 8
def readU128 : Reader RlpError (BitVec 128) := BitVec.ofNat 128 <$> readUint 16
def readU256 : Reader RlpError (BitVec 256) := BitVec.ofNat 256 <$> readUint 32

/-! ## Account changes -/

namespace InitialActor

def rlpPayloadLength (a : InitialActor) : ℕ :=
  (writeString a.actorId.val).length + (writeString a.authenticator.val).length +
    (writeNat a.scope.toNat).length + (writeString a.policyData).length

def length (a : InitialActor) : ℕ := lengthOfLength a.rlpPayloadLength + a.rlpPayloadLength

def encodeInto (a : InitialActor) (out : Bytes) : Bytes :=
  out ++ header 0xc0 a.rlpPayloadLength ++ writeString a.actorId.val ++
    writeString a.authenticator.val ++ writeNat a.scope.toNat ++ writeString a.policyData

def decodeFields : Reader RlpError InitialActor := do
  let actorId ← readFixed 32
  let authenticator ← readFixed 20
  let scope ← readU16
  let policyData ← readBytes false
  return { actorId, authenticator, scope, policyData }

def decode : Reader RlpError InitialActor := readFramed decodeFields

end InitialActor

def ChangeType.fromOpByte (byte : UInt8) : Option ChangeType :=
  if byte = 0x00 then some .authorizeActor
  else if byte = 0x01 then some .revokeActor
  else if byte = 0x02 then some .incrementLocalEpoch
  else if byte = 0x03 then some .lock
  else if byte = 0x04 then some .unlock
  else none

def AccountChangeChannel.fromByte (byte : UInt8) : Option AccountChangeChannel :=
  if byte = 0x00 then some .localChain
  else if byte = 0x01 then some .multichain
  else none

namespace SignedChange

def rlpFieldsLen (c : SignedChange) : ℕ :=
  (writeNat c.changeType.opByte.toNat).length + (writeString c.payload).length

def length (c : SignedChange) : ℕ := lengthOfLength c.rlpFieldsLen + c.rlpFieldsLen

def encodeInto (c : SignedChange) (out : Bytes) : Bytes :=
  out ++ header 0xc0 c.rlpFieldsLen ++ writeNat c.changeType.opByte.toNat ++ writeString c.payload

def decodeFields : Reader RlpError SignedChange := do
  let op ← readU8
  let changeType ← expect (ChangeType.fromOpByte op) (.custom "invalid SignedChange op byte")
  let payload ← readBytes false
  return { changeType, payload }

def decode : Reader RlpError SignedChange := readFramed decodeFields

end SignedChange

namespace AccountChange

def typeByte : AccountChange → UInt8
  | create _ => 0x00
  | configChange _ => 0x01
  | delegation _ => 0x02

def rlpPayloadLength (a : AccountChange) : ℕ :=
  (writeNat a.typeByte.toNat).length +
    match a with
    | create b =>
      (writeString b.userSalt.val).length + (writeString b.code).length +
        vecLength InitialActor.length b.initialActors
    | configChange b =>
      (writeNat b.channel.byte.toNat).length + (writeNat b.sequence.toNat).length +
        vecLength SignedChange.length b.changes + (writeString b.signature).length
    | delegation target => (writeString target.val).length

def length (a : AccountChange) : ℕ := lengthOfLength a.rlpPayloadLength + a.rlpPayloadLength

def encodeInto (a : AccountChange) (out : Bytes) : Bytes :=
  let out := out ++ header 0xc0 a.rlpPayloadLength ++ writeNat a.typeByte.toNat
  match a with
  | create b =>
    vecEncode InitialActor.length InitialActor.encodeInto b.initialActors
      (out ++ writeString b.userSalt.val ++ writeString b.code)
  | configChange b =>
    vecEncode SignedChange.length SignedChange.encodeInto b.changes
      (out ++ writeNat b.channel.byte.toNat ++ writeNat b.sequence.toNat) ++ writeString b.signature
  | delegation target => out ++ writeString target.val

def decodeCreate : Reader RlpError CreateEntry := do
  let userSalt ← readFixed 32
  let code ← readBytes false
  let initialActors ← readVec InitialActor.decode
  return { userSalt, code, initialActors }

def decodeConfigChange : Reader RlpError SignedAccountChanges := do
  let channelByte ← readU8
  let channel ← expect (AccountChangeChannel.fromByte channelByte)
    (.custom "invalid SignedAccountChanges channel byte")
  let sequence ← readU64
  let changes ← readVec SignedChange.decode
  let signature ← readBytes false
  return { channel, sequence, changes, signature }

def decodeFields : Reader RlpError AccountChange := do
  let typeByte ← readU8
  if typeByte = 0x00 then create <$> decodeCreate
  else if typeByte = 0x01 then configChange <$> decodeConfigChange
  else if typeByte = 0x02 then delegation <$> readFixed 20
  else throw (.custom "invalid AccountChange type byte")

def decode : Reader RlpError AccountChange := readFramed decodeFields

end AccountChange

/-! ## Calls -/

namespace Call

def rlpPayloadLength (c : Call) : ℕ :=
  (writeString c.toAddress.val).length + (writeString c.data).length

def length (c : Call) : ℕ := lengthOfLength c.rlpPayloadLength + c.rlpPayloadLength

def encodeInto (c : Call) (out : Bytes) : Bytes :=
  out ++ header 0xc0 c.rlpPayloadLength ++ writeString c.toAddress.val ++ writeString c.data

def decodeFields : Reader RlpError Call := do
  let toAddress ← readFixed 20
  let data ← readBytes false
  return { toAddress, data }

def decode : Reader RlpError Call := readFramed decodeFields

end Call

/-! ## Transactions -/

namespace TxEip8130

def addressOptEncodedLength : Option Address → ℕ
  | none => 1
  | some _ => 21

def decodeAddressOpt : Reader RlpError (Option Address) := do
  let raw ← readBytes false
  if raw.length = 0 then return none
  else some <$> expect (FixedBytes.tryFrom 20 raw) (.custom "invalid Option<Address> length")

def encodeCalls (calls : List (List Call)) (out : Bytes) : Bytes :=
  vecEncode (vecLength Call.length) (vecEncode Call.length Call.encodeInto) calls out

def callsEncodedLength (calls : List (List Call)) : ℕ := vecLength (vecLength Call.length) calls

/-- The phases in a payload, of which there may not be too many. -/
def decodePhases : ℕ → List (List Call) → Bytes → Except RlpError (List (List Call))
  | 0, phases, payload => if payload = [] then .ok phases else .error .overflow
  | fuel + 1, phases, payload =>
    if payload = [] then .ok phases
    else if maxCallPhasesPerTx ≤ phases.length then .error (.custom "too many EIP-8130 call phases")
    else do
      let (phase, rest) ← readVec Call.decode payload
      decodePhases fuel (phases ++ [phase]) rest

def decodeCalls : Reader RlpError (List (List Call)) := do
  let (list, n) ← decodeHeader
  rejectIf (list = false) .unexpectedString
  let b ← get
  rejectIf (b.length < n) .inputTooShort
  let phases ← liftM (decodePhases n [] (b.take n))
  set (b.drop n)
  return phases

def rlpEncodedFieldsLengthWithSender (tx : TxEip8130) (sender : Option Address) : ℕ :=
  (writeNat tx.chainId.toNat).length + addressOptEncodedLength sender +
    (writeNat tx.nonceKey.toNat).length + (writeNat tx.nonceSequence.toNat).length +
    (writeNat tx.validAfter.toNat).length + (writeNat tx.validBefore.toNat).length +
    (writeNat tx.maxPriorityFeePerGas.toNat).length + (writeNat tx.maxFeePerGas.toNat).length +
    (writeNat tx.gasLimit.toNat).length + vecLength AccountChange.length tx.accountChanges +
    callsEncodedLength tx.calls + (writeString tx.metadata).length +
    addressOptEncodedLength tx.payer

def rlpEncodedFieldsLength (tx : TxEip8130) : ℕ := tx.rlpEncodedFieldsLengthWithSender tx.sender

def rlpEncodeFieldsInto (tx : TxEip8130) (sender : Option Address) (out : Bytes) : Bytes :=
  let out := out ++ writeNat tx.chainId.toNat ++ encodeAddressOpt sender ++
    writeNat tx.nonceKey.toNat ++ writeNat tx.nonceSequence.toNat ++ writeNat tx.validAfter.toNat ++
    writeNat tx.validBefore.toNat ++ writeNat tx.maxPriorityFeePerGas.toNat ++
    writeNat tx.maxFeePerGas.toNat ++ writeNat tx.gasLimit.toNat
  let out := vecEncode AccountChange.length AccountChange.encodeInto tx.accountChanges out
  encodeCalls tx.calls out ++ writeString tx.metadata ++ encodeAddressOpt tx.payer

def rlpDecodeFields : Reader RlpError TxEip8130 := do
  let chainId ← readU64
  let sender ← decodeAddressOpt
  let nonceKey ← readU256
  let nonceSequence ← readU64
  let validAfter ← readU64
  let validBefore ← readU64
  let maxPriorityFeePerGas ← readU128
  let maxFeePerGas ← readU128
  let gasLimit ← readU64
  let accountChanges ← readVec AccountChange.decode
  let calls ← decodeCalls
  let metadata ← readBytes false
  let payer ← decodeAddressOpt
  return {
    chainId, sender, nonceKey, nonceSequence, validAfter, validBefore, maxPriorityFeePerGas,
    maxFeePerGas, gasLimit, accountChanges, calls, metadata, payer }

def rlpEncode (tx : TxEip8130) (out : Bytes) : Bytes :=
  tx.rlpEncodeFieldsInto tx.sender (out ++ header 0xc0 tx.rlpEncodedFieldsLength)

def senderSignatureHash (env : Env) (tx : TxEip8130) : B256 :=
  env.keccak256 (tx.rlpEncode [eip8130TxType])

/-- The payer signs the body with the resolved sender in its place. -/
def payerSignatureHash (env : Env) (tx : TxEip8130) (resolvedSender : Address) : B256 :=
  let sender := some resolvedSender
  let payloadLength := tx.rlpEncodedFieldsLengthWithSender sender
  env.keccak256 (tx.rlpEncodeFieldsInto sender ([eip8130PayerType] ++ header 0xc0 payloadLength))

/-- What identifies a nonce-free transaction: fees, nonces and signatures are left out. -/
def replayId (env : Env) (tx : TxEip8130) (resolvedSender : Address) : B256 :=
  let payloadLength := (writeNat tx.chainId.toNat).length + (writeString resolvedSender.val).length +
    (writeNat tx.validAfter.toNat).length + (writeNat tx.validBefore.toNat).length +
    vecLength AccountChange.length tx.accountChanges + callsEncodedLength tx.calls +
    (writeString tx.metadata).length + addressOptEncodedLength tx.payer
  let out := replayIdType ++ header 0xc0 payloadLength ++ writeNat tx.chainId.toNat ++
    writeString resolvedSender.val ++ writeNat tx.validAfter.toNat ++ writeNat tx.validBefore.toNat
  let out := vecEncode AccountChange.length AccountChange.encodeInto tx.accountChanges out
  env.keccak256 (encodeCalls tx.calls out ++ writeString tx.metadata ++ encodeAddressOpt tx.payer)

end TxEip8130

/-! ## Envelopes -/

inductive Eip2718Error
  | unexpectedType (ty : UInt8)
  | rlpError (e : RlpError)

namespace Eip8130Signed

/-- The signer of a transaction without an explicit sender: an error for a blob that is not
`r || s || v` with `v` 27 or 28 or that does not recover, nothing when there is a sender. -/
def recoverEoaSender (env : Env) (signed : Eip8130Signed) : Except Unit (Option Address) :=
  if signed.tx.sender.isSome then .ok none
  else
    let raw := signed.senderAuth
    if raw.length ≠ 65 ∨ ¬(raw.getD 64 0 = 27 ∨ raw.getD 64 0 = 28) then .error ()
    else
      match env.recoverSigner raw (signed.tx.senderSignatureHash env) with
      | some signer => .ok (some signer)
      | none => .error ()

variable (signed : Eip8130Signed)

def rlpPayloadLength : ℕ :=
  signed.tx.rlpEncodedFieldsLength + (writeString signed.senderAuth).length +
    (writeString signed.payerAuth).length

def rlpEncodeSigned (out : Bytes) : Bytes :=
  signed.tx.rlpEncodeFieldsInto signed.tx.sender (out ++ header 0xc0 signed.rlpPayloadLength) ++
    writeString signed.senderAuth ++ writeString signed.payerAuth

def rlpEncodedSignedLength : ℕ :=
  lengthOfLength signed.rlpPayloadLength + signed.rlpPayloadLength

def rlpDecodeSignedFields : Reader RlpError Eip8130Signed := do
  let tx ← TxEip8130.rlpDecodeFields
  let senderAuth ← readBytes false
  let payerAuth ← readBytes false
  return { tx, senderAuth, payerAuth }

def rlpDecodeSigned : Reader RlpError Eip8130Signed := readFramed rlpDecodeSignedFields

def encode2718Len : ℕ := 1 + signed.rlpEncodedSignedLength

def encode2718 (out : Bytes) : Bytes :=
  signed.rlpEncodeSigned (out ++ [eip8130TxType])

def typedDecode (ty : UInt8) (buf : Bytes) : Except Eip2718Error (Eip8130Signed × Bytes) :=
  if ty ≠ eip8130TxType then .error (.unexpectedType ty)
  else (rlpDecodeSigned buf).mapError .rlpError

def fallbackDecode (_ : Bytes) : Except Eip2718Error (Eip8130Signed × Bytes) :=
  .error (.unexpectedType 0)

/-- A first byte of at most `0x7f` is a type. -/
def decode2718 (buf : Bytes) : Except Eip2718Error (Eip8130Signed × Bytes) :=
  match buf with
  | [] => fallbackDecode []
  | ty :: rest => if ty ≤ 0x7f then typedDecode ty rest else fallbackDecode (ty :: rest)

/-- The envelope as a string inside of another structure. -/
def encode (out : Bytes) : Bytes :=
  signed.encode2718 (out ++ header 0x80 signed.encode2718Len)

def length : ℕ :=
  lengthOfLength signed.encode2718Len + signed.encode2718Len

def decode : Reader RlpError Eip8130Signed := do
  let (list, n) ← decodeHeader
  rejectIf (list = true) (.custom "expected EIP-2718 envelope, got list")
  let b ← get
  rejectIf (b.length < n) .inputTooShort
  set (b.drop n)
  match decode2718 (b.take n) with
  | .error _ => throw (.custom "invalid EIP-8130 envelope")
  | .ok (decoded, payload) =>
    rejectIf (payload ≠ []) (.custom "trailing bytes in EIP-8130 envelope")
    return decoded

end Eip8130Signed

/-! ## Compact form -/

structure CompactTxEip8130Head where
  chainId : UInt64
  sender : Option Address
  nonceKey : BitVec 256
  nonceSequence : UInt64
  validAfter : UInt64
  validBefore : UInt64
  maxPriorityFeePerGas : BitVec 128
  maxFeePerGas : BitVec 128
  gasLimit : UInt64
  payer : Option Address
  tailLen : UInt64
  deriving DecidableEq

/-- The derived compact codec of the head. Its encoder appends to a buffer and returns an identifier,
its decoder takes a length and panics on malformed input. -/
structure CompactHeadCodec where
  toCompact : CompactTxEip8130Head → Bytes
  identifier : CompactTxEip8130Head → ℕ
  fromCompact : Bytes → ℕ → Option (CompactTxEip8130Head × Bytes)

/-- The value of a reader on a whole buffer; a panic on failure or on bytes that are left. -/
def readAll {α : Type} (read : Reader RlpError α) (b : Bytes) : Option α :=
  match read b with
  | .ok (a, []) => some a
  | _ => none

namespace TxEip8130

def compactTail (tx : TxEip8130) : Bytes :=
  let calls := encodeCalls tx.calls []
  let accountChanges := vecEncode AccountChange.length AccountChange.encodeInto tx.accountChanges []
  let tailPayloadLength := (writeString accountChanges).length + (writeString calls).length +
    (writeString tx.metadata).length
  header 0xc0 tailPayloadLength ++ writeString accountChanges ++ writeString calls ++
    writeString tx.metadata

def decodeCompactTailFields : Reader RlpError (Bytes × Bytes × Bytes) := do
  let accountChanges ← readBytes false
  let calls ← readBytes false
  let metadata ← readBytes false
  return (accountChanges, calls, metadata)

def decodeCompactTail (tail : Bytes) : Option (List AccountChange × List (List Call) × Bytes) := do
  let ((accountChanges, calls, metadata), _) ← (readFramed decodeCompactTailFields tail).toOption
  let accountChanges ← readAll (readVec AccountChange.decode) accountChanges
  let calls ← readAll decodeCalls calls
  return (accountChanges, calls, metadata)

def compactHead (tx : TxEip8130) : CompactTxEip8130Head where
  chainId := tx.chainId
  sender := tx.sender
  nonceKey := tx.nonceKey
  nonceSequence := tx.nonceSequence
  validAfter := tx.validAfter
  validBefore := tx.validBefore
  maxPriorityFeePerGas := tx.maxPriorityFeePerGas
  maxFeePerGas := tx.maxFeePerGas
  gasLimit := tx.gasLimit
  payer := tx.payer
  tailLen := UInt64.ofNat tx.compactTail.length

/-- The bytes that are appended, and the identifier. -/
def toCompact (codec : CompactHeadCodec) (tx : TxEip8130) : Bytes × ℕ :=
  (codec.toCompact tx.compactHead ++ tx.compactTail, codec.identifier tx.compactHead)

def fromCompact (codec : CompactHeadCodec) (buf : Bytes) (len : ℕ) : Option (TxEip8130 × Bytes) := do
  let (head, buf) ← codec.fromCompact buf len
  guard (head.tailLen.toNat ≤ buf.length)
  let (accountChanges, calls, metadata) ← decodeCompactTail (buf.take head.tailLen.toNat)
  return ({
    chainId := head.chainId
    sender := head.sender
    nonceKey := head.nonceKey
    nonceSequence := head.nonceSequence
    validAfter := head.validAfter
    validBefore := head.validBefore
    maxPriorityFeePerGas := head.maxPriorityFeePerGas
    maxFeePerGas := head.maxFeePerGas
    gasLimit := head.gasLimit
    accountChanges, calls, metadata
    payer := head.payer }, buf.drop head.tailLen.toNat)

end TxEip8130

namespace Eip8130Signed

def toCompact (codec : CompactHeadCodec) (signed : Eip8130Signed) : Bytes × ℕ :=
  let authPayloadLength := (writeString signed.senderAuth).length +
    (writeString signed.payerAuth).length
  let bytes := (signed.tx.toCompact codec).1 ++ header 0xc0 authPayloadLength ++
    writeString signed.senderAuth ++ writeString signed.payerAuth
  (bytes, bytes.length)

def decodeCompactAuthFields : Reader RlpError (Bytes × Bytes) := do
  let senderAuth ← readBytes false
  let payerAuth ← readBytes false
  return (senderAuth, payerAuth)

def fromCompact (codec : CompactHeadCodec) (buf : Bytes) (len : ℕ) :
    Option (Eip8130Signed × Bytes) := do
  let (tx, buf) ← TxEip8130.fromCompact codec buf len
  let ((senderAuth, payerAuth), rest) ← (readFramed decodeCompactAuthFields buf).toOption
  return ({ tx, senderAuth, payerAuth }, rest)

end Eip8130Signed

end NodeReth.Eip8130
