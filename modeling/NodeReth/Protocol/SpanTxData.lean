import NodeReth.Consensus.Envelope
import NodeReth.Protocol.SpanBits

/-!
# Transaction data of a span batch

What a span batch keeps of a transaction in one piece (`protocol/src/batch/tx_data/`): value, fees,
calldata and lists as RLP behind a type byte. Nonce, gas limit, recipient and signature stand in
columns of their own; `toSignedTx` puts a transaction together again.

The data of the four older types has fees of 256 bits and their transactions have fees of 128 bits.
The conversion takes the lower half of the bytes and does not look at the upper half.
-/

namespace NodeReth.Span

open Bytes Consensus RlpFormat Readers Fallible
open Eip8130 (TxEip8130 Eip8130Signed AccountChange Call readU8 readU64 readU128 readU256)

/-! ## Types -/

inductive OpTxType
  | legacy | eip2930 | eip1559 | eip7702 | deposit | eip8130
  deriving DecidableEq, Repr

def OpTxType.tryFrom (x : UInt8) : Option OpTxType :=
  if x = 0 then some .legacy
  else if x = 1 then some .eip2930
  else if x = 2 then some .eip1559
  else if x = 4 then some .eip7702
  else if x = 126 then some .deposit
  else if x = 121 then some .eip8130
  else none

/-- `u128::from_be_bytes` of the last sixteen bytes. -/
def narrow (x : BitVec 256) : BitVec 128 := BitVec.ofNat 128 (ofBe ((toBe 32 x.toNat).drop 16))

theorem narrow_toNat (x : BitVec 256) : (narrow x).toNat = x.toNat % 2 ^ 128 := by
  unfold narrow
  rw [drop_toBe 16 16, ofBe_toBe_mod, BitVec.toNat_ofNat, show 256 ^ 16 = 2 ^ 128 by norm_num,
    Nat.mod_mod]

theorem narrow_toNat_eq_iff (x : BitVec 256) : (narrow x).toNat = x.toNat ↔ x.toNat < 2 ^ 128 := by
  rw [narrow_toNat]
  constructor
  · intro h
    rw [← h]
    exact Nat.mod_lt _ (by norm_num)
  · exact Nat.mod_eq_of_lt

/-! ## Older transactions -/

structure SpanBatchLegacyTransactionData where
  value : BitVec 256
  gasPrice : BitVec 256
  data : Bytes
  deriving DecidableEq

namespace SpanBatchLegacyTransactionData

def decode : Reader RlpFormat.RlpError SpanBatchLegacyTransactionData := readFramed do
  let value ← readU256
  let gasPrice ← readU256
  let data ← readBytes false
  return { value, gasPrice, data }

def toSignedTx (d : SpanBatchLegacyTransactionData) (nonce gas : UInt64) (recipient : Option Address)
    (chainId : UInt64) (signature : Signature) (isProtected : Bool) : BaseTxEnvelope :=
  .legacy {
    chainId := if isProtected then some chainId else none
    nonce
    gasPrice := narrow d.gasPrice
    gasLimit := gas
    toKind := recipient
    value := d.value
    input := d.data } signature

end SpanBatchLegacyTransactionData

structure SpanBatchEip2930TransactionData where
  value : BitVec 256
  gasPrice : BitVec 256
  data : Bytes
  accessList : AccessList
  deriving DecidableEq

namespace SpanBatchEip2930TransactionData

def decode : Reader RlpFormat.RlpError SpanBatchEip2930TransactionData := readFramed do
  let value ← readU256
  let gasPrice ← readU256
  let data ← readBytes false
  let accessList ← readVec AccessListItem.decode
  return { value, gasPrice, data, accessList }

def toSignedTx (d : SpanBatchEip2930TransactionData) (nonce gas : UInt64)
    (recipient : Option Address) (chainId : UInt64) (signature : Signature) : BaseTxEnvelope :=
  .eip2930 {
    chainId
    nonce
    gasPrice := narrow d.gasPrice
    gasLimit := gas
    toKind := recipient
    value := d.value
    input := d.data
    accessList := d.accessList } signature

end SpanBatchEip2930TransactionData

structure SpanBatchEip1559TransactionData where
  value : BitVec 256
  maxPriorityFeePerGas : BitVec 256
  maxFeePerGas : BitVec 256
  data : Bytes
  accessList : AccessList
  deriving DecidableEq

namespace SpanBatchEip1559TransactionData

def decode : Reader RlpFormat.RlpError SpanBatchEip1559TransactionData := readFramed do
  let value ← readU256
  let maxPriorityFeePerGas ← readU256
  let maxFeePerGas ← readU256
  let data ← readBytes false
  let accessList ← readVec AccessListItem.decode
  return { value, maxPriorityFeePerGas, maxFeePerGas, data, accessList }

def toSignedTx (d : SpanBatchEip1559TransactionData) (nonce gas : UInt64)
    (recipient : Option Address) (chainId : UInt64) (signature : Signature) : BaseTxEnvelope :=
  .eip1559 {
    chainId
    nonce
    maxFeePerGas := narrow d.maxFeePerGas
    maxPriorityFeePerGas := narrow d.maxPriorityFeePerGas
    gasLimit := gas
    toKind := recipient
    value := d.value
    input := d.data
    accessList := d.accessList } signature

end SpanBatchEip1559TransactionData

structure SpanBatchEip7702TransactionData where
  value : BitVec 256
  maxPriorityFeePerGas : BitVec 256
  maxFeePerGas : BitVec 256
  data : Bytes
  accessList : AccessList
  authorizationList : List SignedAuthorization
  deriving DecidableEq

namespace SpanBatchEip7702TransactionData

def decode : Reader RlpFormat.RlpError SpanBatchEip7702TransactionData := readFramed do
  let value ← readU256
  let maxPriorityFeePerGas ← readU256
  let maxFeePerGas ← readU256
  let data ← readBytes false
  let accessList ← readVec AccessListItem.decode
  let authorizationList ← readVec SignedAuthorization.decode
  return { value, maxPriorityFeePerGas, maxFeePerGas, data, accessList, authorizationList }

def toSignedTx (d : SpanBatchEip7702TransactionData) (nonce gas : UInt64) (recipient : Address)
    (chainId : UInt64) (signature : Signature) : BaseTxEnvelope :=
  .eip7702 {
    chainId
    nonce
    maxFeePerGas := narrow d.maxFeePerGas
    maxPriorityFeePerGas := narrow d.maxPriorityFeePerGas
    gasLimit := gas
    toAddress := recipient
    value := d.value
    input := d.data
    accessList := d.accessList
    authorizationList := d.authorizationList } signature

end SpanBatchEip7702TransactionData

/-! ## Account-abstraction transactions -/

structure SpanBatchEip8130TransactionData where
  sender : Option Address
  nonceKey : BitVec 256
  validAfter : UInt64
  validBefore : UInt64
  maxPriorityFeePerGas : BitVec 128
  maxFeePerGas : BitVec 128
  payer : Option Address
  accountChanges : List AccountChange
  calls : List (List Call)
  metadata : Bytes
  senderAuthenticator : Bytes
  payerAuthenticator : Bytes

namespace SpanBatchEip8130TransactionData

/-- `Channel::MAX_RLP_BYTES`. -/
def maxAuthProofBytes : ℕ := 10000000

def joinAuth (authenticator proof : Bytes) (configured : Bool) : Bytes :=
  if configured = false then proof
  else if proof = [] then authenticator
  else authenticator ++ proof

/-- An authenticator is an address when there is an account, and empty otherwise. -/
def validateAuthenticator (authenticator : Bytes) (configured : Bool) : Except RlpFormat.RlpError Unit :=
  failIf (¬if configured then authenticator.length = 20 else authenticator = [])
    (.custom "EIP-8130 authenticator length inconsistent with actor presence")

def decode : Reader RlpFormat.RlpError SpanBatchEip8130TransactionData := readFramed do
  let sender ← TxEip8130.decodeAddressOpt
  let nonceKey ← readU256
  let validAfter ← readU64
  let validBefore ← readU64
  let maxPriorityFeePerGas ← readU128
  let maxFeePerGas ← readU128
  let payer ← TxEip8130.decodeAddressOpt
  let accountChanges ← readVec AccountChange.decode
  let calls ← readVec (readVec Call.decode)
  let metadata ← readBytes false
  let senderAuthenticator ← readBytes false
  let payerAuthenticator ← readBytes false
  liftM (validateAuthenticator senderAuthenticator sender.isSome)
  liftM (validateAuthenticator payerAuthenticator payer.isSome)
  return {
    sender, nonceKey, validAfter, validBefore, maxPriorityFeePerGas, maxFeePerGas, payer,
    accountChanges, calls, metadata, senderAuthenticator, payerAuthenticator }

def toTx (d : SpanBatchEip8130TransactionData) (chainId nonce gas : UInt64)
    (senderProof payerProof : Bytes) : Eip8130Signed where
  tx := {
    chainId
    sender := d.sender
    nonceKey := d.nonceKey
    nonceSequence := nonce
    validAfter := d.validAfter
    validBefore := d.validBefore
    maxPriorityFeePerGas := d.maxPriorityFeePerGas
    maxFeePerGas := d.maxFeePerGas
    gasLimit := gas
    accountChanges := d.accountChanges
    calls := d.calls
    metadata := d.metadata
    payer := d.payer }
  senderAuth := joinAuth d.senderAuthenticator senderProof d.sender.isSome
  payerAuth := joinAuth d.payerAuthenticator payerProof d.payer.isSome

end SpanBatchEip8130TransactionData

/-! ## All types -/

inductive SpanBatchTransactionData
  | legacy (d : SpanBatchLegacyTransactionData)
  | eip2930 (d : SpanBatchEip2930TransactionData)
  | eip1559 (d : SpanBatchEip1559TransactionData)
  | eip7702 (d : SpanBatchEip7702TransactionData)
  | eip8130 (d : SpanBatchEip8130TransactionData)

namespace SpanBatchTransactionData

def txType : SpanBatchTransactionData → OpTxType
  | legacy _ => .legacy
  | eip2930 _ => .eip2930
  | eip1559 _ => .eip1559
  | eip7702 _ => .eip7702
  | eip8130 _ => .eip8130

/-- The data behind a type byte; bytes that follow are not looked at. -/
def decodeTyped : Bytes → Except RlpFormat.RlpError SpanBatchTransactionData
  | [] => .error (.custom "Invalid transaction data")
  | [_] => .error (.custom "Invalid transaction data")
  | ty :: b =>
    match OpTxType.tryFrom ty with
    | none => .error (.custom "Invalid tx type")
    | some .eip2930 => (fun p => eip2930 p.1) <$> SpanBatchEip2930TransactionData.decode b
    | some .eip1559 => (fun p => eip1559 p.1) <$> SpanBatchEip1559TransactionData.decode b
    | some .eip7702 => (fun p => eip7702 p.1) <$> SpanBatchEip7702TransactionData.decode b
    | some .eip8130 => (fun p => eip8130 p.1) <$> SpanBatchEip8130TransactionData.decode b
    | some _ => .error (.custom "Invalid transaction type")

/-- A first byte above `0x7f` starts a list, and then the transaction has no type byte. -/
def decode (r : Bytes) : Except RlpFormat.RlpError SpanBatchTransactionData :=
  if r ≠ [] ∧ 0x7f < r.headD 0 then
    (fun p => legacy p.1) <$> SpanBatchLegacyTransactionData.decode r
  else decodeTyped r

def toSignedTx (d : SpanBatchTransactionData) (nonce gas : UInt64) (recipient : Option Address)
    (chainId : UInt64) (signature : Signature) (isProtected : Bool) :
    Except Stop BaseTxEnvelope :=
  match d with
  | legacy d => .ok (d.toSignedTx nonce gas recipient chainId signature isProtected)
  | eip2930 d => .ok (d.toSignedTx nonce gas recipient chainId signature)
  | eip1559 d => .ok (d.toSignedTx nonce gas recipient chainId signature)
  | eip7702 d =>
    match recipient with
    | none => .error (.err (.decoding .invalidTransactionData))
    | some addr => .ok (d.toSignedTx nonce gas addr chainId signature)
  | eip8130 _ => .error (.err (.decoding .invalidTransactionType))

end SpanBatchTransactionData

end NodeReth.Span
