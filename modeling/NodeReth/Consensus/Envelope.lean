import NodeReth.Eip8130.Codec

/-!
# The envelope of a signed transaction

The transaction types of the chain (`consensus/src/transaction/envelope.rs`), as the batches, the
builder and the pool pass them on.
-/

namespace NodeReth.Consensus

open Bytes Readers RlpFormat
open Eip8130 (Eip8130Signed readU8 readU64 readU256)

structure Signature where
  r : BitVec 256
  s : BitVec 256
  yParity : Bool
  deriving DecidableEq

structure AccessListItem where
  address : Address
  storageKeys : List B256
  deriving DecidableEq

abbrev AccessList := List AccessListItem

def AccessListItem.decode : Reader RlpFormat.RlpError AccessListItem := readFramed do
  let address ← readFixed 20
  let storageKeys ← readVec (readFixed 32)
  return { address, storageKeys }

structure SignedAuthorization where
  chainId : BitVec 256
  address : Address
  nonce : UInt64
  yParity : UInt8
  r : BitVec 256
  s : BitVec 256
  deriving DecidableEq

def SignedAuthorization.decode : Reader RlpFormat.RlpError SignedAuthorization := readFramed do
  let chainId ← readU256
  let address ← readFixed 20
  let nonce ← readU64
  let yParity ← readU8
  let r ← readU256
  let s ← readU256
  return { chainId, address, nonce, yParity, r, s }

/-! ## Transactions -/

structure TxLegacy where
  chainId : Option UInt64
  nonce : UInt64
  gasPrice : BitVec 128
  gasLimit : UInt64
  /-- The recipient, or nothing for a creation. -/
  toKind : Option Address
  value : BitVec 256
  input : Bytes
  deriving DecidableEq

structure TxEip2930 where
  chainId : UInt64
  nonce : UInt64
  gasPrice : BitVec 128
  gasLimit : UInt64
  toKind : Option Address
  value : BitVec 256
  input : Bytes
  accessList : AccessList
  deriving DecidableEq

structure TxEip1559 where
  chainId : UInt64
  nonce : UInt64
  maxFeePerGas : BitVec 128
  maxPriorityFeePerGas : BitVec 128
  gasLimit : UInt64
  toKind : Option Address
  value : BitVec 256
  input : Bytes
  accessList : AccessList
  deriving DecidableEq

structure TxEip7702 where
  chainId : UInt64
  nonce : UInt64
  maxFeePerGas : BitVec 128
  maxPriorityFeePerGas : BitVec 128
  gasLimit : UInt64
  toAddress : Address
  value : BitVec 256
  input : Bytes
  accessList : AccessList
  authorizationList : List SignedAuthorization
  deriving DecidableEq

/-- A signed transaction. Deposits are neither in a batch nor in the pool. -/
inductive BaseTxEnvelope
  | legacy (tx : TxLegacy) (signature : Signature)
  | eip2930 (tx : TxEip2930) (signature : Signature)
  | eip1559 (tx : TxEip1559) (signature : Signature)
  | eip7702 (tx : TxEip7702) (signature : Signature)
  | eip8130 (signed : Eip8130Signed)

/-- The nonce of the account; for an EIP-8130 transaction its sequence number, whatever its nonce
key. -/
def BaseTxEnvelope.nonce : BaseTxEnvelope → UInt64
  | .legacy tx _ => tx.nonce
  | .eip2930 tx _ => tx.nonce
  | .eip1559 tx _ => tx.nonce
  | .eip7702 tx _ => tx.nonce
  | .eip8130 signed => signed.tx.nonceSequence

end NodeReth.Consensus
