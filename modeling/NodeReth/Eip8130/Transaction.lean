import NodeReth.Eip8130.Apply

/-!
# Authorizing and applying a transaction

The orchestrator of account changes (`transaction.rs`): every change is authorized against the state
that the changes before it have left and is applied at once, and the sender and the payer are
authenticated last. A run processes one transaction after the other and drops the writes of those
that are rejected.
-/

namespace NodeReth.Eip8130

open Fallible AccountChangeApplier

structure AppliedTransaction where
  actors : TxActors
  configChanges : List ResolvedActor
  applied : AppliedAccountChanges
  revokeDiscountSlots : ℕ

namespace TransactionAuthorizer

/-- The storage in the course of a transaction, and what the transaction will return. -/
structure Progress where
  storage : AccountConfigurationStorage
  applied : AppliedAccountChanges
  configChanges : List ResolvedActor
  revokeDiscountSlots : ℕ

def Progress.start (storage : AccountConfigurationStorage) : Progress :=
  ⟨storage, ⟨none, none⟩, [], 0⟩

/-- The account that a transaction is about: its explicit sender, or the signer. -/
def resolveSender (env : Env) (signed : Eip8130Signed) :
    Except TxAuthError (Address × Option RecoveredActorId) :=
  match signed.explicitSender with
  | some account => .ok (account, none)
  | none => do
    let recovered ← (RecoveredActorId.recoverEoaSender env signed).mapError fun _ =>
      TxAuthError.senderRecovery
    let recovered ← orFail recovered .senderRecovery
    return (recovered.address, some recovered)

def step (env : Env) (senderAccount : Address) (localChainId now : UInt64) (p : Progress)
    (change : AccountChange × ℕ) : Except TxAuthError Progress :=
  match change.1 with
  | .create entry => do
    failIf (p.applied.delegation.isSome = true) (.apply .createAndDelegation)
    failIf (change.2 ≠ 0 ∨ p.applied.created.isSome = true) (.apply .invalidCreatePosition)
    let (storage, created) ← (applyCreate env p.storage entry).mapError .apply
    failIf (created.address ≠ senderAccount)
      (.apply (.createAddressMismatch created.address senderAccount))
    return { p with storage, applied := { p.applied with created := some created } }
  | .configChange cc => do
    let state := p.storage.getAccountState senderAccount
    let resolved ← ConfigChangeAuthorizer.authorizeWithAccountState env p.storage senderAccount
      localChainId cc now state
    let batch ← (applyConfigChangeWithAccountState env p.storage senderAccount cc.changes cc.channel
      cc.sequence state now).mapError .apply
    return { p with
      storage := batch.storage.setAccountState senderAccount batch.state
      configChanges := p.configChanges ++ [resolved]
      revokeDiscountSlots := u32SaturatingAdd p.revokeDiscountSlots batch.revokeDiscountSlots }
  | .delegation target => do
    failIf (p.applied.delegation.isSome = true) (.apply .multipleDelegations)
    failIf (p.applied.created.isSome = true) (.apply .createAndDelegation)
    return { p with applied := { p.applied with delegation := some ⟨senderAccount, target⟩ } }

/-- A delegation needs an admin as its sender, and an account that is not locked. -/
def authorizeDelegation (storage : AccountConfigurationStorage) (now : UInt64)
    (sender : AuthorizedActor) : Except TxAuthError Unit := do
  failIf (storage.isLocked sender.account now = true) .accountIsLocked
  failIf (sender.resolved.isAdmin = false) .delegationUnauthorized

def authorizeAndApply (env : Env) (signed : Eip8130Signed) (storage : AccountConfigurationStorage)
    (localChainId now : UInt64) :
    Except TxAuthError (AppliedTransaction × AccountConfigurationStorage) := do
  let (senderAccount, recoveredSender) ← resolveSender env signed
  let p ← signed.tx.accountChanges.zipIdx.foldlM (step env senderAccount localChainId now)
    (Progress.start storage)
  let actors ← ActorTxVerifier.verifyWithRecoveredSender env signed p.storage now recoveredSender
  if p.applied.delegation.isSome then
    authorizeDelegation p.storage now actors.sender
  return (⟨actors, p.configChanges, p.applied, p.revokeDiscountSlots⟩, p.storage)

end TransactionAuthorizer

end NodeReth.Eip8130
