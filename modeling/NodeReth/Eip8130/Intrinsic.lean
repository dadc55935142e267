import NodeReth.Eip8130.Types
import NodeReth.Lib.Checked
import NodeReth.Lib.Fallible

/-!
# Intrinsic gas and fee caps

What the inclusion of a transaction costs before its calls run (`schedule.rs`, `intrinsic.rs`), and
the checks of its fee caps and of the balance of its payer (`fee.rs`). Gas is counted in 64-bit
words that saturate. The authentication of the payer is metered on top of the gas limit; everything
else is paid from it.
-/

namespace NodeReth.Eip8130

open Bytes Words Fallible

/-! ## Schedule -/

namespace Eip8130GasSchedule

def coldSload : ℕ := 2100
def warmSload : ℕ := 100
def sstoreSet : ℕ := 20000
def sstoreReset : ℕ := 2900
def sstoreDirty : ℕ := warmSload
def txDataZeroByte : ℕ := 4
def txDataNonzeroByte : ℕ := 16
def aaBaseCost : ℕ := 15000
def nonceFreeCost : ℕ := 2 * coldSload + warmSload + 3 * sstoreReset
def nonceKeyFirstUseCost : ℕ := coldSload + sstoreSet
def nonceKeyExistingCost : ℕ := coldSload + sstoreReset
def createBaseCost : ℕ := 32000
def codeDepositPerByte : ℕ := 200
def delegationIndicatorSize : ℕ := 23
def delegationDepositCost : ℕ := codeDepositPerByte * delegationIndicatorSize
def actorSlotSetCost : ℕ := coldSload + sstoreSet
def actorSlotResetCost : ℕ := coldSload + sstoreReset
def coldSlotNoopCost : ℕ := coldSload + warmSload
def policySlotsNoopCost : ℕ := coldSlotNoopCost * 2
def accountStateSetCost : ℕ := coldSload + sstoreSet
def configChangeStateCost : ℕ := accountStateSetCost
def configChangeStateCostSubsequent : ℕ := warmSload + sstoreDirty
def incrementLocalEpochCost : ℕ := sstoreDirty
def actorRevokeCost : ℕ := actorSlotResetCost * 3
def coldSlotResetDiscount : ℕ := actorSlotResetCost - coldSlotNoopCost
def authExecK1 : ℕ := 3000
def authExecP256 : ℕ := 6900
def authExecWebauthn : ℕ := 6900
def authExecDelegateOverhead : ℕ := coldSload

/-- The execution gas of an authenticator other than the delegate. -/
def leafAuthExecGas (authenticator : Address) : Option ℕ :=
  if authenticator = k1Authenticator then some authExecK1
  else if authenticator = p256Authenticator then some authExecP256
  else if authenticator = webauthnAuthenticator then some authExecWebauthn
  else none

end Eip8130GasSchedule

open Eip8130GasSchedule

/-! ## Intrinsic gas -/

inductive IntrinsicGasError
  | unscheduledAuthenticator (authenticator : Address)
  deriving DecidableEq

/-- How an authentication blob is written: a bare signature, or behind its authenticator. -/
inductive AuthWireForm
  | bareSignature
  | prefixed
  deriving DecidableEq

def AuthWireForm.forSender : Option Address → AuthWireForm
  | some _ => prefixed
  | none => bareSignature

/-- What the body of a transaction does not tell. -/
structure IntrinsicGasInput where
  nonceKeyFirstUse : Bool
  senderAutoDelegated : Bool
  senderPolicyGated : Bool
  payerPolicyGated : Bool
  /-- Slots of revoked actors that were empty. -/
  revokeDiscountSlots : ℕ

structure IntrinsicGas where
  base : ℕ
  payload : ℕ
  nonceKey : ℕ
  bytecode : ℕ
  accountChanges : ℕ
  autoDelegation : ℕ
  senderAuth : ℕ
  payerAuth : ℕ

namespace IntrinsicGas

def total (g : IntrinsicGas) : ℕ :=
  satAdd (satAdd (satAdd (satAdd (satAdd (satAdd (satAdd g.base g.payload) g.nonceKey) g.bytecode)
    g.accountChanges) g.autoDelegation) g.senderAuth) g.payerAuth

def senderIntrinsic (g : IntrinsicGas) : ℕ := g.total - g.payerAuth

def executionGasAvailable (g : IntrinsicGas) (gasLimit : ℕ) : Option ℕ :=
  if g.senderIntrinsic ≤ gasLimit then some (gasLimit - g.senderIntrinsic) else none

def authenticatorOf (auth : Bytes) : Option Address := FixedBytes.tryFrom 20 (auth.take 20)

def leafExecGas (authenticator : Address) : Except IntrinsicGasError ℕ :=
  orFail (leafAuthExecGas authenticator) (.unscheduledAuthenticator authenticator)

/-- A delegate blob carries a nested one behind the delegated account. -/
def authExecCost (auth : Bytes) (form : AuthWireForm) : Except IntrinsicGasError ℕ :=
  match form with
  | .bareSignature => .ok authExecK1
  | .prefixed =>
    match authenticatorOf auth with
    | none => .ok 0
    | some authenticator =>
      if authenticator = delegateAuthenticator then
        match authenticatorOf (auth.drop 40) with
        | some nested => do
          let exec ← leafExecGas nested
          return satAdd authExecDelegateOverhead exec
        | none => .ok (satAdd authExecDelegateOverhead 0)
      else leafExecGas authenticator

def authSloads (auth : Bytes) (form : AuthWireForm) (exec : ℕ) : ℕ :=
  match form with
  | .bareSignature => 1
  | .prefixed => if (authenticatorOf auth).isSome ∧ exec > 0 then 1 else 0

def authCost (auth : Bytes) (form : AuthWireForm) (policyGated : Bool) :
    Except IntrinsicGasError ℕ := do
  let exec ← authExecCost auth form
  let sloads := satAdd (authSloads auth form exec) (if policyGated ∧ exec > 0 then 1 else 0)
  return satAdd exec (satMul coldSload sloads)

def payloadCost (encoded : Bytes) : ℕ :=
  encoded.foldl (fun acc byte => satAdd acc (if byte = 0 then txDataZeroByte else txDataNonzeroByte)) 0

/-- Whether an authorize payload carries a policy, by the length word that its offset word points
to. -/
def authorizeAttachesPolicy (payload : Bytes) : Bool :=
  if payload.length < 4 * 32 + 32 then false
  else
    let offset := ofBe ((payload.drop (4 * 32)).take 32)
    decide (offset < 2 ^ 64 ∧ offset + 32 < 2 ^ 64 ∧ offset + 32 ≤ payload.length) &&
      ofBe ((payload.drop offset).take 32) == policyDataLen

def actorChangeWriteCost (op : SignedChange) : ℕ :=
  match op.changeType with
  | .revokeActor => actorRevokeCost
  | .authorizeActor =>
    if authorizeAttachesPolicy op.payload then
      satAdd actorSlotSetCost (satMul actorSlotSetCost 2)
    else satAdd actorSlotSetCost policySlotsNoopCost
  | .incrementLocalEpoch => incrementLocalEpochCost
  | .lock => 0
  | .unlock => 0

def initialActorCost (actor : InitialActor) : ℕ :=
  if actor.policyData.isEmpty then satAdd actorSlotSetCost policySlotsNoopCost
  else satAdd actorSlotSetCost (satMul actorSlotSetCost 2)

/-- The costs of the changes so far, and whether the account state has been written. -/
structure Running where
  bytecode : ℕ
  accountChanges : ℕ
  revokeChangeCount : ℕ
  accountStateTouched : Bool

namespace Running

def charge (r : Running) (cost : ℕ) : Running :=
  { r with accountChanges := satAdd r.accountChanges cost }

def op (r : Running) (c : SignedChange) : Running :=
  let r := if c.changeType = .revokeActor then
    { r with revokeChangeCount := min (r.revokeChangeCount + 1) (2 ^ 32 - 1) } else r
  r.charge (actorChangeWriteCost c)

/-- One entry of the account changes. Only the first write of the account state is charged as one of
an empty slot. -/
def change (r : Running) : AccountChange → Except IntrinsicGasError Running
  | .create entry =>
    let r := { r with
      bytecode := satAdd (satAdd r.bytecode createBaseCost)
        (satMul codeDepositPerByte (min entry.code.length u64Max)) }
    let r := { r.charge accountStateSetCost with accountStateTouched := true }
    .ok (entry.initialActors.foldl (fun r actor => r.charge (initialActorCost actor)) r)
  | .configChange cc => do
    let stateCost :=
      if r.accountStateTouched then configChangeStateCostSubsequent else configChangeStateCost
    let r := { r.charge stateCost with accountStateTouched := true }
    let auth ← authCost cc.signature .prefixed false
    return cc.changes.foldl op (r.charge auth)
  | .delegation _ => .ok (r.charge delegationDepositCost)

end Running

def boundedRevokeDiscountSlots (reported revokeChangeCount : ℕ) : ℕ :=
  let max := min (revokeChangeCount * 3) (2 ^ 32 - 1)
  if reported < max then reported else max

def nonceKeyCost (tx : TxEip8130) (input : IntrinsicGasInput) : ℕ :=
  if tx.nonceKey = nonceKeyMax then nonceFreeCost
  else if input.nonceKeyFirstUse then nonceKeyFirstUseCost
  else nonceKeyExistingCost

/-- Nothing when the sender pays. -/
def payerAuthCost (signed : Eip8130Signed) (input : IntrinsicGasInput) : Except IntrinsicGasError ℕ :=
  if signed.tx.payer.isSome then authCost signed.payerAuth .prefixed input.payerPolicyGated
  else .ok 0

def compute (signed : Eip8130Signed) (encoded : Bytes) (input : IntrinsicGasInput) :
    Except IntrinsicGasError IntrinsicGas := do
  let changes ← signed.tx.accountChanges.foldlM Running.change ⟨0, 0, 0, false⟩
  let discounted := boundedRevokeDiscountSlots input.revokeDiscountSlots changes.revokeChangeCount
  let senderAuth ← authCost signed.senderAuth (.forSender signed.tx.sender) input.senderPolicyGated
  let payerAuth ← payerAuthCost signed input
  return {
    base := aaBaseCost
    payload := payloadCost encoded
    nonceKey := nonceKeyCost signed.tx input
    bytecode := changes.bytecode
    accountChanges := changes.accountChanges - satMul coldSlotResetDiscount discounted
    autoDelegation := if input.senderAutoDelegated then delegationDepositCost else 0
    senderAuth
    payerAuth }

theorem payerAuth_lt {signed : Eip8130Signed} {encoded : Bytes} {input : IntrinsicGasInput}
    {g : IntrinsicGas} (h : compute signed encoded input = .ok g) : g.payerAuth < 2 ^ 64 := by
  obtain ⟨changes, -, h⟩ := bind_ok_iff.mp h
  obtain ⟨senderAuth, -, h⟩ := bind_ok_iff.mp h
  obtain ⟨payerAuth, hpayer, h⟩ := bind_ok_iff.mp h
  obtain rfl := pure_ok_iff.mp h
  unfold payerAuthCost at hpayer
  split_ifs at hpayer
  · obtain ⟨exec, -, rfl⟩ := bind_return_ok hpayer
    unfold satAdd u64Max
    show min _ _ < _
    omega
  · cases hpayer
    norm_num

end IntrinsicGas

/-! ## Fee caps -/

inductive FeeError
  | tipAboveFeeCap (tip maxFee : BitVec 128)
  | feeCapBelowBaseFee (baseFee maxFee : BitVec 128)
  | insufficientBalance (balance required : BitVec 256)
  deriving DecidableEq

namespace FeeCheck

variable (maxFee maxPriorityFee baseFee : BitVec 128)

def effectiveGasPrice : BitVec 128 :=
  let cap := Checked.saturatingAdd baseFee maxPriorityFee
  if maxFee < cap then maxFee else cap

def maxChargeableGas (gasLimit payerAuthCost : ℕ) : ℕ := satAdd gasLimit payerAuthCost

def maxFeeCharge (gasLimit payerAuthCost : ℕ) (maxFee : BitVec 128) : BitVec 256 :=
  Checked.saturatingMul (.ofNat 256 (maxChargeableGas gasLimit payerAuthCost)) (maxFee.setWidth 256)

def validateFees : Except FeeError Unit := do
  failIf (maxPriorityFee > maxFee) (.tipAboveFeeCap maxPriorityFee maxFee)
  failIf (maxFee < baseFee) (.feeCapBelowBaseFee baseFee maxFee)

def validateBalance (balance : BitVec 256) (gasLimit payerAuthCost : ℕ) (maxFee : BitVec 128) :
    Except FeeError Unit :=
  let required := maxFeeCharge gasLimit payerAuthCost maxFee
  failIf (balance < required) (.insufficientBalance balance required)

theorem effectiveGasPrice_le : effectiveGasPrice maxFee maxPriorityFee baseFee ≤ maxFee := by
  unfold effectiveGasPrice
  simp only
  split_ifs with h
  · exact BitVec.le_refl _
  · exact BitVec.not_lt.mp h

/-- A transaction whose caps were accepted pays at least the base fee. -/
theorem le_effectiveGasPrice {maxFee maxPriorityFee baseFee : BitVec 128}
    (h : validateFees maxFee maxPriorityFee baseFee = .ok ()) :
    baseFee ≤ effectiveGasPrice maxFee maxPriorityFee baseFee := by
  obtain ⟨_, -, hcap⟩ := bind_ok_iff.mp h
  have hle : baseFee ≤ maxFee := BitVec.not_lt.mp (failIf_ok_iff.mp hcap)
  unfold effectiveGasPrice
  simp only
  split_ifs
  · exact hle
  · rw [BitVec.le_def, Checked.toNat_saturatingAdd]
    omega

end FeeCheck

end NodeReth.Eip8130
