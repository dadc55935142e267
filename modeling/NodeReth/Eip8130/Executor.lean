import NodeReth.Eip8130.Intrinsic
import NodeReth.Eip8130.Transaction
import NodeReth.L1Fees
import NodeReth.Lib.Effects
import NodeReth.Precompiles.Nonce

/-!
# Executing a transaction

The enshrined execution of account abstraction transactions (`evm/src/eip8130.rs`). Before the calls
run, the transaction is authorized, its account changes and its nonce are written, and its payer is
charged for the worst case; the calls then run phase by phase, and the fee is settled. Every stage
writes to the journal at once, and an error keeps what has been written until the executor discards
the transaction. The frames of the EVM and the database are parameters; the account loads that can
fail are modelled, faults of storage slots are not. Inspection is left out.
-/

namespace NodeReth.Eip8130

open Bytes Words Checked Effects

/-! ## Constants -/

def maxRefundQuotient : ℕ := 5

def delegationIndicatorPrefix : Bytes := [0xef, 0x01, 0x00]

def defaultAccount : Address := fixedBe 20 0x81309c54D6Bc190FbBc0FA9f296ea4C6A539ADEf
def baseFeeVault : Address := fixedBe 20 0x4200000000000000000000000000000000000019
def l1FeeVault : Address := fixedBe 20 0x420000000000000000000000000000000000001a
def operatorFeeVault : Address := fixedBe 20 0x420000000000000000000000000000000000001B

def newEip7702 (target : Address) : Bytes := delegationIndicatorPrefix ++ target.val

def eip7702Address (code : Bytes) : Option Address :=
  if code.take 3 = delegationIndicatorPrefix then FixedBytes.tryFrom 20 (code.drop 3) else none

def ResolvedActor.isPolicyGated (a : ResolvedActor) : Bool := senderIsPolicyGated a.scope

/-! ## Errors -/

inductive NonceError
  | tooLow (channel got : UInt64)
  | tooHigh (channel got : UInt64)
  | replay
  deriving DecidableEq

inductive Eip8130Error
  | message (text : String)
  | auth (e : TxAuthError)
  | nonDelegatableCode (account : Address)
  | invalidBytecode
  | nonce (e : NonceError)
  | nonceManager (e : NodeReth.NonceError)
  | protocolNonceNotSupported
  | invalidNonceKey
  | nonceOverflow
  | intrinsicGas (e : IntrinsicGasError)
  | fee (e : FeeError)
  /-- The transaction context must not hold zeros. -/
  | assertFailed
  /-- A fault of the database in the course of the storage work. -/
  | fatal (fault : String)
  deriving DecidableEq

inductive EvmError
  | database (fault : String)
  | transaction (e : Eip8130Error)
  deriving DecidableEq

def EvmError.text (text : String) : EvmError := .transaction (.message text)

/-! ## The journal -/

structure Account where
  balance : BitVec 256
  nonce : UInt64
  code : Bytes
  deriving DecidableEq

inductive Log
  | config (event : Event)
  | delegationApplied (account target : Address)
  | nonceIncremented (account : Address) (nonceKey : BitVec 256) (newNonce : UInt64)
  | emitted (address : Address) (topics : List B256) (data : Bytes)

structure TxContext where
  sender : Address
  payer : Address
  senderActorId : B256
  deriving DecidableEq

structure World (σ : Type) where
  accounts : Address → Account
  config : AccountConfigurationStorage
  /-- The sequences of the nonce manager, by account and nonce key. -/
  nonces : Address → BitVec 256 → UInt64
  expiring : NonceManagerStorage
  txContext : Option TxContext
  /-- Everything else: the storage of other contracts, transient storage, what is warm. -/
  rest : σ
  logs : List Log

namespace World

variable {σ : Type} (w : World σ)

def setAccount (address : Address) (account : Account) : World σ :=
  { w with accounts := Function.update w.accounts address account }

def setCode (address : Address) (code : Bytes) : World σ :=
  w.setAccount address { w.accounts address with code }

def setBalance (address : Address) (balance : BitVec 256) : World σ :=
  w.setAccount address { w.accounts address with balance }

def log (entry : Log) : World σ := { w with logs := w.logs ++ [entry] }

end World

structure Journal (σ : Type) where
  state : World σ
  committed : World σ

structure CallInputs where
  input : Bytes
  gasLimit : ℕ
  bytecode : Bytes
  targetAddress : Address
  caller : Address

structure FrameResult where
  isOk : Bool
  totalGasSpent : ℕ
  refunded : ℤ
  output : Bytes

structure BlockEnv where
  number : BitVec 256
  timestamp : BitVec 256
  basefee : UInt64
  beneficiary : Address
  chainId : UInt64
  spec : BaseSpecId

/-- What the EVM and the database provide. -/
structure Evm (σ : Type) where
  /-- `run_exec_loop`, with the error that the frame may have left. -/
  runExecLoop : World σ → CallInputs → Except String FrameResult × World σ
  /-- Loads an account into the journal, where it is warm from then on. -/
  loadAccount : World σ → Address → Except String σ
  /-- `L1BlockInfo::try_fetch`. -/
  tryFetch : World σ → BitVec 256 → BaseSpecId → Except String L1BlockInfo
  /-- Sets the spec and warms the precompiles and the coinbase. -/
  warmPreCallAccounts : BlockEnv → σ → σ
  /-- Ends the transaction: transient storage and what is warm are cleared. -/
  commitTx : σ → σ
  /-- `Bytecode::new_raw_checked`. -/
  newRawChecked : Bytes → Option Bytes
  bumpNonce : UInt64 → UInt64
  incrBalance : BitVec 256 → BitVec 256 → BitVec 256
  /-- What an authorization that fails has written to the account configuration by then. -/
  rejectedWrites : AccountConfigurationStorage → Eip8130Signed → AccountConfigurationStorage

structure Context (σ : Type) where
  journal : Journal σ
  chain : L1BlockInfo
  caller : Address
  /-- The slot that the receipt builder reads. -/
  phaseStatuses : List UInt8

abbrev Exec (σ : Type) := EStateM EvmError (Context σ)

/-! ## Results -/

structure Eip8130Outcome where
  sender : Address
  payer : Address
  senderActorId : B256
  policyGated : Bool
  policyTarget : Address
  gasLimit : ℕ
  senderIntrinsic : ℕ
  payerAuth : ℕ
  executionGasAvailable : ℕ
  effective : BitVec 128
  baseFee : BitVec 128
  bumpProtocolNonce : Bool

structure CallsResult where
  callGasSpent : ℕ
  refund : ℤ
  reverted : Bool
  output : Bytes
  phaseStatuses : List UInt8

inductive ExecutionResult
  | success (gas : ℕ) (logs : List Log) (output : Bytes)
  | revert (gas : ℕ) (logs : List Log) (output : Bytes)

/-! ## Nonces -/

inductive NonceMode
  | pool
  | inclusion
  deriving DecidableEq

inductive NonceStatus
  | ready
  | buffered (gap : UInt64)
  deriving DecidableEq

namespace NonceValidator

def validateSequence (tx : TxEip8130) (channel : UInt64) (mode : NonceMode) :
    Except NonceError NonceStatus :=
  if tx.nonceSequence < channel then .error (.tooLow channel tx.nonceSequence)
  else if tx.nonceSequence = channel then .ok .ready
  else
    match mode with
    | .inclusion => .error (.tooHigh channel tx.nonceSequence)
    | .pool => .ok (.buffered (tx.nonceSequence - channel))

def replayHash (env : Env) (tx : TxEip8130) (account : Address) : B256 := tx.replayId env account

end NonceValidator

namespace Eip8130Executor

variable {σ : Type}

def world : Exec σ (World σ) := do return (← get).journal.state

def modifyWorld (f : World σ → World σ) : Exec σ Unit :=
  modify fun c => { c with journal := { c.journal with state := f c.journal.state } }

def liftExcept {α ε : Type} (f : ε → Eip8130Error) (x : Except ε α) : Exec σ α :=
  match x with
  | .ok a => pure a
  | .error e => throw (.transaction (f e))

section Storage

variable (evm : Evm σ)

def loadAccount (fault : String → EvmError) (address : Address) : Exec σ Account := do
  let w ← world
  match evm.loadAccount w address with
  | .error e => throw (fault e)
  | .ok rest =>
    modifyWorld fun w => { w with rest }
    return w.accounts address

/-- `with_account_info`, through the storage provider. -/
def accountInfo (address : Address) : Exec σ Account :=
  loadAccount evm (fun e => .transaction (.fatal e)) address

/-- `load_account_mut`, on the journal itself. -/
def loadAccountMut (address : Address) : Exec σ Account := loadAccount evm .database address

def getNonce (account : Address) (nonceKey : BitVec 256) : Exec σ UInt64 := do
  ensure (nonceKey ≠ 0) (.transaction .protocolNonceNotSupported)
  return (← world).nonces account nonceKey

def incrementNonce (account : Address) (nonceKey : BitVec 256) : Exec σ UInt64 := do
  ensure (nonceKey ≠ 0) (.transaction .invalidNonceKey)
  let current := (← world).nonces account nonceKey
  ensure (current.toNat + 1 < 2 ^ 64) (.transaction .nonceOverflow)
  let newNonce := current + 1
  modifyWorld fun w =>
    { w with
      nonces := Function.update w.nonces account (Function.update (w.nonces account) nonceKey newNonce)
      expiring := { w.expiring with initialized := true }
      logs := w.logs ++ [.nonceIncremented account nonceKey newNonce] }
  return newNonce

def checkAndMarkExpiringNonce (timestamp : ℕ) (hash : B256) (validBefore : ℕ) : Exec σ Unit := do
  let w ← world
  match w.expiring.checkAndMarkExpiringNonce timestamp hash validBefore with
  | (.ok (), expiring) => modifyWorld fun w => { w with expiring }
  | (.error e, expiring) =>
    modifyWorld fun w => { w with expiring }
    throw (.transaction (.nonceManager e))

/-- `NonceValidator::validate`. -/
def validateNonce (env : Env) (tx : TxEip8130) (account : Address) (protocolNonce : UInt64)
    (mode : NonceMode) (now : ℕ) : Exec σ NonceStatus :=
  if tx.nonceKey = nonceKeyMax then do
    let seen := (← world).expiring.isExpiringNonceSeen (NonceValidator.replayHash env tx account) now
    ensure (seen = false) (.transaction (.nonce .replay))
    return .ready
  else do
    let channel ← if tx.nonceKey = 0 then pure protocolNonce else getNonce account tx.nonceKey
    liftExcept .nonce (NonceValidator.validateSequence tx channel mode)

def setContext (sender payer : Address) (senderActorId : B256) : Exec σ Unit := do
  ensure (sender ≠ FixedBytes.zero 20 ∧ payer ≠ FixedBytes.zero 20 ∧
    senderActorId ≠ FixedBytes.zero 32) (.transaction .assertFailed)
  modifyWorld fun w => { w with txContext := some ⟨sender, payer, senderActorId⟩ }

end Storage

/-! ## Before the calls -/

section PreCall

variable (env : Env) (evm : Evm σ)

/-- The window in which the transaction may be included; a bound of zero is none. -/
def checkValidityWindow (tx : TxEip8130) (nowMs : ℕ) : Exec σ Unit := do
  ensure (¬(tx.validAfter ≠ 0 ∧ nowMs < tx.validAfter.toNat)) (.text "transaction is not yet valid")
  ensure (¬(tx.validBefore ≠ 0 ∧ nowMs > tx.validBefore.toNat))
    (.text "transaction validity window has expired")

/-- Authorizes the transaction and writes its account changes, whose events go to the journal. -/
def authorizeTransaction (signed : Eip8130Signed) (chainId now : UInt64) :
    Exec σ AppliedTransaction := do
  let w ← world
  match TransactionAuthorizer.authorizeAndApply env signed { w.config with logs := [] } chainId
    now with
  | .ok (applied, storage) =>
    modifyWorld fun w =>
      { w with
        config := { storage with logs := [] }
        logs := w.logs ++ storage.logs.map .config }
    return applied
  | .error e =>
    modifyWorld fun w => { w with config := evm.rejectedWrites w.config signed }
    throw (.transaction (.auth e))

/-- The destination of a created account must be empty. -/
def installCreatedCode (address : Address) (code : Bytes) : Exec σ Unit := do
  let info ← accountInfo evm address
  ensure (info.code = [] ∧ info.nonce = 0)
    (.text "create destination already has code or a non-zero nonce")
  match evm.newRawChecked code with
  | none => throw (.transaction .invalidBytecode)
  | some bytecode => modifyWorld fun w => w.setCode address bytecode

def canReplaceCode (code : Bytes) : Bool := code.isEmpty || delegationIndicatorPrefix.isPrefixOf code

/-- Writes a delegation, or clears it for a zero target. -/
def installDelegation (delegation : DelegationEffect) : Exec σ Unit := do
  let info ← accountInfo evm delegation.account
  ensure (canReplaceCode info.code = true) (.transaction (.nonDelegatableCode delegation.account))
  let code := if delegation.target = FixedBytes.zero 20 then [] else newEip7702 delegation.target
  modifyWorld fun w => w.setCode delegation.account code
  modifyWorld fun w => w.log (.delegationApplied delegation.account delegation.target)

def installCode (applied : AppliedAccountChanges) : Exec σ Unit := do
  (match applied.created with
  | some created => installCreatedCode evm created.address created.code
  | none => pure ())
  match applied.delegation with
  | some delegation => installDelegation evm delegation
  | none => pure ()

/-- Validates and advances the nonce: whether its key is used for the first time, and whether the
nonce of the account is yet to be bumped. -/
def advanceNonce (tx : TxEip8130) (sender : Address) (timestamp nowMs : ℕ) : Exec σ (Bool × Bool) := do
  let info ← accountInfo evm sender
  let protocolNonce := info.nonce
  if tx.nonceKey = nonceKeyMax then
    let _ ← validateNonce env tx sender protocolNonce .inclusion nowMs
    let replay := NonceValidator.replayHash env tx sender
    checkAndMarkExpiringNonce timestamp replay tx.validBefore.toNat
    return (false, false)
  else if tx.nonceKey = 0 then
    let _ ← validateNonce env tx sender protocolNonce .inclusion nowMs
    return (protocolNonce = 0, true)
  else
    let currentNonce ← getNonce sender tx.nonceKey
    let _ ← liftExcept .nonce (NonceValidator.validateSequence tx currentNonce .inclusion)
    let _ ← incrementNonce sender tx.nonceKey
    return (currentNonce = 0, false)

/-- Whether the sender had no code and was delegated to the default account. -/
def autoDelegateCodelessSender (sender : Address) : Exec σ Bool := do
  let info ← accountInfo evm sender
  if info.code = [] then
    modifyWorld fun w => w.setCode sender (newEip7702 defaultAccount)
    modifyWorld fun w => w.log (.delegationApplied sender defaultAccount)
    return true
  else return false

def resolveExecutionGas (signed : Eip8130Signed) (encoded : Bytes) (input : IntrinsicGasInput)
    (gasLimit : ℕ) : Exec σ (ℕ × ℕ × ℕ) := do
  let intrinsic ← liftExcept .intrinsicGas (IntrinsicGas.compute signed encoded input)
  match intrinsic.executionGasAvailable gasLimit with
  | some available => return (intrinsic.senderIntrinsic, intrinsic.payerAuth, available)
  | none => throw (.text "EIP-8130 sender-intrinsic gas exceeds the gas limit")

def checkFees (tx : TxEip8130) (payer : Address) (payerAuth : ℕ) (baseFee : BitVec 128) :
    Exec σ Unit := do
  liftExcept .fee (FeeCheck.validateFees tx.maxFeePerGas tx.maxPriorityFeePerGas baseFee)
  let info ← accountInfo evm payer
  liftExcept .fee (FeeCheck.validateBalance info.balance tx.gasLimit.toNat payerAuth tx.maxFeePerGas)

/-- A sender whose account was created, or delegated by the transaction itself, is not delegated. -/
def autoDelegate (applied : AppliedAccountChanges) (sender : Address) : Exec σ Bool :=
  if applied.delegation.isSome ∨ applied.created.isSome then pure false
  else autoDelegateCodelessSender evm sender

def authorizeAndApply (signed : Eip8130Signed) (encoded : Bytes) (chainId now : UInt64)
    (baseFee : BitVec 128) : Exec σ Eip8130Outcome := do
  let tx := signed.tx
  let nowMs := satMul now.toNat 1000
  checkValidityWindow tx nowMs
  let appliedTx ← authorizeTransaction env evm signed chainId now
  let senderActor := appliedTx.actors.sender.resolved
  let payerPolicyGated := appliedTx.actors.payer.any fun actor => actor.resolved.isPolicyGated
  let sender := appliedTx.actors.sender.account
  let payer := (appliedTx.actors.payer.map fun p => p.account).getD sender
  ensure (senderActor.canUseNonceKey tx.nonceKey = true)
    (.text "sender actor scope does not authorize sequenced nonces")
  installCode evm appliedTx.applied
  let (nonceKeyFirstUse, bumpProtocolNonce) ← advanceNonce env evm tx sender now.toNat nowMs
  let senderAutoDelegated ← autoDelegate evm appliedTx.applied sender
  let (senderIntrinsic, payerAuth, executionGasAvailable) ← resolveExecutionGas signed encoded
    ⟨nonceKeyFirstUse, senderAutoDelegated, senderActor.isPolicyGated, payerPolicyGated,
      appliedTx.revokeDiscountSlots⟩ tx.gasLimit.toNat
  checkFees evm tx payer payerAuth baseFee
  setContext sender payer senderActor.actorId
  return {
    sender
    payer
    senderActorId := senderActor.actorId
    policyGated := senderActor.isPolicyGated
    policyTarget := senderActor.policyTarget
    gasLimit := tx.gasLimit.toNat
    senderIntrinsic
    payerAuth
    executionGasAvailable
    effective := FeeCheck.effectiveGasPrice tx.maxFeePerGas tx.maxPriorityFeePerGas baseFee
    baseFee
    bumpProtocolNonce }

/-- The cost on L1, which is remembered for the transaction. -/
def txL1Cost (encoded : Bytes) (spec : BaseSpecId) : Exec σ (BitVec 256) := do
  let (cost, chain) := (← get).chain.calculateTxL1Cost encoded spec
  modify fun c => { c with chain }
  return cost

def operatorCost (encoded : Bytes) (gas : ℕ) (spec : BaseSpecId) : Exec σ (BitVec 256) := do
  return (← get).chain.operatorFeeCharge encoded (.ofNat 256 gas) spec

def orThrow {α : Type} (o : Option α) (text : String) : Exec σ α :=
  match o with
  | some a => pure a
  | none => throw (.text text)

/-- The nonce of the account, when that is the nonce of the transaction. -/
def bumpSenderNonce (outcome : Eip8130Outcome) : Exec σ Unit :=
  if outcome.bumpProtocolNonce then do
    let info ← loadAccountMut evm outcome.sender
    modifyWorld fun w => w.setAccount outcome.sender { info with nonce := evm.bumpNonce info.nonce }
  else pure ()

/-- Charges the payer for the worst case. -/
def prepay (outcome : Eip8130Outcome) (encoded : Bytes) (spec : BaseSpecId) :
    Exec σ (BitVec 256) := do
  modify fun c => { c with caller := outcome.sender }
  bumpSenderNonce evm outcome
  let maxGas := FeeCheck.maxChargeableGas outcome.gasLimit outcome.payerAuth
  let gasCharge ← orThrow (checkedMul (.ofNat 256 maxGas) (outcome.effective.setWidth 256))
    "EIP-8130 gas pre-charge overflow"
  let l1Cost ← txL1Cost encoded spec
  let operatorCost ← operatorCost encoded maxGas spec
  let prepay ← orThrow ((checkedAdd gasCharge l1Cost).bind fun v => checkedAdd v operatorCost)
    "EIP-8130 pre-charge overflow"
  let info ← loadAccountMut evm outcome.payer
  let debited ← orThrow (checkedSub info.balance prepay) "payer balance is below the worst-case fee"
  modifyWorld fun w => w.setBalance outcome.payer debited
  return prepay

end PreCall

/-! ## Calls -/

section Calls

variable (evm : Evm σ)

def i64SaturatingAdd (a b : ℤ) : ℤ := max (-2 ^ 63) (min (a + b) (2 ^ 63 - 1))

/-- The code that a call to an address runs: its own, or that of the account it is delegated to. -/
def knownBytecode (toAddress : Address) : Exec σ Bytes := do
  let info ← loadAccountMut evm toAddress
  match eip7702Address info.code with
  | some delegated => return (← loadAccountMut evm delegated).code
  | none => return info.code

def runCall (caller toAddress : Address) (data : Bytes) (gasLimit : ℕ) : Exec σ FrameResult := do
  let bytecode ← knownBytecode evm toAddress
  let w ← world
  match evm.runExecLoop w ⟨data, gasLimit, bytecode, toAddress, caller⟩ with
  | (.ok frame, after) =>
    modifyWorld fun _ => after
    return frame
  | (.error e, after) =>
    modifyWorld fun _ => after
    throw (.database e)

def actorPolicyViolationData (actorId : B256) (target : Address) : Bytes :=
  [0x1f, 0x1c, 0x0d, 0x27] ++ actorId.val ++ (List.replicate 12 0 ++ target.val)

def blocked (outcome : Eip8130Outcome) (call : Call) : Bool :=
  outcome.policyGated && call.toAddress != outcome.policyTarget

/-- The calls of a phase: the gas and the refund that they leave, and the output of the call that
failed. -/
def runPhase (outcome : Eip8130Outcome) : List Call → ℕ → ℤ → Exec σ (ℕ × ℤ × Option Bytes)
  | [], remaining, refund => return (remaining, refund, none)
  | call :: calls, remaining, refund =>
    if blocked outcome call then
      return (remaining, refund, some (actorPolicyViolationData outcome.senderActorId call.toAddress))
    else do
      let frame ← runCall evm outcome.sender call.toAddress call.data remaining
      ensure (frame.totalGasSpent ≤ remaining)
        (.text "EIP-8130 call consumed more gas than the phase pool contained")
      let remaining := remaining - frame.totalGasSpent
      if frame.isOk then runPhase outcome calls remaining (i64SaturatingAdd refund frame.refunded)
      else return (remaining, refund, some frame.output)

/-- `Vec::resize`. -/
def resize {α : Type} (l : List α) (n : ℕ) (a : α) : List α :=
  l.take n ++ List.replicate (n - l.length) a

/-- The phases that are left, each behind a checkpoint of the journal. -/
def runPhases (outcome : Eip8130Outcome) (pool totalPhases : ℕ) :
    List (List Call) → ℕ → ℤ → List UInt8 → Exec σ CallsResult
  | [], remaining, refund, statuses => return ⟨pool - remaining, refund, false, [], statuses⟩
  | phase :: phases, remaining, refund, statuses => do
    let checkpoint ← world
    let (remaining, phaseRefund, failure) ← runPhase evm outcome phase remaining 0
    match failure with
    | some output =>
      modifyWorld fun _ => checkpoint
      return ⟨pool - remaining, refund, true, output, resize (statuses ++ [0x00]) totalPhases 0x00⟩
    | none =>
      runPhases outcome pool totalPhases phases remaining (i64SaturatingAdd refund phaseRefund)
        (statuses ++ [0x01])

def executeCalls (signed : Eip8130Signed) (outcome : Eip8130Outcome) (pool : ℕ) : Exec σ CallsResult :=
  runPhases evm outcome pool signed.tx.calls.length signed.tx.calls pool 0 []

end Calls

/-! ## Settlement -/

section Settlement

variable (evm : Evm σ)

/-- A negative counter gives no refund, and no refund is more than a fifth of the gas. -/
def cappedRefund (signedRefund : ℤ) (grossUsed : ℕ) : ℕ :=
  min signedRefund.toNat (grossUsed / maxRefundQuotient)

def billableGas (outcome : Eip8130Outcome) (calls : CallsResult) : ℕ :=
  let grossUsed := satAdd outcome.senderIntrinsic calls.callGasSpent
  let refund := cappedRefund calls.refund grossUsed
  satAdd (grossUsed - refund) outcome.payerAuth

/-- What the fee consists of, and what the payer gets back. -/
structure FeeSplit where
  baseFeeAmount : BitVec 256
  priorityAmount : BitVec 256
  l1Cost : BitVec 256
  operatorCost : BitVec 256
  refundAmount : BitVec 256

/-- The parts of the fee for the gas that is billed. -/
def splitFee (outcome : Eip8130Outcome) (billable : ℕ) (prepay : BitVec 256) (encoded : Bytes)
    (spec : BaseSpecId) : Exec σ FeeSplit := do
  let fee ← orThrow (checkedMul (.ofNat 256 billable) (outcome.effective.setWidth 256))
    "EIP-8130 fee overflow"
  let baseFeeAmount ← orThrow (checkedMul (.ofNat 256 billable) (outcome.baseFee.setWidth 256))
    "EIP-8130 base-fee amount overflow"
  let priorityAmount ← orThrow (checkedSub fee baseFeeAmount) "EIP-8130 priority amount underflow"
  let l1Cost ← txL1Cost encoded spec
  let operatorCost ← operatorCost encoded billable spec
  let totalCost ← orThrow ((checkedAdd fee l1Cost).bind fun v => checkedAdd v operatorCost)
    "EIP-8130 settled cost overflow"
  let refundAmount ← orThrow (checkedSub prepay totalCost)
    "settled fee exceeds the worst-case pre-charge"
  return ⟨baseFeeAmount, priorityAmount, l1Cost, operatorCost, refundAmount⟩

def refundPayer (payer : Address) (refundAmount : BitVec 256) : Exec σ Unit := do
  let info ← loadAccountMut evm payer
  let balance ← orThrow (checkedAdd info.balance refundAmount)
    "EIP-8130 payer refund balance overflow"
  modifyWorld fun w => w.setBalance payer balance

def balanceIncr (recipient : Address) (amount : BitVec 256) : Exec σ Unit := do
  let info ← loadAccountMut evm recipient
  modifyWorld fun w => w.setBalance recipient (evm.incrBalance info.balance amount)

/-- Where the parts of the fee go. -/
def FeeSplit.credits (split : FeeSplit) (beneficiary : Address) : List (Address × BitVec 256) :=
  [(baseFeeVault, split.baseFeeAmount), (beneficiary, split.priorityAmount),
    (l1FeeVault, split.l1Cost), (operatorFeeVault, split.operatorCost)]

/-- Settles the fee against what was charged: the gas that is billed. -/
def settleFees (outcome : Eip8130Outcome) (calls : CallsResult) (prepay : BitVec 256)
    (encoded : Bytes) (spec : BaseSpecId) (beneficiary : Address) : Exec σ ℕ := do
  let billable := billableGas outcome calls
  let split ← splitFee outcome billable prepay encoded spec
  refundPayer evm outcome.payer split.refundAmount
  (split.credits beneficiary).forM fun credit => balanceIncr evm credit.1 credit.2
  return billable

end Settlement

/-! ## Execution -/

section Execute

variable (env : Env) (evm : Evm σ)

def discardTransactionState (c : Context σ) : Context σ :=
  { c with
    journal := { c.journal with state := c.journal.committed }
    chain := c.chain.clearTxL1Cost }

/-- Makes what the transaction has written permanent; its logs have been taken. -/
def commitTransaction (evm : Evm σ) (c : Context σ) : Context σ :=
  let state := { c.journal.state with
    logs := [], txContext := none, rest := evm.commitTx c.journal.state.rest }
  { c with journal := ⟨state, state⟩, chain := c.chain.clearTxL1Cost }

/-- The block info of another block is read from the database. -/
def refreshL1BlockInfo (block : BlockEnv) : Exec σ Unit := do
  let c ← get
  if c.chain.l2Block ≠ some block.number then
    match evm.tryFetch c.journal.state block.number block.spec with
    | .ok chain => modify fun c => { c with chain }
    | .error e => throw (.database e)

/-- A stage after which an error discards the transaction. -/
def orDiscard {α : Type} (x : Exec σ α) : Exec σ α := fun c =>
  match x c with
  | .ok a c' => .ok a c'
  | .error e c' => .error e (discardTransactionState c')

/-- The stages that write: from the authorization to the settlement. -/
def runStages (block : BlockEnv) (signed : Eip8130Signed) (encoded : Bytes) (now : UInt64) :
    Exec σ (ℕ × CallsResult) := do
  let baseFee : BitVec 128 := .ofNat 128 block.basefee.toNat
  let outcome ← orDiscard (authorizeAndApply env evm signed encoded block.chainId now baseFee)
  let prepaid ← orDiscard (prepay evm outcome encoded block.spec)
  modifyWorld fun w => { w with rest := evm.warmPreCallAccounts block w.rest }
  let calls ← orDiscard (executeCalls evm signed outcome outcome.executionGasAvailable)
  let gasUsed ← orDiscard
    (settleFees evm outcome calls prepaid encoded block.spec block.beneficiary)
  return (gasUsed, calls)

/-- Takes the logs, commits, and publishes the statuses of the phases. -/
def finish (gasUsed : ℕ) (calls : CallsResult) : Exec σ ExecutionResult := do
  let logs := (← world).logs
  modify (commitTransaction evm)
  modify fun c => { c with phaseStatuses := calls.phaseStatuses }
  if calls.reverted then return .revert gasUsed logs calls.output
  else return .success gasUsed logs calls.output

def execute (block : BlockEnv) (signed : Eip8130Signed) (envelopedTx : Option Bytes) :
    Exec σ ExecutionResult := do
  modify fun c => { c with phaseStatuses := [] }
  ensure (signed.tx.chainId = block.chainId) (.text "chain id mismatch")
  ensure (block.timestamp.toNat < 2 ^ 64) (.text "block timestamp exceeds u64")
  let now := UInt64.ofNat block.timestamp.toNat
  let encoded ← orThrow envelopedTx "missing enveloped transaction bytes"
  refreshL1BlockInfo evm block
  let (gasUsed, calls) ← runStages env evm block signed encoded now
  finish evm gasUsed calls

end Execute

end Eip8130Executor

end NodeReth.Eip8130
