import NodeReth.Eip8130.Executor

/-!
# The stages of an execution

What each stage of the executor does when it succeeds, and which part of the context it leaves
alone in any case. The calls are described by `FramesRun`: frames that were dispatched one after the
other and succeeded. `runPhases_ok` says that the journal after the calls is the one after the
frames of the phases in front of the first phase that fails.
-/

namespace NodeReth.Eip8130.Eip8130Executor

open Bytes Checked Effects List Nat Words

variable {σ : Type} {env : Env} {evm : Evm σ} {c c' : Context σ}
  {a : Address} {encoded : Bytes} {gasLimit : ℕ} {signed : Eip8130Signed} {spec : BaseSpecId}

/-! ## Reading and writing the journal -/

def mapWorld (c : Context σ) (f : World σ → World σ) : Context σ :=
  { c with journal := { c.journal with state := f c.journal.state } }

theorem world_bind {α : Type} (f : World σ → Exec σ α) : (world >>= f) c = f c.journal.state c := rfl

theorem modifyWorld_ok_iff {f : World σ → World σ} {u : Unit} :
    modifyWorld f c = .ok u c' ↔ c' = mapWorld c f := modify_ok_iff

theorem liftExcept_ok_iff {α ε : Type} {f : ε → Eip8130Error} {x : Except ε α} {a : α} :
    liftExcept f x c = .ok a c' ↔ x = .ok a ∧ c' = c := by
  cases x with
  | ok b =>
    rw [Except.ok.injEq, show (liftExcept f (.ok b) : Exec σ α) = pure b from rfl, pure_ok_iff]
    exact and_congr_left fun _ => eq_comm
  | error e =>
    refine ⟨fun h => ?_, fun h => ?_⟩
    · cases h
    · cases h.1

theorem orThrow_ok_iff {α : Type} {o : Option α} {text : String} {a : α} :
    orThrow o text c = .ok a c' ↔ o = some a ∧ c' = c := by
  cases o with
  | some b =>
    rw [Option.some.injEq, show (orThrow (some b) text : Exec σ α) = pure b from rfl, pure_ok_iff]
    exact and_congr_left fun _ => eq_comm
  | none =>
    refine ⟨fun h => ?_, fun h => ?_⟩
    · cases h
    · cases h.1

theorem loadAccount_ok {fault : String → EvmError} {info : Account}
    (h : loadAccount evm fault a c = .ok info c') :
    info = c.journal.state.accounts a ∧ ∃ rest, c' = mapWorld c (fun w => { w with rest }) ∧
      evm.loadAccount c.journal.state a = .ok rest := by
  unfold loadAccount at h
  rw [world_bind] at h
  cases hload : evm.loadAccount c.journal.state a with simp only [hload] at h
  | error text => cases h
  | ok rest =>
    obtain ⟨_, hmodify, rfl⟩ := bind_return_ok h
    exact ⟨rfl, rest, modifyWorld_ok_iff.mp hmodify, rfl⟩

theorem loadAccount_error {fault : String → EvmError} {e : EvmError}
    (h : loadAccount evm fault a c = .error e c') : c' = c ∧ ∃ text, e = fault text := by
  unfold loadAccount at h
  rw [world_bind] at h
  cases hload : evm.loadAccount c.journal.state a with simp only [hload] at h
  | error text =>
    cases h
    exact ⟨rfl, text, rfl⟩
  | ok rest => cases h

/-! ## What a stage leaves alone -/

section Frames

variable {γ α : Type} {f : Context σ → γ}

theorem reads_orThrow (o : Option α) (text : String) : Reads (orThrow o text : Exec σ α) := by
  cases o with
  | some a => exact reads_pure a
  | none => exact reads_throw _

instance {ε : Type} (g : ε → Eip8130Error) (x : Except ε α) : Frames f (liftExcept g x : Exec σ α) := by
  cases x with
  | ok a => exact (reads_pure a).frames
  | error e => exact (reads_throw _).frames

instance (o : Option α) (text : String) : Frames f (orThrow o text : Exec σ α) :=
  (reads_orThrow o text).frames

instance (tx : TxEip8130) (nowMs : ℕ) : Frames f (checkValidityWindow tx nowMs : Exec σ Unit) :=
  ((reads_ensure _ _).bind fun _ => reads_ensure _ _).frames

instance : Frames f (world : Exec σ (World σ)) := by
  unfold world
  infer_instance

instance (g : World σ → World σ) [h : Untouched f fun c => mapWorld c g] :
    Frames f (modifyWorld g : Exec σ Unit) := ⟨keeps_modify h.eq⟩

/-- A part of the context that does not depend on what is loaded and warm. -/
class IgnoresRest (f : Context σ → γ) : Prop where
  rest (rest : σ) : Untouched f fun c => mapWorld c fun w => { w with rest } := by
    intros; exact ⟨fun _ => rfl⟩

/-- A part of the context that does not depend on the transaction context and the logs either. -/
class IgnoresMarks (f : Context σ → γ) : Prop extends IgnoresRest f where
  log (entry) : Untouched f fun c => mapWorld c fun w => w.log entry := by
    intros; exact ⟨fun _ => rfl⟩
  context (txContext) : Untouched f fun c => mapWorld c fun w => { w with txContext } := by
    intros; exact ⟨fun _ => rfl⟩

/-- A part of the context that does not depend on the code of accounts. -/
class IgnoresCode (f : Context σ → γ) : Prop where
  code (a code) : Untouched f fun c => mapWorld c fun w => w.setCode a code := by
    intros; exact ⟨fun _ => rfl⟩

/-- A part of the context that does not depend on the account configuration. -/
class IgnoresConfig (f : Context σ → γ) : Prop where
  config (config : World σ → AccountConfigurationStorage) (logs : World σ → List Log) :
    Untouched f fun c => mapWorld c fun w => { w with config := config w, logs := logs w } := by
    intros; exact ⟨fun _ => rfl⟩

class IgnoresSetup (f : Context σ → γ) : Prop extends
  IgnoresMarks f, IgnoresCode f, IgnoresConfig f

/-- A part of the context that does not depend on the nonce manager. -/
class IgnoresNonceManager (f : Context σ → γ) : Prop where
  nonces (nonces : World σ → Address → BitVec 256 → UInt64)
    (expiring : World σ → NonceManagerStorage) (logs : World σ → List Log) :
    Untouched f fun c => mapWorld c fun w =>
      { w with nonces := nonces w, expiring := expiring w, logs := logs w } := by
    intros; exact ⟨fun _ => rfl⟩

attribute [instance] IgnoresCode.code IgnoresMarks.log IgnoresMarks.context IgnoresConfig.config
  IgnoresNonceManager.nonces

variable (a b : Address) (code : Bytes) (tx : TxEip8130) (n m : ℕ) (fee : BitVec 128)
  (chainId now : UInt64) (nonceKey : BitVec 256) (applied : AppliedAccountChanges)

instance [h : IgnoresRest f] (fault : String → EvmError) : Frames f (loadAccount evm fault a) := by
  refine ⟨fun c info c' hload => ?_, fun c e c' hload => ?_⟩
  · obtain ⟨-, rest, rfl, -⟩ := loadAccount_ok hload
    exact (h.rest rest).eq c
  · rw [(loadAccount_error hload).1]

instance [IgnoresRest f] : Frames f (accountInfo evm a) :=
  inferInstanceAs (Frames f (loadAccount _ _ _))

instance [IgnoresRest f] : Frames f (loadAccountMut evm a) :=
  inferInstanceAs (Frames f (loadAccount _ _ _))

instance : Frames f (getNonce a nonceKey : Exec σ UInt64) := by
  unfold getNonce
  infer_instance

instance (mode : NonceMode) : Frames f (validateNonce env tx a now mode n : Exec σ NonceStatus) := by
  unfold validateNonce
  infer_instance

instance (input : IntrinsicGasInput) :
    Frames f (resolveExecutionGas signed code input n : Exec σ _) := by
  refine Frames.bind fun intrinsic => ?_
  split <;> infer_instance

instance [IgnoresConfig f] : Frames f (authorizeTransaction env evm signed chainId now) := by
  refine Frames.bind fun w => ?_
  split <;> infer_instance

section Setup

variable [IgnoresMarks f]

instance : Frames f (checkFees evm tx a n fee) := by
  unfold checkFees
  infer_instance

instance (actorId : B256) : Frames f (setContext a b actorId) := by
  unfold setContext
  infer_instance

section Code

variable [IgnoresCode f]

instance : Frames f (installCreatedCode evm a code) := by
  refine Frames.bind fun info => Frames.bind fun _ => ?_
  split <;> infer_instance

instance (delegation : DelegationEffect) : Frames f (installDelegation evm delegation) := by
  unfold installDelegation
  infer_instance

instance : Frames f (installCode evm applied) := by
  unfold installCode
  cases applied.created <;> cases applied.delegation <;> infer_instance

instance : Frames f (autoDelegate evm applied a) := by
  unfold autoDelegate autoDelegateCodelessSender
  infer_instance

end Code

variable [IgnoresNonceManager f]

instance (hash : B256) : Frames f (checkAndMarkExpiringNonce n hash m) := by
  refine Frames.bind fun w => ?_
  split <;> infer_instance

instance : Frames f (incrementNonce a nonceKey) := by
  unfold incrementNonce
  infer_instance

instance : Frames f (advanceNonce env evm tx a n m) := by
  unfold advanceNonce
  infer_instance

instance [IgnoresCode f] [IgnoresConfig f] :
    Frames f (authorizeAndApply env evm signed encoded chainId now fee) := by
  refine Frames.bind fun _ => Frames.bind fun appliedTx => Frames.bind fun _ => Frames.bind fun _ =>
    Frames.bind fun _ => Frames.bind fun _ => Frames.bind fun _ => ?_
  infer_instance

end Setup

end Frames

/-! ## Before the calls -/

variable {payerAuth available gas n pool : ℕ} {outcome : Eip8130Outcome}

theorem resolveExecutionGas_ok {input : IntrinsicGasInput} {senderIntrinsic : ℕ}
    (h : resolveExecutionGas signed encoded input gasLimit c =
      .ok (senderIntrinsic, payerAuth, available) c') :
    c' = c ∧ ∃ intrinsic, IntrinsicGas.compute signed encoded input = .ok intrinsic ∧
      intrinsic.executionGasAvailable gasLimit = some available ∧
      senderIntrinsic = intrinsic.senderIntrinsic ∧ payerAuth = intrinsic.payerAuth := by
  obtain ⟨intrinsic, u, hlift, hmatch⟩ := bind_ok_iff.mp h
  obtain ⟨hcompute, rfl⟩ := liftExcept_ok_iff.mp hlift
  cases havailable : intrinsic.executionGasAvailable gasLimit with simp only [havailable] at hmatch
  | none => cases hmatch
  | some available' =>
    obtain ⟨heq, rfl⟩ := pure_ok_iff.mp hmatch
    cases heq
    exact ⟨rfl, intrinsic, hcompute, havailable, rfl, rfl⟩

theorem authorizeAndApply_ok {chainId now : UInt64} {baseFee : BitVec 128}
    (h : authorizeAndApply env evm signed encoded chainId now baseFee c = .ok outcome c') :
    ∃ appliedTx input intrinsic auto cApplied cCode cNonce cAuto cChecked,
      authorizeTransaction env evm signed chainId now c = .ok appliedTx cApplied ∧
      installCode evm appliedTx.applied cApplied = .ok () cCode ∧
      advanceNonce env evm signed.tx outcome.sender now.toNat (satMul now.toNat 1000) cCode =
        .ok (input.nonceKeyFirstUse, outcome.bumpProtocolNonce) cNonce ∧
      autoDelegate evm appliedTx.applied outcome.sender cNonce = .ok auto cAuto ∧
      IntrinsicGas.compute signed encoded input = .ok intrinsic ∧
      intrinsic.executionGasAvailable outcome.gasLimit = some outcome.executionGasAvailable ∧
      checkFees evm signed.tx outcome.payer outcome.payerAuth baseFee cAuto = .ok () cChecked ∧
      setContext outcome.sender outcome.payer outcome.senderActorId cChecked = .ok () c' ∧
      outcome = {
        sender := appliedTx.actors.sender.account
        payer := (appliedTx.actors.payer.map fun p => p.account).getD appliedTx.actors.sender.account
        senderActorId := appliedTx.actors.sender.resolved.actorId
        policyGated := appliedTx.actors.sender.resolved.isPolicyGated
        policyTarget := appliedTx.actors.sender.resolved.policyTarget
        gasLimit := signed.tx.gasLimit.toNat
        senderIntrinsic := intrinsic.senderIntrinsic
        payerAuth := intrinsic.payerAuth
        executionGasAvailable := outcome.executionGasAvailable
        effective := FeeCheck.effectiveGasPrice signed.tx.maxFeePerGas
          signed.tx.maxPriorityFeePerGas baseFee
        baseFee := baseFee
        bumpProtocolNonce := outcome.bumpProtocolNonce } := by
  obtain ⟨_, u, hwindow, h⟩ := bind_ok_iff.mp h
  rw [Frames.unchanged hwindow] at h
  obtain ⟨appliedTx, cApplied, hauthorize, h⟩ := bind_ok_iff.mp h
  obtain ⟨_, u, hscope, h⟩ := bind_ok_iff.mp h
  rw [(ensure_ok_iff.mp hscope).2] at h
  obtain ⟨_, cCode, hcode, h⟩ := bind_ok_iff.mp h
  obtain ⟨⟨first, bump⟩, cNonce, hnonce, h⟩ := bind_ok_iff.mp h
  obtain ⟨auto, cAuto, hauto, h⟩ := bind_ok_iff.mp h
  obtain ⟨⟨senderIntrinsic, payerAuth, available⟩, u, hgas, h⟩ := bind_ok_iff.mp h
  obtain ⟨_, cChecked, hfees, h⟩ := bind_ok_iff.mp h
  obtain ⟨_, hcontext, rfl⟩ := bind_return_ok h
  obtain ⟨rfl, intrinsic, hcompute, havailable, rfl, rfl⟩ := resolveExecutionGas_ok hgas
  exact ⟨appliedTx, _, intrinsic, auto, cApplied, cCode, cNonce, _, cChecked, hauthorize, hcode,
    hnonce, hauto, hcompute, havailable, hfees, hcontext, rfl⟩

def balances (w : World σ) (a : Address) : BitVec 256 := (w.accounts a).balance

theorem balances_setBalance (w : World σ) (a : Address) (b : BitVec 256) :
    balances (w.setBalance a b) = Function.update (balances w) a b :=
  Function.comp_update Account.balance w.accounts a _

/-- A part of the accounts that the new account agrees on with the old one. -/
theorem setAccount_part {γ : Type} (g : Account → γ) {w : World σ} {account : Account}
    (h : g account = g (w.accounts a)) :
    (fun a' => g ((w.setAccount a account).accounts a')) = fun a' => g (w.accounts a') := by
  refine (Function.comp_update g w.accounts a account).trans ?_
  rw [h]
  exact Function.update_eq_self a (g ∘ w.accounts)

theorem txL1Cost_ok_iff {cost : BitVec 256} :
    txL1Cost encoded spec c = .ok cost c' ↔
      cost = (c.chain.calculateTxL1Cost encoded spec).1 ∧
        c' = { c with chain := (c.chain.calculateTxL1Cost encoded spec).2 } := by
  show EStateM.Result.ok _ _ = .ok cost c' ↔ _
  rw [EStateM.Result.ok.injEq]
  exact and_congr eq_comm eq_comm

theorem operatorCost_ok_iff {cost : BitVec 256} :
    operatorCost encoded gas spec c = .ok cost c' ↔
      cost = c.chain.operatorFeeCharge encoded (.ofNat 256 gas) spec ∧ c' = c := by
  show EStateM.Result.ok _ _ = .ok cost c' ↔ _
  rw [EStateM.Result.ok.injEq]
  exact and_congr eq_comm eq_comm

def bumped (evm : Evm σ) (account : Account) : Account :=
  { account with nonce := evm.bumpNonce account.nonce }

/-- The world in which the nonce of the sender has been bumped, if it has to be. -/
def afterBump (evm : Evm σ) (outcome : Eip8130Outcome) (w : World σ) : World σ :=
  if outcome.bumpProtocolNonce then
    w.setAccount outcome.sender (bumped evm (w.accounts outcome.sender))
  else w

theorem balances_afterBump (outcome : Eip8130Outcome) (w : World σ) :
    balances (afterBump evm outcome w) = balances w := by
  unfold afterBump
  split_ifs
  · exact setAccount_part Account.balance rfl
  · rfl

theorem bumpSenderNonce_ok (h : bumpSenderNonce evm outcome c = .ok () c') :
    ∃ rest, c' = mapWorld c fun w => { afterBump evm outcome w with rest } := by
  unfold bumpSenderNonce at h
  unfold afterBump
  cases hbump : outcome.bumpProtocolNonce with rw [hbump] at h
  | true =>
    obtain ⟨info, u, hload, hmodify⟩ := bind_ok_iff.mp h
    obtain ⟨rfl, rest, rfl, -⟩ := loadAccount_ok hload
    exact ⟨rest, modifyWorld_ok_iff.mp hmodify⟩
  | false =>
    obtain ⟨-, rfl⟩ := pure_ok_iff.mp h
    exact ⟨c'.journal.state.rest, rfl⟩

theorem checkedSum_eq_some {a b d total : BitVec 256}
    (h : ((checkedAdd a b).bind fun v => checkedAdd v d) = some total) :
    total.toNat = a.toNat + b.toNat + d.toNat := by
  obtain ⟨v, hv, htotal⟩ := Option.bind_eq_some_iff.mp h
  obtain ⟨hlt, rfl⟩ := checkedAdd_eq_some_iff.mp hv
  obtain ⟨hlt', rfl⟩ := checkedAdd_eq_some_iff.mp htotal
  rw [BitVec.toNat_add_of_lt hlt', BitVec.toNat_add_of_lt hlt]

theorem checkedSum_of_lt {a b d : BitVec 256} (h : a.toNat + b.toNat + d.toNat < 2 ^ 256) :
    ((checkedAdd a b).bind fun v => checkedAdd v d) = some (a + b + d) := by
  have hab : a.toNat + b.toNat < 2 ^ 256 := by omega
  rw [checkedAdd_eq_some_iff.mpr ⟨hab, rfl⟩]
  refine checkedAdd_eq_some_iff.mpr ⟨?_, rfl⟩
  rwa [BitVec.toNat_add_of_lt hab]

/-- A gas count below 2^64 at a price below 2^128. -/
theorem checkedMul_gas (hgas : gas < 2 ^ 64) (price : BitVec 128) :
    ∃ amount, checkedMul (.ofNat 256 gas) (price.setWidth 256) = some amount ∧
      amount.toNat = gas * price.toNat := by
  have hprice := price.isLt
  have hgasWord : (BitVec.ofNat 256 gas).toNat = gas := by
    rw [BitVec.toNat_ofNat]
    omega
  have hpriceWord : (price.setWidth 256).toNat = price.toNat := by
    rw [BitVec.toNat_setWidth]
    omega
  have hlt : gas * price.toNat < 2 ^ 256 :=
    calc gas * price.toNat < 2 ^ 64 * 2 ^ 128 := mul_lt_mul'' hgas hprice
      _ < 2 ^ 256 := by norm_num
  refine ⟨.ofNat 256 gas * price.setWidth 256, checkedMul_eq_some_iff.mpr ⟨?_, rfl⟩, ?_⟩
  · rwa [hgasWord]
  · rw [BitVec.toNat_mul, hgasWord, hpriceWord, mod_eq_of_lt hlt]

theorem maxChargeableGas_lt (gasLimit payerAuth : ℕ) :
    FeeCheck.maxChargeableGas gasLimit payerAuth < 2 ^ 64 := by
  unfold FeeCheck.maxChargeableGas satAdd u64Max
  omega

/-- What the payer is charged: the gas limit and the authentication of the payer at the effective
price, the cost on L1, and the fee of the operator. -/
theorem prepay_ok {pre : BitVec 256} (h : prepay evm outcome encoded spec c = .ok pre c') :
    let maxGas := FeeCheck.maxChargeableGas outcome.gasLimit outcome.payerAuth
    c'.chain = (c.chain.calculateTxL1Cost encoded spec).2 ∧
      pre.toNat = maxGas * outcome.effective.toNat + (c.chain.calculateTxL1Cost encoded spec).1.toNat +
        (c'.chain.operatorFeeCharge encoded (.ofNat 256 maxGas) spec).toNat ∧
      pre ≤ balances c.journal.state outcome.payer ∧
      c'.journal.committed = c.journal.committed ∧
      ∃ rest, c'.journal.state = ({ afterBump evm outcome c.journal.state with rest }).setBalance
        outcome.payer (balances c.journal.state outcome.payer - pre) := by
  obtain ⟨_, c₁, hcaller, h⟩ := bind_ok_iff.mp h
  obtain ⟨_, c₂, hbump, h⟩ := bind_ok_iff.mp h
  obtain ⟨gasCharge, u₂, hcharge, h⟩ := bind_ok_iff.mp h
  obtain ⟨l1, c₃, hl1, h⟩ := bind_ok_iff.mp h
  obtain ⟨op, u₃, hop, h⟩ := bind_ok_iff.mp h
  obtain ⟨total, u₄, htotal, h⟩ := bind_ok_iff.mp h
  obtain ⟨info, c₄, hload, h⟩ := bind_ok_iff.mp h
  obtain ⟨debited, u₅, hdebit, h⟩ := bind_ok_iff.mp h
  obtain ⟨_, hmodify, rfl⟩ := bind_return_ok h
  obtain rfl := modify_ok_iff.mp hcaller
  obtain ⟨rest₂, rfl⟩ := bumpSenderNonce_ok hbump
  obtain ⟨hgasCharge, rfl⟩ := orThrow_ok_iff.mp hcharge
  obtain ⟨rfl, rfl⟩ := txL1Cost_ok_iff.mp hl1
  obtain ⟨rfl, rfl⟩ := operatorCost_ok_iff.mp hop
  obtain ⟨hsum, rfl⟩ := orThrow_ok_iff.mp htotal
  obtain ⟨rfl, rest₄, rfl, -⟩ := loadAccount_ok hload
  obtain ⟨hdebited, rfl⟩ := orThrow_ok_iff.mp hdebit
  obtain rfl := modifyWorld_ok_iff.mp hmodify
  obtain ⟨amount, hamount, hvalue⟩ :=
    checkedMul_gas (maxChargeableGas_lt outcome.gasLimit outcome.payerAuth) outcome.effective
  obtain rfl : amount = gasCharge := Option.some.inj (hamount.symm.trans hgasCharge)
  have hbalance : (World.accounts (mapWorld c fun w =>
      { afterBump evm outcome w with rest := rest₂ }).journal.state outcome.payer).balance =
      balances c.journal.state outcome.payer :=
    congrFun (balances_afterBump outcome c.journal.state) outcome.payer
  obtain ⟨hle, rfl⟩ := checkedSub_eq_some_iff.mp hdebited
  refine ⟨rfl, ?_, hbalance ▸ hle, rfl, rest₄, ?_⟩
  · rw [checkedSum_eq_some hsum, hvalue]
    rfl
  · rw [← hbalance]
    rfl

/-! ## Calls -/

/-- The context differs in the journal's current world only. -/
def OnlyWorld (c c' : Context σ) : Prop := ∃ w, c' = mapWorld c fun _ => w

theorem OnlyWorld.refl (c : Context σ) : OnlyWorld c c := ⟨c.journal.state, rfl⟩

theorem OnlyWorld.trans {d : Context σ} (h : OnlyWorld c c') (h' : OnlyWorld c' d) : OnlyWorld c d := by
  obtain ⟨w, rfl⟩ := h
  obtain ⟨w', rfl⟩ := h'
  exact ⟨w', rfl⟩

theorem OnlyWorld.revert (h : OnlyWorld c c') : mapWorld c' (fun _ => c.journal.state) = c := by
  obtain ⟨-, rfl⟩ := h
  rfl

/-- Loads the account of a call, and the one that it is delegated to: the world behind the loads and
the code that the call runs. -/
inductive Loads (evm : Evm σ) (w : World σ) (a : Address) : World σ → Bytes → Prop
  | own {rest : σ} (hcode : eip7702Address (w.accounts a).code = none)
      (hload : evm.loadAccount w a = .ok rest) :
      Loads evm w a { w with rest } (w.accounts a).code
  | delegated {d : Address} {rest rest' : σ} (hcode : eip7702Address (w.accounts a).code = some d)
      (hload : evm.loadAccount w a = .ok rest)
      (hload' : evm.loadAccount { w with rest } d = .ok rest') :
      Loads evm w a { w with rest := rest' } (w.accounts d).code

theorem Loads.rest {w v : World σ} {code : Bytes} (h : Loads evm w a v code) :
    ∃ rest, v = { w with rest } := by
  cases h with
  | own | delegated => exact ⟨_, rfl⟩

theorem knownBytecode_ok {code : Bytes} (h : knownBytecode evm a c = .ok code c') :
    ∃ v, Loads evm c.journal.state a v code ∧ c' = mapWorld c fun _ => v := by
  obtain ⟨info, u, hload, hmatch⟩ := bind_ok_iff.mp h
  obtain ⟨rfl, rest, rfl, hrest⟩ := loadAccount_ok hload
  cases hdelegated : eip7702Address (c.journal.state.accounts a).code with
    simp only [hdelegated] at hmatch
  | some delegated =>
    obtain ⟨target, v, hload', hpure⟩ := bind_ok_iff.mp hmatch
    obtain ⟨rfl, rest', rfl, hrest'⟩ := loadAccount_ok hload'
    obtain ⟨rfl, rfl⟩ := pure_ok_iff.mp hpure
    exact ⟨_, .delegated hdelegated hrest hrest', rfl⟩
  | none =>
    obtain ⟨rfl, rfl⟩ := pure_ok_iff.mp hmatch
    exact ⟨_, .own hdelegated hrest, rfl⟩

/-- The EVM runs the frame of a call, on the world in which its accounts have been loaded. -/
def Dispatches (evm : Evm σ) (caller : Address) (call : Call) (gas : ℕ) (w : World σ)
    (frame : FrameResult) (w' : World σ) : Prop :=
  ∃ v bytecode, Loads evm w call.toAddress v bytecode ∧
    evm.runExecLoop v ⟨call.data, gas, bytecode, call.toAddress, caller⟩ = (.ok frame, w')

theorem runCall_ok {caller : Address} {call : Call} {frame : FrameResult}
    (h : runCall evm caller call.toAddress call.data gasLimit c = .ok frame c') :
    Dispatches evm caller call gasLimit c.journal.state frame c'.journal.state ∧ OnlyWorld c c' := by
  obtain ⟨bytecode, u, hcode, hrun⟩ := bind_ok_iff.mp h
  obtain ⟨v, hloads, rfl⟩ := knownBytecode_ok hcode
  rw [world_bind] at hrun
  rcases hframe : evm.runExecLoop v ⟨call.data, gasLimit, bytecode, call.toAddress, caller⟩ with
    ⟨result, after⟩
  have hframe' : evm.runExecLoop (mapWorld c fun _ => v).journal.state
    ⟨call.data, gasLimit, bytecode, call.toAddress, caller⟩ = (result, after) := hframe
  simp only [hframe'] at hrun
  cases result with
  | ok result =>
    obtain ⟨_, hmodify, rfl⟩ := bind_return_ok hrun
    obtain rfl := modifyWorld_ok_iff.mp hmodify
    exact ⟨⟨v, bytecode, hloads, hframe⟩, after, rfl⟩
  | error e =>
    cases hrun

/-- Frames of calls that the EVM runs one after the other and that succeed, from a world and an
amount of gas to a world and what is left of the gas. -/
inductive FramesRun (evm : Evm σ) (outcome : Eip8130Outcome) :
    World σ → ℕ → List Call → World σ → ℕ → Prop
  | nil (w : World σ) (gas : ℕ) : FramesRun evm outcome w gas [] w gas
  | cons {w w' v gas left call calls frame} (hgate : blocked outcome call = false)
      (hcall : Dispatches evm outcome.sender call gas w frame w')
      (hspent : frame.totalGasSpent ≤ gas) (hok : frame.isOk = true)
      (hrest : FramesRun evm outcome w' (gas - frame.totalGasSpent) calls v left) :
      FramesRun evm outcome w gas (call :: calls) v left

namespace FramesRun

variable {outcome : Eip8130Outcome} {w w' v : World σ} {gas left left' : ℕ} {calls calls' : List Call}

theorem append (h : FramesRun evm outcome w gas calls w' left)
    (h' : FramesRun evm outcome w' left calls' v left') :
    FramesRun evm outcome w gas (calls ++ calls') v left' := by
  induction h with
  | nil => exact h'
  | cons hgate hcall hspent hok _ ih => exact .cons hgate hcall hspent hok (ih h')

/-- What every frame that the EVM runs preserves, and loading accounts does not touch. -/
theorem preserves (rel : World σ → World σ → Prop) (hrefl : ∀ w, rel w w)
    (htrans : ∀ u v w, rel u v → rel v w → rel u w)
    (hload : ∀ (w : World σ) rest, rel w { w with rest })
    (hframe : ∀ w inputs frame w', evm.runExecLoop w inputs = (.ok frame, w') → rel w w')
    (h : FramesRun evm outcome w gas calls w' left) : rel w w' := by
  induction h with
  | nil => exact hrefl _
  | cons _ hcall _ _ _ ih =>
    obtain ⟨_, _, hloads, hrun⟩ := hcall
    obtain ⟨rest, rfl⟩ := hloads.rest
    exact htrans _ _ _ (htrans _ _ _ (hload _ rest) (hframe _ _ _ _ hrun)) ih

end FramesRun

/-- A phase in which some call is stopped by the policy gate or fails, behind calls that
succeed. -/
def PhaseFails (evm : Evm σ) (outcome : Eip8130Outcome) (w : World σ) (gas : ℕ)
    (phase : List Call) : Prop :=
  ∃ before call after w₁ left, phase = before ++ call :: after ∧
    FramesRun evm outcome w gas before w₁ left ∧
    (blocked outcome call = true ∨ ∃ frame w₂,
      Dispatches evm outcome.sender call left w₁ frame w₂ ∧ frame.isOk = false)

theorem runPhase_ok {calls : List Call} {left : ℕ} {refund refund' : ℤ} {failure : Option Bytes}
    (h : runPhase evm outcome calls gas refund c = .ok (left, refund', failure) c') :
    OnlyWorld c c' ∧ match failure with
    | none => FramesRun evm outcome c.journal.state gas calls c'.journal.state left
    | some _ => PhaseFails evm outcome c.journal.state gas calls := by
  induction calls generalizing c gas refund with
  | nil =>
    obtain ⟨hresult, rfl⟩ := pure_ok_iff.mp h
    cases hresult
    exact ⟨.refl _, .nil _ _⟩
  | cons call calls ih =>
    unfold runPhase at h
    cases hgate : blocked outcome call with rw [hgate] at h
    | true =>
      obtain ⟨hresult, rfl⟩ := pure_ok_iff.mp h
      cases hresult
      exact ⟨.refl _, [], call, calls, _, _, rfl, .nil _ _, .inl hgate⟩
    | false =>
      obtain ⟨frame, c₁, hcall, h₁⟩ := bind_ok_iff.mp h
      obtain ⟨_, u, hensure, h₂⟩ := bind_ok_iff.mp h₁
      obtain ⟨hspent, rfl⟩ := ensure_ok_iff.mp hensure
      obtain ⟨hcall, honly⟩ := runCall_ok hcall
      cases hok : frame.isOk with rw [hok] at h₂
      | true =>
        obtain ⟨honly', hrest⟩ := ih h₂
        refine ⟨honly.trans honly', ?_⟩
        cases failure with
        | none => exact .cons hgate hcall hspent hok hrest
        | some output =>
          obtain ⟨before, call', after, w₂, left', rfl, hrun, hfails⟩ := hrest
          exact ⟨call :: before, call', after, w₂, left', rfl, .cons hgate hcall hspent hok hrun,
            hfails⟩
      | false =>
        obtain ⟨hresult, rfl⟩ := pure_ok_iff.mp h₂
        cases hresult
        exact ⟨honly, [], call, calls, _, gas, rfl, .nil _ _, .inr ⟨frame, _, hcall, hok⟩⟩

/-- What the phases come to: those in front of the first one that fails have run, one status for
each phase says so, and the journal holds nothing of the others. -/
structure PhasesDone (evm : Evm σ) (outcome : Eip8130Outcome) (w : World σ) (gas : ℕ)
    (phases : List (List Call)) (k : ℕ) (w' : World σ) (left : ℕ) : Prop where
  le : k ≤ phases.length
  run : FramesRun evm outcome w gas (phases.take k).flatten w' left
  fails : ∀ phase, phases[k]? = some phase → PhaseFails evm outcome w' left phase

/-- The statuses of `n` phases of which the first `k` have run. -/
def statusesOf (n k : ℕ) : List UInt8 := replicate k 0x01 ++ replicate (n - k) 0x00

theorem resize_concat {statuses : List UInt8} (h : statuses.length < n) :
    resize (statuses ++ [0x00]) n 0x00 = statuses ++ replicate (n - statuses.length) 0x00 := by
  obtain ⟨m, hm⟩ := exists_eq_succ_of_ne_zero (show n - statuses.length ≠ 0 by omega)
  unfold resize
  rw [take_of_length_le (by simp; omega), length_append, length_singleton,
    show n - (statuses.length + 1) = m by omega, hm, append_assoc]
  rfl

theorem runPhases_ok {phases : List (List Call)} {refund : ℤ} {statuses : List UInt8} {r : CallsResult}
    (h : runPhases evm outcome pool n phases gas refund statuses c = .ok r c')
    (hn : statuses.length + phases.length = n) :
    OnlyWorld c c' ∧ r.callGasSpent ≤ pool ∧ ∃ k left,
      PhasesDone evm outcome c.journal.state gas phases k c'.journal.state left ∧
      r.phaseStatuses = statuses ++ statusesOf phases.length k ∧
      (r.reverted = true ↔ k < phases.length) ∧
      ∀ phases', phases'.length = phases.length → phases'.take (k + 1) = phases.take (k + 1) →
        runPhases evm outcome pool n phases' gas refund statuses c = .ok r c' := by
  induction phases generalizing c gas refund statuses with
  | nil =>
    obtain ⟨rfl, rfl⟩ := pure_ok_iff.mp h
    refine ⟨.refl _, sub_le _ _, 0, gas, ⟨le_rfl, .nil _ _, by simp⟩, ?_, by simp,
      fun phases' hlen _ => ?_⟩
    · simp [statusesOf]
    · rw [length_eq_zero_iff.mp hlen]
      rfl
  | cons phase phases ih =>
    rw [length_cons] at hn
    unfold runPhases at h
    rw [world_bind] at h
    obtain ⟨⟨left, phaseRefund, failure⟩, c₁, hphase, h₁⟩ := bind_ok_iff.mp h
    obtain ⟨honly, hspec⟩ := runPhase_ok hphase
    cases failure with
    | some output =>
      obtain ⟨_, hmodify, rfl⟩ := bind_return_ok h₁
      rw [modifyWorld_ok_iff.mp hmodify, honly.revert]
      refine ⟨.refl _, sub_le _ _, 0, gas, ⟨zero_le _, .nil _ _, fun p hp => ?_⟩, ?_, by simp,
        fun phases' hlen htake => ?_⟩
      · obtain rfl : phase = p := by simpa using hp
        exact hspec
      rotate_left
      · obtain ⟨phase', later, rfl⟩ := exists_cons_of_length_eq_add_one hlen
        obtain rfl : phase' = phase := by simpa using htake
        unfold runPhases
        rw [world_bind]
        refine bind_ok_iff.mpr ⟨_, _, hphase, ?_⟩
        refine bind_ok_iff.mpr ⟨(), _, modifyWorld_ok_iff.mpr rfl, ?_⟩
        rw [honly.revert]
        rfl
      · rw [resize_concat (by omega), show n - statuses.length = (phase :: phases).length by
          rw [length_cons]; omega]
        rfl
    | none =>
      obtain ⟨honly', hspent, k, left', hdone, hstatuses, hreverted, hlater⟩ :=
        ih h₁ (by simp; omega)
      refine ⟨honly.trans honly', hspent, k + 1, left', ⟨?_, ?_, fun p hp => hdone.fails p ?_⟩, ?_, ?_,
        fun phases' hlen htake => ?_⟩
      · exact succ_le_succ hdone.le
      · exact hspec.append hdone.run
      · rwa [getElem?_cons_succ] at hp
      · rw [hstatuses, statusesOf, statusesOf, length_cons, Nat.add_sub_add_right, append_assoc]
        rfl
      · rw [hreverted, length_cons]
        omega
      · obtain ⟨phase', later, rfl⟩ := exists_cons_of_length_eq_add_one hlen
        obtain ⟨rfl, htake'⟩ := cons.inj htake
        unfold runPhases
        rw [world_bind]
        refine bind_ok_iff.mpr ⟨_, _, hphase, ?_⟩
        exact hlater later (Nat.succ.inj hlen) htake'

/-- No phase behind the first one that fails has any part in what the calls come to. -/
theorem executeCalls_ok {r : CallsResult} (h : executeCalls evm signed outcome pool c = .ok r c') :
    OnlyWorld c c' ∧ r.callGasSpent ≤ pool ∧ ∃ k left,
      PhasesDone evm outcome c.journal.state pool signed.tx.calls k c'.journal.state left ∧
      r.phaseStatuses = statusesOf signed.tx.calls.length k ∧
      (r.reverted = true ↔ k < signed.tx.calls.length) ∧
      ∀ signed', signed'.tx.calls.length = signed.tx.calls.length →
        signed'.tx.calls.take (k + 1) = signed.tx.calls.take (k + 1) →
        executeCalls evm signed' outcome pool c = .ok r c' := by
  obtain ⟨honly, hspent, k, left, hdone, hstatuses, hreverted, hlater⟩ :=
    runPhases_ok h (zero_add _)
  refine ⟨honly, hspent, k, left, hdone, hstatuses, hreverted, fun signed' hlen htake => ?_⟩
  unfold executeCalls
  rw [hlen]
  exact hlater _ hlen htake

end NodeReth.Eip8130.Eip8130Executor
