import NodeReth.Eip8130.Admin
import NodeReth.Eip8130.Stages

/-!
# Fee settlement

What the payer is charged before the calls covers what the settlement takes, and the two together
move ether without creating or destroying any (`settlement_conserves`). The charge is computed from
the gas limit and the settlement from the gas that was billed, so the argument is that every part
of the fee grows with the gas.
-/

namespace NodeReth.Eip8130

open BitVec Bytes Checked Effects Eip8130Executor Function L1BlockInfo Words

variable {σ : Type}

noncomputable def totalEther (w : World σ) : ℕ := total (balances w)

/-- `balance_incr` adds, as long as the sum fits. -/
def Evm.AddsBalances (evm : Evm σ) : Prop :=
  ∀ a b, a.toNat + b.toNat < 2 ^ 256 → evm.incrBalance a b = a + b

/-- Frames move ether from account to account only. -/
def Evm.ConservesEther (evm : Evm σ) : Prop :=
  ∀ w inputs frame w', evm.runExecLoop w inputs = (.ok frame, w') → totalEther w' = totalEther w

namespace Eip8130Executor

variable {env : Env} {evm : Evm σ} {c c' : Context σ}
  {a : Address} {b : Address → BitVec 256} {v : BitVec 256}
  {credits : List (Address × BitVec 256)} {e : EvmError} {calls : CallsResult}
  {outcome : Eip8130Outcome} {gas : ℕ} {encoded : Bytes} {pre : BitVec 256} {spec : BaseSpecId}

/-! ## Crediting -/

def creditAll (b : Address → BitVec 256) (credits : List (Address × BitVec 256)) :
    Address → BitVec 256 :=
  credits.foldl (fun b x => update b x.1 (b x.1 + x.2)) b

def creditSum (credits : List (Address × BitVec 256)) : ℕ := (credits.map fun x => x.2.toNat).sum

theorem total_credit (h : (b a).toNat + v.toNat < 2 ^ 256) :
    total (update b a (b a + v)) = total b + v.toNat := by
  have hupdate := total_update b a (b a + v)
  rw [toNat_add_of_lt h] at hupdate
  omega

theorem fits_of_total {v : ℕ} (h : total b + v < 2 ^ 256) (a : Address) : (b a).toNat + v < 2 ^ 256 :=
  (Nat.add_le_add_right (toNat_le_total b a) v).trans_lt h

theorem total_creditAll (h : total b + creditSum credits < 2 ^ 256) :
    total (creditAll b credits) = total b + creditSum credits := by
  induction credits generalizing b with
  | nil => rfl
  | cons x credits ih =>
    have hsum : creditSum (x :: credits) = x.2.toNat + creditSum credits := rfl
    have hcredit : total (update b x.1 (b x.1 + x.2)) = total b + x.2.toNat :=
      total_credit (fits_of_total (by omega) x.1)
    show total (creditAll (update b x.1 (b x.1 + x.2)) credits) = _
    rw [ih (by omega), hcredit, hsum, Nat.add_assoc]

theorem refundPayer_ok {payer : Address} (h : refundPayer evm payer v c = .ok () c') :
    balances c'.journal.state = creditAll (balances c.journal.state) [(payer, v)] := by
  obtain ⟨info, u, hload, h₁⟩ := bind_ok_iff.mp h
  obtain ⟨rfl, rest, rfl, -⟩ := loadAccount_ok hload
  obtain ⟨balance, u, hadd, hmodify⟩ := bind_ok_iff.mp h₁
  obtain ⟨hsum, rfl⟩ := orThrow_ok_iff.mp hadd
  obtain ⟨-, rfl⟩ := checkedAdd_eq_some_iff.mp hsum
  obtain rfl := modifyWorld_ok_iff.mp hmodify
  exact balances_setBalance _ _ _

theorem refundPayer_error {payer : Address}
    (hfits : (balances c.journal.state payer).toNat + v.toNat < 2 ^ 256)
    (h : refundPayer evm payer v c = .error e c') : ∃ fault, e = .database fault := by
  rcases bind_error_iff.mp h with hload | ⟨info, u, hload, h₁⟩
  · exact (loadAccount_error hload).2
  · obtain ⟨rfl, rest, rfl, -⟩ := loadAccount_ok hload
    have hadd : checkedAdd (c.journal.state.accounts payer).balance v =
        some ((c.journal.state.accounts payer).balance + v) :=
      checkedAdd_eq_some_iff.mpr ⟨hfits, rfl⟩
    rw [hadd] at h₁
    cases h₁

theorem balanceIncr_ok (hincr : evm.AddsBalances)
    (hfits : (balances c.journal.state a).toNat + v.toNat < 2 ^ 256)
    (h : balanceIncr evm a v c = .ok () c') :
    balances c'.journal.state = creditAll (balances c.journal.state) [(a, v)] := by
  obtain ⟨info, u, hload, hmodify⟩ := bind_ok_iff.mp h
  obtain ⟨rfl, rest, rfl, -⟩ := loadAccount_ok hload
  obtain rfl := modifyWorld_ok_iff.mp hmodify
  have hsum : evm.incrBalance (c.journal.state.accounts a).balance v =
      (c.journal.state.accounts a).balance + v := hincr _ _ hfits
  show balances (World.setBalance _ a (evm.incrBalance (c.journal.state.accounts a).balance v)) = _
  rw [balances_setBalance, hsum]
  rfl

theorem credits_ok (hincr : evm.AddsBalances)
    (hfits : totalEther c.journal.state + creditSum credits < 2 ^ 256)
    (h : (credits.forM fun x => balanceIncr evm x.1 x.2) c = .ok ⟨⟩ c') :
    balances c'.journal.state = creditAll (balances c.journal.state) credits := by
  induction credits generalizing c with
  | nil =>
    obtain ⟨-, rfl⟩ := pure_ok_iff.mp h
    rfl
  | cons x credits ih =>
    obtain ⟨_, c₁, hx, hrest⟩ := bind_ok_iff.mp h
    have hsum : creditSum (x :: credits) = x.2.toNat + creditSum credits := rfl
    have hcredited : balances c₁.journal.state = creditAll (balances c.journal.state) [x] :=
      balanceIncr_ok hincr (fits_of_total (by unfold totalEther at hfits; omega) x.1) hx
    have htotal : totalEther c₁.journal.state = totalEther c.journal.state + x.2.toNat := by
      unfold totalEther
      rw [hcredited]
      exact total_credit (fits_of_total (by unfold totalEther at hfits; omega) x.1)
    rw [ih (by omega) hrest, hcredited]
    rfl

theorem credits_error (h : (credits.forM fun x => balanceIncr evm x.1 x.2) c = .error e c') :
    ∃ fault, e = .database fault := by
  induction credits generalizing c with
  | nil => cases h
  | cons x credits ih =>
    rcases bind_error_iff.mp h with hx | ⟨_, c₁, -, hrest⟩
    · rcases bind_error_iff.mp hx with hload | ⟨info, u, -, hmodify⟩
      · exact (loadAccount_error hload).2
      · cases hmodify
    · exact ih hrest

/-! ## The parts of the fee -/

theorem toNat_ofNat_gas (h : gas < 2 ^ 65) : (BitVec.ofNat 256 gas).toNat = gas := by
  rw [toNat_ofNat]
  omega

/-- The settlement never runs out of what was charged: its parts, and what is refunded, add up to
it. -/
theorem splitFee_eq {billable : ℕ} {info : L1BlockInfo}
    (hchain : c.chain = (info.calculateTxL1Cost encoded spec).2)
    (hgas : billable ≤ FeeCheck.maxChargeableGas outcome.gasLimit outcome.payerAuth)
    (hfloor : outcome.baseFee ≤ outcome.effective)
    (hpre : pre.toNat = FeeCheck.maxChargeableGas outcome.gasLimit outcome.payerAuth *
        outcome.effective.toNat + (info.calculateTxL1Cost encoded spec).1.toNat +
      (c.chain.operatorFeeCharge encoded
        (.ofNat 256 (FeeCheck.maxChargeableGas outcome.gasLimit outcome.payerAuth)) spec).toNat) :
    ∃ split, splitFee outcome billable pre encoded spec c = .ok split c ∧
      split.l1Cost = (info.calculateTxL1Cost encoded spec).1 ∧
      pre.toNat = split.refundAmount.toNat + (split.baseFeeAmount.toNat +
        (split.priorityAmount.toNat + (split.l1Cost.toNat + split.operatorCost.toNat))) := by
  set maxGas := FeeCheck.maxChargeableGas outcome.gasLimit outcome.payerAuth with hmax
  have hmaxLt : maxGas < 2 ^ 64 := maxChargeableGas_lt _ _
  obtain ⟨fee, hfee, hfeeNat⟩ := checkedMul_gas (hgas.trans_lt hmaxLt) outcome.effective
  obtain ⟨base, hbase, hbaseNat⟩ := checkedMul_gas (hgas.trans_lt hmaxLt) outcome.baseFee
  set l1 := (info.calculateTxL1Cost encoded spec).1 with hl1
  set op := c.chain.operatorFeeCharge encoded (.ofNat 256 billable) spec with hop
  -- every part grows with the gas
  have hfeeLe : fee.toNat ≤ maxGas * outcome.effective.toNat :=
    hfeeNat.le.trans (Nat.mul_le_mul_right _ hgas)
  have hopLe : op.toNat ≤ (c.chain.operatorFeeCharge encoded (.ofNat 256 maxGas) spec).toNat := by
    refine operatorFeeCharge_mono rfl encoded spec ?_
    rwa [toNat_ofNat_gas (by omega), toNat_ofNat_gas (by omega)]
  have hbaseLe : base ≤ fee := by
    rw [le_def, hfeeNat, hbaseNat]
    exact Nat.mul_le_mul_left _ (le_def.mp hfloor)
  have htotalNat : (fee + l1 + op).toNat = fee.toNat + l1.toNat + op.toNat :=
    checkedSum_eq_some (checkedSum_of_lt (by omega))
  have htotalLe : fee + l1 + op ≤ pre := by
    rw [le_def]
    omega
  have hagain : c.chain.calculateTxL1Cost encoded spec = (l1, c.chain) := by
    rw [hchain, calculateTxL1Cost_again]
  refine ⟨⟨base, fee - base, l1, op, pre - (fee + l1 + op)⟩, ?_, rfl, ?_⟩
  · refine bind_ok_iff.mpr ⟨fee, c, orThrow_ok_iff.mpr ⟨hfee, rfl⟩, ?_⟩
    refine bind_ok_iff.mpr ⟨base, c, orThrow_ok_iff.mpr ⟨hbase, rfl⟩, ?_⟩
    refine bind_ok_iff.mpr ⟨fee - base, c,
      orThrow_ok_iff.mpr ⟨checkedSub_eq_some_iff.mpr ⟨hbaseLe, rfl⟩, rfl⟩, ?_⟩
    refine bind_ok_iff.mpr ⟨l1, c, txL1Cost_ok_iff.mpr (by rw [hagain]; exact ⟨rfl, rfl⟩), ?_⟩
    refine bind_ok_iff.mpr ⟨op, c, operatorCost_ok_iff.mpr ⟨rfl, rfl⟩, ?_⟩
    refine bind_ok_iff.mpr ⟨fee + l1 + op, c, orThrow_ok_iff.mpr ⟨checkedSum_of_lt (by omega), rfl⟩, ?_⟩
    exact bind_ok_iff.mpr ⟨pre - (fee + l1 + op), c,
      orThrow_ok_iff.mpr ⟨checkedSub_eq_some_iff.mpr ⟨htotalLe, rfl⟩, rfl⟩, rfl⟩
  · show pre.toNat = (pre - (fee + l1 + op)).toNat +
      (base.toNat + ((fee - base).toNat + (l1.toNat + op.toNat)))
    rw [toNat_sub_of_le htotalLe, toNat_sub_of_le hbaseLe]
    have := le_def.mp hbaseLe
    omega

/-! ## Conservation -/

theorem prepay_balances (h : prepay evm outcome encoded spec c = .ok pre c') :
    balances c'.journal.state = update (balances c.journal.state) outcome.payer
      (balances c.journal.state outcome.payer - pre) := by
  obtain ⟨-, -, -, -, rest, hstate⟩ := prepay_ok h
  rw [hstate, balances_setBalance]
  congr 1
  exact balances_afterBump outcome c.journal.state

theorem prepay_totalEther (h : prepay evm outcome encoded spec c = .ok pre c') :
    totalEther c'.journal.state + pre.toNat = totalEther c.journal.state := by
  obtain ⟨-, -, hle, -, -⟩ := prepay_ok h
  have hupdate := total_update (balances c.journal.state) outcome.payer
    (balances c.journal.state outcome.payer - pre)
  rw [toNat_sub_of_le hle] at hupdate
  have := le_def.mp hle
  unfold totalEther
  rw [prepay_balances h]
  omega

theorem settleFees_ok (hincr : evm.AddsBalances) {beneficiary : Address} {split : FeeSplit}
    (hsplit : splitFee outcome (billableGas outcome calls) pre encoded spec c = .ok split c)
    (hfits : totalEther c.journal.state + (split.refundAmount.toNat +
      creditSum (split.credits beneficiary)) < 2 ^ 256)
    (h : settleFees evm outcome calls pre encoded spec beneficiary c = .ok gas c') :
    gas = billableGas outcome calls ∧
      balances c'.journal.state = creditAll (balances c.journal.state)
        ((outcome.payer, split.refundAmount) :: split.credits beneficiary) := by
  obtain ⟨split', c₁, hsplit', h₁⟩ := bind_ok_iff.mp h
  obtain ⟨rfl, rfl⟩ : split' = split ∧ c₁ = c := by
    rw [hsplit] at hsplit'
    cases hsplit'
    exact ⟨rfl, rfl⟩
  obtain ⟨_, c₂, hrefund, h₂⟩ := bind_ok_iff.mp h₁
  obtain ⟨_, hcredits, rfl⟩ := bind_return_ok h₂
  have hrefunded := refundPayer_ok hrefund
  have hroom : total (balances c₁.journal.state) + split'.refundAmount.toNat < 2 ^ 256 := by
    unfold totalEther at hfits
    omega
  have htotal : totalEther c₂.journal.state =
      totalEther c₁.journal.state + split'.refundAmount.toNat := by
    unfold totalEther
    rw [hrefunded]
    exact total_credit (fits_of_total hroom _)
  refine ⟨rfl, ?_⟩
  rw [credits_ok hincr (by omega) hcredits, hrefunded]
  rfl

theorem settleFees_error {beneficiary : Address} {split : FeeSplit}
    (hsplit : splitFee outcome (billableGas outcome calls) pre encoded spec c = .ok split c)
    (hfits : totalEther c.journal.state + split.refundAmount.toNat < 2 ^ 256)
    (h : settleFees evm outcome calls pre encoded spec beneficiary c = .error e c') :
    ∃ fault, e = .database fault := by
  rcases bind_error_iff.mp h with hsplit' | ⟨split', c₁, hsplit', h₁⟩
  · rw [hsplit] at hsplit'
    cases hsplit'
  rw [hsplit] at hsplit'
  cases hsplit'
  rcases bind_error_iff.mp h₁ with hrefund | ⟨_, c₂, -, h₂⟩
  · exact refundPayer_error (fits_of_total hfits _) hrefund
  rcases bind_error_iff.mp h₂ with hcredits | ⟨_, c₃, -, h₃⟩
  · exact credits_error hcredits
  · cases h₃

instance : IgnoresSetup fun c : Context σ => balances c.journal.state where
  code _ _ := ⟨fun _ => setAccount_part Account.balance rfl⟩

instance : IgnoresNonceManager fun c : Context σ => balances c.journal.state := {}

end Eip8130Executor

open Eip8130Executor

/-- The context in which the calls of a block's transaction start. -/
def Context.warmed (evm : Evm σ) (block : BlockEnv) (c : Context σ) : Context σ :=
  mapWorld c fun w => { w with rest := evm.warmPreCallAccounts block w.rest }

/-- After an authorization and a charge that succeeded, and whatever the calls return, the
settlement fails at most on a fault of the database. When it succeeds, it bills at most the gas
limit and the authentication of the payer, the charge is what is refunded and credited, the sum of
all balances is what it was, and the payer has paid at most the fee cap for that gas and the two
other fees. -/
theorem settlement_conserves {env : Env} {evm : Evm σ} (hincr : evm.AddsBalances)
    (hframes : evm.ConservesEther) {block : BlockEnv} {signed : Eip8130Signed} {encoded : Bytes}
    {chainId now : UInt64} {baseFee : BitVec 128} {spec : BaseSpecId} {beneficiary : Address}
    {outcome : Eip8130Outcome} {pre : BitVec 256} {calls : CallsResult} {c c₁ c₂ c₃ : Context σ}
    (hauthorize : authorizeAndApply env evm signed encoded chainId now baseFee c = .ok outcome c₁)
    (hsupply : totalEther c₁.journal.state < 2 ^ 256)
    (hprepay : prepay evm outcome encoded spec c₁ = .ok pre c₂)
    (hcalls : executeCalls evm signed outcome outcome.executionGasAvailable (c₂.warmed evm block) =
      .ok calls c₃) :
    (∀ e c₄, settleFees evm outcome calls pre encoded spec beneficiary c₃ = .error e c₄ →
      ∃ fault, e = .database fault) ∧
    ∀ gas c₄, settleFees evm outcome calls pre encoded spec beneficiary c₃ = .ok gas c₄ →
      gas ≤ outcome.gasLimit + outcome.payerAuth ∧
      balances c₂.journal.state = update (balances c₁.journal.state) outcome.payer
        (balances c₁.journal.state outcome.payer - pre) ∧
      pre ≤ balances c₁.journal.state outcome.payer ∧
      ∃ split : FeeSplit,
        balances c₄.journal.state = creditAll (balances c₃.journal.state)
          ((outcome.payer, split.refundAmount) :: split.credits beneficiary) ∧
        pre.toNat - split.refundAmount.toNat = split.baseFeeAmount.toNat +
          split.priorityAmount.toNat + split.l1Cost.toNat + split.operatorCost.toNat ∧
        split.refundAmount ≤ pre ∧
        totalEther c₄.journal.state = totalEther c₁.journal.state ∧
        split.l1Cost = (c₁.chain.calculateTxL1Cost encoded spec).1 ∧
        pre.toNat - split.refundAmount.toNat ≤
          (outcome.gasLimit + outcome.payerAuth) * signed.tx.maxFeePerGas.toNat +
          split.l1Cost.toNat +
          (c₁.chain.operatorFeeCharge encoded
            (.ofNat 256 (outcome.gasLimit + outcome.payerAuth)) spec).toNat := by
  obtain ⟨_, _, intrinsic, _, _, _, _, _, _, -, -, -, -, hcompute, havailable, hfees, -, houtcome⟩ :=
    authorizeAndApply_ok hauthorize
  unfold IntrinsicGas.executionGasAvailable at havailable
  split_ifs at havailable with hgas
  have havailable := Option.some.inj havailable
  rw [← show outcome.senderIntrinsic = intrinsic.senderIntrinsic from
    congrArg Eip8130Outcome.senderIntrinsic houtcome] at hgas havailable
  have heffective := congrArg Eip8130Outcome.effective houtcome
  have hbase : outcome.baseFee = baseFee := congrArg Eip8130Outcome.baseFee houtcome
  have hlimit : outcome.gasLimit < 2 ^ 64 :=
    congrArg Eip8130Outcome.gasLimit houtcome ▸ signed.tx.gasLimit.toNat_lt
  have hauth : outcome.payerAuth < 2 ^ 64 :=
    congrArg Eip8130Outcome.payerAuth houtcome ▸ IntrinsicGas.payerAuth_lt hcompute
  have hfloor : outcome.baseFee ≤ outcome.effective := by
    rw [hbase, heffective]
    obtain ⟨_, u, hvalid, -⟩ := bind_ok_iff.mp hfees
    exact FeeCheck.le_effectiveGasPrice (liftExcept_ok_iff.mp hvalid).1
  have hcap : outcome.effective.toNat ≤ signed.tx.maxFeePerGas.toNat := by
    rw [heffective]
    exact le_def.mp (FeeCheck.effectiveGasPrice_le _ _ _)
  obtain ⟨hchain, hpre, hle, -, -⟩ := prepay_ok hprepay
  obtain ⟨honly, hspent, k, left, hdone, -, -⟩ := executeCalls_ok hcalls
  have hchain₃ : c₃.chain = c₂.chain := by
    obtain ⟨-, rfl⟩ := honly
    rfl
  have hconserved := hdone.run.preserves (fun w w' => totalEther w' = totalEther w) (fun _ => rfl)
    (fun _ _ _ huv hvw => hvw.trans huv) (fun _ _ => rfl) hframes
  have htotal₃ : totalEther c₃.journal.state = totalEther c₂.journal.state := hconserved
  have hcharged := prepay_totalEther hprepay
  have hbillable : billableGas outcome calls ≤
      FeeCheck.maxChargeableGas outcome.gasLimit outcome.payerAuth := by
    unfold billableGas FeeCheck.maxChargeableGas satAdd
    simp only
    omega
  rw [← hchain₃] at hpre hchain
  obtain ⟨split, hsplit, hl1, hparts⟩ := splitFee_eq hchain hbillable hfloor hpre
  have hsum : creditSum (split.credits beneficiary) = split.baseFeeAmount.toNat +
      (split.priorityAmount.toNat + (split.l1Cost.toNat + split.operatorCost.toNat)) := by
    simp [creditSum, FeeSplit.credits]
  refine ⟨fun e c₄ h => settleFees_error hsplit (by omega) h, fun gas c₄ h => ?_⟩
  obtain ⟨rfl, hbalances⟩ := settleFees_ok hincr hsplit (by omega) h
  have hmaxGas : FeeCheck.maxChargeableGas outcome.gasLimit outcome.payerAuth ≤
      outcome.gasLimit + outcome.payerAuth := satAdd_le _ _
  refine ⟨hbillable.trans hmaxGas, prepay_balances hprepay, hle, split, hbalances, by omega, ?_, ?_,
    hl1, ?_⟩
  · rw [le_def]
    omega
  · unfold totalEther at htotal₃ hcharged hsupply ⊢
    rw [hbalances, total_creditAll] <;>
      rw [show creditSum ((outcome.payer, split.refundAmount) :: split.credits beneficiary) =
        split.refundAmount.toNat + creditSum (split.credits beneficiary) from rfl]
    · omega
    · omega
  · have hparams : c₃.chain.params = c₁.chain.params := by
      rw [hchain, calculateTxL1Cost_params]
    have hoperator : (c₃.chain.operatorFeeCharge encoded
        (.ofNat 256 (FeeCheck.maxChargeableGas outcome.gasLimit outcome.payerAuth)) spec).toNat ≤
        (c₁.chain.operatorFeeCharge encoded
          (.ofNat 256 (outcome.gasLimit + outcome.payerAuth)) spec).toNat := by
      refine operatorFeeCharge_mono hparams encoded spec ?_
      rwa [toNat_ofNat_gas (by omega), toNat_ofNat_gas (by omega)]
    have hprice := Nat.mul_le_mul hmaxGas hcap
    rw [hl1]
    omega

namespace CreateExample

/-! The transaction that creates an account, with two phases of calls: one that stores a word, and one
that stores another and then reverts. -/

/-- `PUSH0 CALLDATALOAD PUSH0 SSTORE`. -/
def storeCode : Bytes := [0x5f, 0x35, 0x5f, 0x55]

/-- `PUSH0 PUSH0 REVERT`. -/
def revertCode : Bytes := [0x5f, 0x5f, 0xfd]

/-- The rest of the world is the word that is stored. -/
def evm : Evm ℕ where
  runExecLoop w inputs :=
    if inputs.bytecode = storeCode then
      (.ok ⟨true, 22107, 0, []⟩, { w with rest := ofBe inputs.input })
    else if inputs.bytecode = revertCode then (.ok ⟨false, 4, 0, []⟩, w)
    else (.ok ⟨true, 0, 0, []⟩, w)
  loadAccount w _ := .ok w.rest
  tryFetch _ _ _ := .error "no such block"
  warmPreCallAccounts _ rest := rest
  commitTx rest := rest
  newRawChecked code := some code
  bumpNonce n := if n = 0xffffffffffffffff then n else n + 1
  incrBalance a b := a + b
  rejectedWrites storage _ := storage

def world : World ℕ where
  accounts := update (update (update (fun _ => ⟨0, 0, []⟩) storing ⟨0, 1, storeCode⟩)
    reverting ⟨0, 1, revertCode⟩) payer ⟨1000000000000, 0, []⟩
  config := .empty
  nonces _ _ := 0
  expiring := .empty
  txContext := none
  rest := 0
  logs := []

def block : BlockEnv where
  number := 1
  timestamp := 1000
  basefee := 1
  beneficiary := fixedBe 20 0x4200000000000000000000000000000000000011
  chainId := 8453
  spec := .upgrade .isthmus

def chain : L1BlockInfo where
  l2Block := some 1
  params := {
    l1BaseFee := 1000000
    l1FeeOverhead := none
    l1BaseFeeScalar := 2000
    l1BlobBaseFee := some 1
    l1BlobBaseFeeScalar := some 900000
    operatorFeeScalar := some 500000
    operatorFeeConstant := some 7
    emptyEcotoneScalars := false }
  txL1Cost := none

def context : Context ℕ := ⟨⟨world, world⟩, chain, FixedBytes.zero 20, []⟩

def encoded : Bytes :=
  eip8130TxType :: RlpFormat.writeList (signed.tx.rlpEncodeFieldsWithSender signed.tx.sender ++
    RlpFormat.writeString signed.senderAuth ++ RlpFormat.writeString signed.payerAuth)

theorem evm_conservesEther : evm.ConservesEther := by
  intro w inputs frame w' h
  unfold evm at h
  simp only at h
  split_ifs at h <;> cases h <;> rfl

theorem totalEther_world : totalEther world = 1000000000000 := by
  have hbalances : balances world = update (fun _ => (0 : BitVec 256)) payer 1000000000000 := by
    funext a
    unfold balances world
    simp only [update_apply]
    split_ifs <;> rfl
  have hupdate := total_update (fun _ : Address => (0 : BitVec 256)) payer 1000000000000
  rw [total_zero] at hupdate
  unfold totalEther
  rw [hbalances]
  simpa using hupdate

def stages : Exec ℕ (BitVec 256 × CallsResult × ℕ) := do
  let outcome ← authorizeAndApply env evm signed encoded 8453 1000 1
  let pre ← prepay evm outcome encoded block.spec
  modify (Context.warmed evm block)
  let calls ← executeCalls evm signed outcome outcome.executionGasAvailable
  let gas ← settleFees evm outcome calls pre encoded block.spec block.beneficiary
  return (pre, calls, gas)

/-- What is charged, the statuses of the phases, and the gas that is billed. -/
def summary : Option (ℕ × List UInt8 × ℕ) :=
  match stages context with
  | .ok (pre, calls, gas) _ => some (pre.toNat, calls.phaseStatuses, gas)
  | .error _ _ => none

theorem summary_eq : summary = some (12446393, [1, 0], 214634) := by decide +kernel

end CreateExample

open CreateExample

theorem settlement_conserves_calls :
    summary = some (12446393, [1, 0], 214634) ∧
      ∃ result c, stages context = .ok result c ∧ totalEther c.journal.state = totalEther world := by
  refine ⟨summary_eq, ?_⟩
  have hsummary := summary_eq
  unfold summary at hsummary
  cases hstages : stages context with
  | error e c =>
    rw [hstages] at hsummary
    cases hsummary
  | ok result c =>
    refine ⟨result, c, rfl, ?_⟩
    obtain ⟨outcome, c₁, hauthorize, h₁⟩ := bind_ok_iff.mp hstages
    obtain ⟨pre, c₂, hprepay, h₂⟩ := bind_ok_iff.mp h₁
    obtain ⟨_, u, hwarm, h₃⟩ := bind_ok_iff.mp h₂
    obtain ⟨calls, c₃, hcalls, h₄⟩ := bind_ok_iff.mp h₃
    obtain ⟨gas, hsettle, -⟩ := bind_return_ok h₄
    rw [modify_ok_iff.mp hwarm] at hcalls
    have hbalances : balances c₁.journal.state = balances world :=
      Frames.kept (f := fun c : Context ℕ => balances c.journal.state) hauthorize
    have htotal : totalEther c₁.journal.state = totalEther world :=
      congrArg total hbalances
    obtain ⟨-, hsettled⟩ := settlement_conserves (fun _ _ _ => rfl) evm_conservesEther hauthorize
      (by rw [htotal, totalEther_world]; norm_num) hprepay hcalls
    obtain ⟨-, -, -, -, -, -, -, hconserved, -⟩ := hsettled gas c hsettle
    rw [hconserved, htotal]

end NodeReth.Eip8130
