import NodeReth.Eip8130.Settlement

/-!
# Inclusion

A transaction is rejected and leaves the journal as it was, or it is included. Then everything that
was written before the calls stays, the calls leave the effects of the phases in front of the first
one that fails, and the nonce has been consumed. `executes_or_discards` puts this together with what
follows for the transactions that are included in a sequence of blocks: no nonce is used twice.
-/

namespace NodeReth.Eip8130

open Bytes Checked Effects Eip8130Executor Frames Function NonceManagerStorage Runs
  TransactionAuthorizer Words

variable {envelopedTx : Option Bytes} {result : ExecutionResult}

section

variable {σ : Type} {env : Env} {evm : Evm σ} {c c' : Context σ} {tx : TxEip8130} {encoded : Bytes}
  {signed : Eip8130Signed} {outcome : Eip8130Outcome} {a : Address} {calls : CallsResult}

namespace Eip8130Executor

variable {α : Type}

/-! ## Rejection -/

section Frames

def committed (c : Context σ) : World σ := c.journal.committed

variable {γ : Type} {f : Context σ → γ} (outcome : Eip8130Outcome) (n m pool : ℕ) (pre : BitVec 256)
  (encoded : Bytes) (spec : BaseSpecId) (calls : List Call) (refund : ℤ)
  (signed : Eip8130Signed)

instance (g : World σ → World σ) : Untouched committed fun c => mapWorld c g := ⟨fun _ => rfl⟩

instance : IgnoresSetup (committed : Context σ → World σ) := {}

instance : IgnoresNonceManager (committed : Context σ → World σ) := {}

instance (chain : L1BlockInfo) : Untouched (Context.journal : Context σ → _) fun c => { c with chain } :=
  ⟨fun _ => rfl⟩

instance : Untouched (Context.journal : Context σ → _) fun c => { c with phaseStatuses := [] } :=
  ⟨fun _ => rfl⟩

instance (chain : L1BlockInfo) : Untouched committed fun c : Context σ => { c with chain } :=
  ⟨fun _ => rfl⟩

instance (caller : Address) : Untouched committed fun c : Context σ => { c with caller } :=
  ⟨fun _ => rfl⟩

instance [∀ chain, Untouched f fun c => { c with chain }] : Frames f (txL1Cost encoded spec) :=
  .bind fun _ => .bind inferInstance

instance : Frames f (operatorCost encoded n spec) := by
  unfold operatorCost
  infer_instance

instance [∀ chain, Untouched f fun c => { c with chain }] :
    Frames f (splitFee outcome n pre encoded spec) := by
  unfold splitFee
  infer_instance

instance : Frames committed (bumpSenderNonce evm outcome) := by
  unfold bumpSenderNonce
  infer_instance

instance : Frames committed (prepay evm outcome encoded spec) := by
  refine bind fun _ => bind fun _ => ?_
  infer_instance

instance (a : Address) : Frames committed (knownBytecode evm a) := by
  refine bind fun info => ?_
  split <;> infer_instance

instance (caller toAddress : Address) : Frames committed (runCall evm caller toAddress encoded n) := by
  refine bind fun _ => bind fun w => ?_
  split <;> infer_instance

instance frames_runPhase : Frames committed (runPhase evm outcome calls n refund) := by
  induction calls generalizing n refund with
  | nil => exact (reads_pure _).frames
  | cons call calls ih =>
    unfold runPhase
    infer_instance

instance frames_runPhases (phases : List (List Call)) (statuses : List UInt8) :
    Frames committed (runPhases evm outcome pool n phases m refund statuses) := by
  induction phases generalizing m refund statuses with
  | nil => exact (reads_pure _).frames
  | cons phase phases ih =>
    refine bind fun _ => bind fun r => ?_
    dsimp only
    split <;> infer_instance

instance : Frames committed (executeCalls evm signed outcome pool) :=
  inferInstanceAs (Frames committed (runPhases _ _ _ _ _ _ _ _))

instance (calls : CallsResult) (a : Address) [IgnoresRest f]
    [∀ chain, Untouched f fun c => { c with chain }]
    [∀ a b, Untouched f fun c => mapWorld c fun w => w.setBalance a b] :
    Frames f (settleFees evm outcome calls pre encoded spec a) := by
  unfold settleFees refundPayer balanceIncr
  infer_instance

instance (block : BlockEnv) :
    Frames (Context.journal : Context σ → _) (refreshL1BlockInfo evm block) := by
  refine bind fun c => ?_
  split_ifs
  · split <;> infer_instance
  · infer_instance

end Frames

/-- Fails with the journal as it was at the beginning of the transaction. -/
def Discards {α : Type} (x : Exec σ α) : Prop :=
  ∀ c e c', x c = .error e c' → c'.journal = ⟨c.journal.committed, c.journal.committed⟩

variable {x : Exec σ α}

theorem orDiscard_ok_iff {a : α} : orDiscard x c = .ok a c' ↔ x c = .ok a c' := by
  unfold orDiscard
  cases x c with
  | ok => exact Iff.rfl
  | error => simp

theorem discards_orDiscard [h : Frames committed x] : Discards (orDiscard x) := by
  intro c e c' herr
  unfold orDiscard at herr
  cases hx : x c with simp only [hx] at herr
  | ok a d => cases herr
  | error e' d =>
    cases herr
    have hkept : d.journal.committed = c.journal.committed := h.keeps.2 _ _ _ hx
    show Journal.mk d.journal.committed d.journal.committed = _
    rw [hkept]

theorem Discards.bind {β : Type} {f : α → Exec σ β} (hx : Discards x)
    (hkeeps : ∀ c a c', x c = .ok a c' → committed c' = committed c) (hf : ∀ a, Discards (f a)) :
    Discards (x >>= f) := by
  intro c e c' h
  rcases bind_error_iff.mp h with herr | ⟨a, u, hok, herr⟩
  · exact hx _ _ _ herr
  · have hkept : u.journal.committed = c.journal.committed := hkeeps _ _ _ hok
    rw [hf a _ _ _ herr, hkept]

theorem Discards.stage {β : Type} {f : α → Exec σ β} [Frames committed x]
    (hf : ∀ a, Discards (f a)) : Discards (orDiscard x >>= f) :=
  discards_orDiscard.bind (fun _ _ _ h => kept (orDiscard_ok_iff.mp h)) hf

theorem discards_of_succeeds (h : Succeeds x) : Discards x :=
  fun c e c' herr => absurd herr (h.ne_error c e c')

theorem discards_runStages (block : BlockEnv) (signed : Eip8130Signed) (encoded : Bytes)
    (now : UInt64) : Discards (runStages env evm block signed encoded now) := by
  refine .stage fun outcome => .stage fun pre => ?_
  refine (discards_of_succeeds (x := modifyWorld _) (succeeds_modify _)).bind
    (fun _ _ _ => kept) fun _ => ?_
  exact .stage fun calls => .stage fun _ => discards_of_succeeds (succeeds_pure _)

theorem succeeds_finish (gasUsed : ℕ) (calls : CallsResult) : Succeeds (finish evm gasUsed calls) := by
  intro c
  unfold finish
  cases calls.reverted <;> exact ⟨_, _, rfl⟩

/-- Between transactions, fails with the journal as it was. -/
def Restores {α : Type} (x : Exec σ α) : Prop :=
  ∀ c e c', c.journal.state = c.journal.committed → x c = .error e c' → c'.journal = c.journal

theorem Restores.bind {β : Type} {f : α → Exec σ β} [hx : Frames Context.journal x]
    (hf : ∀ a, Restores (f a)) : Restores (x >>= f) := by
  intro c e c' hclean h
  rcases hx.keeps.bind_error rfl h with hsame | ⟨a, u, hkept, herr⟩
  · exact hsame
  · exact (hf a u e c' (hkept ▸ hclean) herr).trans hkept

theorem restores_execute (block : BlockEnv) (signed : Eip8130Signed) (envelopedTx : Option Bytes) :
    Restores (execute env evm block signed envelopedTx) := by
  refine .bind fun _ => .bind fun _ => .bind fun _ => .bind fun encoded => .bind fun _ => ?_
  intro c e c' hclean h
  rcases bind_error_iff.mp h with hstages | ⟨r, u, -, hfinish⟩
  · rw [discards_runStages block signed encoded _ _ _ _ hstages]
    exact congrArg (fun w => Journal.mk w c.journal.committed) hclean.symm
  · exact absurd hfinish ((succeeds_finish _ _).ne_error _ _ _)

/-! ## What the settlement leaves alone -/

end Eip8130Executor

structure Nonces where
  account : Address → UInt64
  channel : Address → BitVec 256 → UInt64
  expiring : NonceManagerStorage

def World.noncesOf (w : World σ) : Nonces := ⟨fun a => (w.accounts a).nonce, w.nonces, w.expiring⟩

theorem noncesOf_setAccount {w : World σ} {account : Account}
    (h : account.nonce = (w.accounts a).nonce) : (w.setAccount a account).noncesOf = w.noncesOf :=
  congrArg (Nonces.mk · _ _) (setAccount_part Account.nonce h)

theorem noncesOf_setNonce (w : World σ) (a : Address) (account : Account) :
    (w.setAccount a account).noncesOf =
      { w.noncesOf with account := update w.noncesOf.account a account.nonce } :=
  congrArg (Nonces.mk · _ _) (comp_update Account.nonce w.accounts a account)

def nonces (c : Context σ) : Nonces := c.journal.state.noncesOf

instance : IgnoresSetup (nonces : Context σ → Nonces) where
  code _ _ := ⟨fun _ => noncesOf_setAccount rfl⟩

/-- What a world holds besides the balances, and besides what is loaded and warm. -/
structure BesidesBalances where
  nonces : Nonces
  code : Address → Bytes
  config : AccountConfigurationStorage
  txContext : Option TxContext
  logs : List Log

def World.besidesBalances (w : World σ) : BesidesBalances :=
  ⟨w.noncesOf, fun a => (w.accounts a).code, w.config, w.txContext, w.logs⟩

theorem besidesBalances_setBalance (w : World σ) (a : Address) (b : BitVec 256) :
    (w.setBalance a b).besidesBalances = w.besidesBalances := by
  have hnonces : (w.setBalance a b).noncesOf = w.noncesOf := noncesOf_setAccount rfl
  unfold World.besidesBalances
  rw [hnonces]
  exact congrArg (BesidesBalances.mk _ · _ _ _) (setAccount_part Account.code rfl)

namespace Eip8130Executor

def besidesBalances (c : Context σ) : BesidesBalances := c.journal.state.besidesBalances

instance : IgnoresRest (besidesBalances : Context σ → _) := {}

instance (chain : L1BlockInfo) : Untouched besidesBalances fun c : Context σ => { c with chain } :=
  ⟨fun _ => rfl⟩

instance (a : Address) (b : BitVec 256) :
    Untouched besidesBalances fun c : Context σ => mapWorld c fun w => w.setBalance a b :=
  ⟨fun _ => besidesBalances_setBalance _ _ _⟩

/-! ## What stands in front of the calls -/

def configOf (c : Context σ) : AccountConfigurationStorage := c.journal.state.config

def codesOf (c : Context σ) (a : Address) : Bytes := (c.journal.state.accounts a).code

instance : IgnoresMarks (configOf : Context σ → _) := {}

instance : IgnoresCode (configOf : Context σ → _) := {}

instance : IgnoresNonceManager (configOf : Context σ → _) := {}

instance : IgnoresMarks (codesOf : Context σ → _) := {}

instance : IgnoresConfig (codesOf : Context σ → _) := {}

instance : IgnoresNonceManager (codesOf : Context σ → _) := {}

theorem codesOf_setCode (c : Context σ) (a : Address) (code : Bytes) :
    codesOf (mapWorld c fun w => w.setCode a code) = update (codesOf c) a code :=
  comp_update Account.code c.journal.state.accounts a _

/-- The code of a created account is the bytecode of its entry. -/
def CreatedCode (evm : Evm σ) (created : Option CreatedAccount) (code code' : Address → Bytes) : Prop :=
  match created with
  | some x => ∃ bytecode, evm.newRawChecked x.code = some bytecode ∧
      code' = update code x.address bytecode
  | none => code' = code

/-- The code of a delegated account is the indicator of its target; no target, no code. -/
def delegatedCode (delegation : Option DelegationEffect) (code : Address → Bytes) : Address → Bytes :=
  match delegation with
  | some x => update code x.account
      (if x.target = FixedBytes.zero 20 then [] else newEip7702 x.target)
  | none => code

/-- A sender without code is delegated to the default account, unless the transaction has created or
delegated an account. -/
def defaultCode (applied : AppliedAccountChanges) (sender : Address) (code : Address → Bytes) :
    Address → Bytes :=
  if applied.delegation = none ∧ applied.created = none ∧ code sender = [] then
    update code sender (newEip7702 defaultAccount)
  else code

def CodeInstalled (evm : Evm σ) (applied : AppliedAccountChanges) (sender : Address)
    (code code' : Address → Bytes) : Prop :=
  ∃ mid, CreatedCode evm applied.created code mid ∧
    code' = defaultCode applied sender (delegatedCode applied.delegation mid)

theorem authorizeTransaction_ok {chainId now : UInt64} {applied : AppliedTransaction}
    (h : authorizeTransaction env evm signed chainId now c = .ok applied c') :
    ∃ storage, TransactionAuthorizer.authorizeAndApply env signed
        { configOf c with logs := [] } chainId now = .ok (applied, storage) ∧
      configOf c' = { storage with logs := [] } := by
  unfold authorizeTransaction at h
  rw [world_bind] at h
  cases hauthorize : TransactionAuthorizer.authorizeAndApply env signed
    { c.journal.state.config with logs := [] } chainId now with
  | error e =>
    simp only [hauthorize] at h
    cases h
  | ok result =>
    simp only [hauthorize] at h
    obtain ⟨_, hmodify, rfl⟩ := bind_return_ok h
    obtain rfl := modifyWorld_ok_iff.mp hmodify
    exact ⟨result.2, hauthorize, rfl⟩

theorem installCode_ok {applied : AppliedAccountChanges}
    (h : installCode evm applied c = .ok () c') :
    ∃ mid, CreatedCode evm applied.created (codesOf c) mid ∧
      codesOf c' = delegatedCode applied.delegation mid := by
  obtain ⟨_, c₁, hcreated, hdelegation⟩ := bind_ok_iff.mp h
  refine ⟨codesOf c₁, ?_, ?_⟩
  · unfold CreatedCode
    cases hx : applied.created with simp only [hx] at hcreated ⊢
    | none => rw [(pure_ok_iff.mp hcreated).2]
    | some x =>
      obtain ⟨info, c₂, hload, h₂⟩ := bind_ok_iff.mp hcreated
      obtain ⟨_, c₃, hempty, h₃⟩ := bind_ok_iff.mp h₂
      have hkept : codesOf c₂ = codesOf c := kept hload
      rw [(ensure_ok_iff.mp hempty).2] at h₃
      cases hraw : evm.newRawChecked x.code with simp only [hraw] at h₃
      | none => cases h₃
      | some bytecode =>
        obtain rfl := modifyWorld_ok_iff.mp h₃
        exact ⟨bytecode, rfl, by rw [codesOf_setCode, hkept]⟩
  · unfold delegatedCode
    cases hx : applied.delegation with simp only [hx] at hdelegation ⊢
    | none => rw [(pure_ok_iff.mp hdelegation).2]
    | some x =>
      obtain ⟨info, c₂, hload, h₂⟩ := bind_ok_iff.mp hdelegation
      obtain ⟨_, c₃, hreplace, h₃⟩ := bind_ok_iff.mp h₂
      have hkept : codesOf c₂ = codesOf c₁ := kept hload
      rw [(ensure_ok_iff.mp hreplace).2] at h₃
      obtain ⟨_, c₄, hset, hlog⟩ := bind_ok_iff.mp h₃
      have hlogged : codesOf c' = codesOf c₄ := kept hlog
      rw [hlogged, modifyWorld_ok_iff.mp hset, codesOf_setCode, hkept]

theorem autoDelegate_ok {applied : AppliedAccountChanges} {auto : Bool}
    (h : autoDelegate evm applied a c = .ok auto c') :
    codesOf c' = defaultCode applied a (codesOf c) := by
  unfold autoDelegate at h
  unfold defaultCode
  split_ifs at h with hchanged
  · rw [(pure_ok_iff.mp h).2, if_neg]
    rintro ⟨hdelegation, hcreated, -⟩
    rw [hdelegation, hcreated] at hchanged
    simp at hchanged
  · obtain ⟨info, c₁, hload, h₁⟩ := bind_ok_iff.mp h
    have hkept : codesOf c₁ = codesOf c := kept hload
    obtain ⟨rfl, -⟩ := loadAccount_ok hload
    rw [not_or, Option.not_isSome_iff_eq_none, Option.not_isSome_iff_eq_none] at hchanged
    split_ifs at h₁ with hempty
    · obtain ⟨_, c₂, hset, h₂⟩ := bind_ok_iff.mp h₁
      obtain ⟨_, hlog, -⟩ := bind_return_ok h₂
      have hlogged : codesOf c' = codesOf c₂ := kept hlog
      rw [if_pos ⟨hchanged.1, hchanged.2, hempty⟩, hlogged, modifyWorld_ok_iff.mp hset,
        codesOf_setCode, hkept]
    · rw [(pure_ok_iff.mp h₁).2, hkept, if_neg fun hall => hempty hall.2.2]

/-- The authorization leaves the configuration that the account changes lead to, and their code. -/
theorem authorizeAndApply_setup {chainId now : UInt64} {baseFee : BitVec 128}
    (h : authorizeAndApply env evm signed encoded chainId now baseFee c = .ok outcome c') :
    ∃ applied storage, TransactionAuthorizer.authorizeAndApply env signed
        { configOf c with logs := [] } chainId now = .ok (applied, storage) ∧
      outcome.sender = applied.actors.sender.account ∧
      configOf c' = { storage with logs := [] } ∧
      CodeInstalled evm applied.applied outcome.sender (codesOf c) (codesOf c') := by
  obtain ⟨applied, input, intrinsic, auto, cApplied, cCode, cNonce, cAuto, cChecked, happlied, hcode,
    hnonce, hauto, -, -, hfees, hcontext, houtcome⟩ := authorizeAndApply_ok h
  obtain ⟨storage, hauthorize, hconfig⟩ := authorizeTransaction_ok happlied
  obtain ⟨mid, hmid, hinstalled⟩ := installCode_ok hcode
  refine ⟨applied, storage, hauthorize, congrArg Eip8130Outcome.sender houtcome, ?_, mid, ?_, ?_⟩
  · rw [← hconfig, ← show configOf cCode = _ from kept hcode,
      ← show configOf cNonce = _ from kept hnonce, ← show configOf cAuto = _ from kept hauto,
      ← show configOf cChecked = _ from kept hfees]
    exact kept hcontext
  · rwa [show codesOf cApplied = codesOf c from kept happlied] at hmid
  · rw [show codesOf c' = codesOf cChecked from kept hcontext,
      show codesOf cChecked = codesOf cAuto from kept hfees, autoDelegate_ok hauto,
      show codesOf cNonce = codesOf cCode from kept hnonce, hinstalled]

theorem prepay_setup {spec : BaseSpecId} {pre : BitVec 256}
    (h : prepay evm outcome encoded spec c = .ok pre c') :
    configOf c' = configOf c ∧ codesOf c' = codesOf c := by
  obtain ⟨-, -, -, -, rest, hstate⟩ := prepay_ok h
  have hpaid : besidesBalances c' = (afterBump evm outcome c.journal.state).besidesBalances :=
    (congrArg World.besidesBalances hstate).trans (besidesBalances_setBalance _ _ _)
  have hconfig : configOf c' = _ := congrArg BesidesBalances.config hpaid
  have hcode : codesOf c' = _ := congrArg BesidesBalances.code hpaid
  rw [hconfig, hcode]
  unfold afterBump
  split_ifs
  · exact ⟨rfl, setAccount_part Account.code rfl⟩
  · exact ⟨rfl, rfl⟩

/-! ## The policy gate -/

section Gate

variable {outcome : Eip8130Outcome} {run : World σ → CallInputs → Except String FrameResult × World σ}

theorem runCall_of_agree {toAddress : Address}
    (hagree : ∀ w inputs, inputs.targetAddress = toAddress → run w inputs = evm.runExecLoop w inputs)
    (caller : Address) (data : Bytes) (gasLimit : ℕ) :
    runCall { evm with runExecLoop := run } caller toAddress data gasLimit =
      runCall evm caller toAddress data gasLimit := by
  unfold runCall
  congr 1
  funext bytecode
  congr 1
  funext w
  dsimp only
  rw [hagree w ⟨data, gasLimit, bytecode, toAddress, caller⟩ rfl]

variable (hgated : outcome.policyGated = true)
  (hagree : ∀ w inputs, inputs.targetAddress = outcome.policyTarget →
    run w inputs = evm.runExecLoop w inputs)

include hgated hagree

theorem runPhase_of_agree (calls : List Call) (remaining : ℕ) (refund : ℤ) :
    runPhase { evm with runExecLoop := run } outcome calls remaining refund =
      runPhase evm outcome calls remaining refund := by
  induction calls generalizing remaining refund with
  | nil => rfl
  | cons call calls ih =>
    unfold runPhase
    split_ifs with hblocked
    · rfl
    · have htarget : call.toAddress = outcome.policyTarget := by
        simpa [blocked, hgated] using hblocked
      rw [runCall_of_agree (htarget ▸ hagree)]
      congr 1
      funext frame
      dsimp only
      rw [ih]

theorem runPhases_of_agree (pool n : ℕ) (phases : List (List Call)) (remaining : ℕ) (refund : ℤ)
    (statuses : List UInt8) :
    runPhases { evm with runExecLoop := run } outcome pool n phases remaining refund statuses =
      runPhases evm outcome pool n phases remaining refund statuses := by
  induction phases generalizing remaining refund statuses with
  | nil => rfl
  | cons phase phases ih =>
    unfold runPhases
    rw [runPhase_of_agree hgated hagree]
    congr 1
    funext checkpoint
    congr 1
    funext r
    dsimp only
    rw [ih]

end Gate

end Eip8130Executor

/-! ## Inclusion -/

/-- What a transaction that is included went through, from the context in front of it to the one
behind it. -/
structure Inclusion (env : Env) (evm : Evm σ) (block : BlockEnv) (signed : Eip8130Signed)
    (envelopedTx : Option Bytes) (c : Context σ) (result : ExecutionResult) (c' : Context σ) where
  encoded : Bytes
  start : Context σ
  /-- What the account changes come to, and the configuration that they lead to. -/
  applied : AppliedTransaction
  storage : AccountConfigurationStorage
  outcome : Eip8130Outcome
  authorized : Context σ
  pre : BitVec 256
  prepaid : Context σ
  calls : CallsResult
  /-- The first phase that fails, or the number of phases. -/
  k : ℕ
  left : ℕ
  called : Context σ
  gas : ℕ
  settled : Context σ
  enveloped : envelopedTx = some encoded
  timestamp : block.timestamp.toNat < 2 ^ 64
  journal : start.journal = c.journal
  authorize : authorizeAndApply env evm signed encoded block.chainId
    (UInt64.ofNat block.timestamp.toNat) (.ofNat 128 block.basefee.toNat) start =
    .ok outcome authorized
  prepay : prepay evm outcome encoded block.spec authorized = .ok pre prepaid
  changes : TransactionAuthorizer.authorizeAndApply env signed
    { c.journal.state.config with logs := [] } block.chainId (UInt64.ofNat block.timestamp.toNat) =
    .ok (applied, storage)
  account : outcome.sender = applied.actors.sender.account
  /-- In front of the calls stand the configuration, the code of the account changes, and the
  charge. -/
  config : prepaid.journal.state.config = { storage with logs := [] }
  code : CodeInstalled evm applied.applied outcome.sender
    (fun a => (c.journal.state.accounts a).code) fun a => (prepaid.journal.state.accounts a).code
  charge : balances prepaid.journal.state = update (balances c.journal.state) outcome.payer
    (balances c.journal.state outcome.payer - pre)
  /-- The calls start with everything that was written before them. -/
  execute : executeCalls evm signed outcome outcome.executionGasAvailable
    (prepaid.warmed evm block) = .ok calls called
  /-- The world behind the calls is the one behind the frames of the phases in front of `k`. -/
  phases : PhasesDone evm outcome (prepaid.warmed evm block).journal.state
    outcome.executionGasAvailable signed.tx.calls k called.journal.state left
  /-- The calls come to the same with any other phases behind `k`. -/
  later : ∀ signed' : Eip8130Signed, signed'.tx.calls.length = signed.tx.calls.length →
    signed'.tx.calls.take (k + 1) = signed.tx.calls.take (k + 1) →
    executeCalls evm signed' outcome outcome.executionGasAvailable (prepaid.warmed evm block) =
      .ok calls called
  settle : settleFees evm outcome calls pre encoded block.spec block.beneficiary called =
    .ok gas settled
  onlyBalances : settled.journal.state.besidesBalances = called.journal.state.besidesBalances
  commit : c'.journal = (commitTransaction evm settled).journal
  statuses : c'.phaseStatuses = statusesOf signed.tx.calls.length k
  outcomeOfCalls : result =
    if k < signed.tx.calls.length then .revert gas settled.journal.state.logs calls.output
    else .success gas settled.journal.state.logs calls.output
  /-- A sender that is gated gets no frame dispatched but to its policy target: whatever frames with
  another target would do, the calls come to the same. -/
  gate : outcome.policyGated = true → ∀ run : World σ → CallInputs → _,
    (∀ w inputs, inputs.targetAddress = outcome.policyTarget →
      run w inputs = evm.runExecLoop w inputs) →
    executeCalls { evm with runExecLoop := run } signed outcome outcome.executionGasAvailable =
      executeCalls evm signed outcome outcome.executionGasAvailable

namespace Eip8130Executor

theorem finish_ok {gas : ℕ} (h : finish evm gas calls c = .ok result c') :
    c' = { commitTransaction evm c with phaseStatuses := calls.phaseStatuses } ∧
      result = if calls.reverted = true then .revert gas c.journal.state.logs calls.output
        else .success gas c.journal.state.logs calls.output := by
  unfold finish at h
  cases hreverted : calls.reverted with rw [hreverted] at h
  | true | false =>
    cases h
    exact ⟨rfl, rfl⟩

theorem execute_ok {block : BlockEnv} (h : execute env evm block signed envelopedTx c = .ok result c') :
    Nonempty (Inclusion env evm block signed envelopedTx c result c') := by
  obtain ⟨_, c₁, hmodify, h₁⟩ := bind_ok_iff.mp h
  obtain ⟨_, c₂, hchain, h₂⟩ := bind_ok_iff.mp h₁
  obtain ⟨_, c₃, htime, h₃⟩ := bind_ok_iff.mp h₂
  obtain ⟨encoded, c₄, hencoded, h₄⟩ := bind_ok_iff.mp h₃
  obtain ⟨_, start, hinfo, h₅⟩ := bind_ok_iff.mp h₄
  obtain ⟨⟨gas, calls⟩, settled, hstages, hfinish⟩ := bind_ok_iff.mp h₅
  have hjournal : start.journal = c.journal := by
    have hrefresh : start.journal = c₄.journal := kept hinfo
    rw [(orThrow_ok_iff.mp hencoded).2, (ensure_ok_iff.mp htime).2, (ensure_ok_iff.mp hchain).2,
      modify_ok_iff.mp hmodify] at hrefresh
    exact hrefresh
  obtain ⟨outcome, authorized, hauthorize, g₁⟩ := bind_ok_iff.mp hstages
  obtain ⟨pre, prepaid, hprepay, g₂⟩ := bind_ok_iff.mp g₁
  obtain ⟨_, warmed, hwarm, g₃⟩ := bind_ok_iff.mp g₂
  obtain ⟨calls', called, hcalls, g₄⟩ := bind_ok_iff.mp g₃
  obtain ⟨gas', settled', hsettle, g₅⟩ := bind_ok_iff.mp g₄
  obtain ⟨hresult, rfl⟩ := pure_ok_iff.mp g₅
  cases hresult
  rw [modifyWorld_ok_iff.mp hwarm] at hcalls
  have hexecute := orDiscard_ok_iff.mp hcalls
  obtain ⟨-, -, k, left, hdone, hstatuses, hreverted, hlater⟩ := executeCalls_ok hexecute
  have hauthorized := orDiscard_ok_iff.mp hauthorize
  have hprepaid := orDiscard_ok_iff.mp hprepay
  obtain ⟨applied, storage, hchanges, haccount, hconfig, hcode⟩ := authorizeAndApply_setup hauthorized
  obtain ⟨hconfig', hcode'⟩ := prepay_setup hprepaid
  have hbalances : balances authorized.journal.state = balances start.journal.state :=
    kept (f := fun c => balances c.journal.state) hauthorized
  have hsettled := orDiscard_ok_iff.mp hsettle
  obtain ⟨rfl, rfl⟩ := finish_ok hfinish
  exact ⟨{
    encoded, start, applied, storage, outcome, authorized, pre, prepaid, calls, k, left, called, gas
    settled
    enveloped := (orThrow_ok_iff.mp hencoded).1
    timestamp := (ensure_ok_iff.mp htime).1
    journal := hjournal
    authorize := hauthorized
    prepay := hprepaid
    changes := hjournal ▸ hchanges
    account := haccount
    config := hconfig'.trans hconfig
    code := by
      rw [← hcode'] at hcode
      exact hjournal ▸ hcode
    charge := by
      rw [prepay_balances hprepaid, hbalances, hjournal]
    execute := hexecute
    phases := hdone
    later := hlater
    settle := hsettled
    onlyBalances := kept (f := besidesBalances) hsettled
    commit := rfl
    statuses := hstatuses
    outcomeOfCalls := by simp [hreverted]
    gate := fun hgated run hagree => runPhases_of_agree hgated hagree _ _ _ _ _ _ }⟩

end Eip8130Executor

/-! ## Nonces -/

namespace Nonces

variable {n n' : Nonces} {now : ℕ}

/-- The next sequence number of an account for a key. -/
def sequence (n : Nonces) (a : Address) (nonceKey : BitVec 256) : UInt64 :=
  if nonceKey = 0 then n.account a else n.channel a nonceKey

def seen (n : Nonces) (hash : B256) : ℕ := n.expiring.expiringNonceSeen hash

/-- No sequence goes back, and no replay id is forgotten while it is live. -/
structure Forward (now : ℕ) (n n' : Nonces) : Prop where
  sequence : ∀ a nonceKey, n.sequence a nonceKey ≤ n'.sequence a nonceKey
  seen : ∀ hash, now < n.seen hash → n'.seen hash = n.seen hash

theorem Forward.refl (now : ℕ) (n : Nonces) : Forward now n n :=
  ⟨fun _ _ => UInt64.le_refl _, fun _ _ => rfl⟩

theorem Forward.trans {n'' : Nonces} (h : Forward now n n') (h' : Forward now n' n'') :
    Forward now n n'' where
  sequence a nonceKey := UInt64.le_trans (h.sequence a nonceKey) (h'.sequence a nonceKey)
  seen hash hlive := by
    have hkept := h.seen hash hlive
    rw [h'.seen hash (hkept ▸ hlive), hkept]

theorem Forward.mono {now' : ℕ} (h : Forward now n n') (hle : now ≤ now') : Forward now' n n' :=
  ⟨h.sequence, fun hash hlive => h.seen hash (hle.trans_lt hlive)⟩

theorem Forward.of_le (haccount : ∀ a, n.account a ≤ n'.account a)
    (hchannel : ∀ a nonceKey, n.channel a nonceKey ≤ n'.channel a nonceKey)
    (hseen : ∀ hash, now < n.seen hash → n'.seen hash = n.seen hash) : Forward now n n' where
  sequence a nonceKey := by
    unfold Nonces.sequence
    split_ifs
    · exact haccount a
    · exact hchannel a nonceKey
  seen := hseen

/-- The nonce of a transaction was free before, and is used after. -/
def Consumes (env : Env) (tx : TxEip8130) (sender : Address) (now : ℕ) (n n' : Nonces) : Prop :=
  if tx.nonceKey = nonceKeyMax then
    n.seen (tx.replayId env sender) ≤ now ∧ now < tx.validBefore.toNat ∧
      n'.seen (tx.replayId env sender) = tx.validBefore.toNat
  else
    n.sequence sender tx.nonceKey = tx.nonceSequence ∧ tx.nonceSequence < n'.sequence sender tx.nonceKey

theorem Consumes.forward {sender : Address} {n'' : Nonces}
    (h : Consumes env tx sender now n n') (h' : Forward now n' n'') :
    Consumes env tx sender now n n'' := by
  unfold Consumes at h ⊢
  split_ifs at h ⊢
  · obtain ⟨hfree, hlive, hseen⟩ := h
    exact ⟨hfree, hlive, (h'.seen _ (hseen ▸ hlive)).trans hseen⟩
  · exact ⟨h.1, UInt64.lt_of_lt_of_le h.2 (h'.sequence _ _)⟩

end Nonces

/-- `bump_nonce` adds one, short of the last nonce. -/
def Evm.BumpsNonces (evm : Evm σ) : Prop :=
  ∀ n : UInt64, n.toNat + 1 < 2 ^ 64 → evm.bumpNonce n = n + 1

/-- What happens in a block apart from the executor: contracts can read the nonce manager only, and
the nonce of an account grows with the contracts that it creates. -/
structure Nonces.Kept (n n' : Nonces) : Prop where
  account : ∀ a, n.account a ≤ n'.account a
  channel : n'.channel = n.channel
  expiring : n'.expiring = n.expiring

def Evm.KeepsNonces (evm : Evm σ) : Prop :=
  ∀ w inputs frame w', evm.runExecLoop w inputs = (.ok frame, w') → w.noncesOf.Kept w'.noncesOf

namespace Nonces.Kept

variable {n n' n'' : Nonces}

theorem refl (n : Nonces) : n.Kept n := ⟨fun _ => UInt64.le_refl _, rfl, rfl⟩

theorem trans (h : n.Kept n') (h' : n'.Kept n'') : n.Kept n'' :=
  ⟨fun a => UInt64.le_trans (h.account a) (h'.account a), h'.channel.trans h.channel,
    h'.expiring.trans h.expiring⟩

theorem forward (h : n.Kept n') (now : ℕ) : Forward now n n' :=
  .of_le h.account (fun a nonceKey => UInt64.le_of_eq (congrFun (congrFun h.channel a) nonceKey).symm)
    fun hash _ => congrArg (fun s => s.expiringNonceSeen hash) h.expiring

end Nonces.Kept

theorem expiring_apply_forward {s s' : NonceManagerStorage} {x : ExpiringNonceCall}
    (h : s.apply x = (.ok (), s')) :
    s.expiringNonceSeen x.hash ≤ x.now ∧ x.now < x.validBefore ∧
      s'.expiringNonceSeen x.hash = x.validBefore ∧ ∀ hash, x.now < s.expiringNonceSeen hash →
        s'.expiringNonceSeen hash = s.expiringNonceSeen hash := by
  obtain ⟨hlive, -, hfree, seen, hreclaim, rfl⟩ := apply_ok h
  refine ⟨hfree, hlive, update_self _ _ _, fun hash hlive => ?_⟩
  have hne : hash ≠ x.hash := by
    rintro rfl
    omega
  show update seen x.hash x.validBefore hash = _
  rw [update_of_ne hne]
  rcases reclaim_some hreclaim with ⟨-, rfl⟩ | ⟨hexpired, rfl⟩
  · rfl
  · refine update_of_ne ?_ _ _
    rintro rfl
    omega

theorem validateSequence_inclusion {channel : UInt64} {status : NonceStatus}
    (h : NonceValidator.validateSequence tx channel .inclusion = .ok status) :
    channel = tx.nonceSequence := by
  unfold NonceValidator.validateSequence at h
  split_ifs at h with hlow heq
  exact heq.symm

namespace Eip8130Executor

theorem validateNonce_ok {account : Address} {protocolNonce : UInt64} {now : ℕ}
    {status : NonceStatus} (hkey : tx.nonceKey = 0)
    (h : validateNonce env tx account protocolNonce .inclusion now c = .ok status c') :
    protocolNonce = tx.nonceSequence ∧ c' = c := by
  unfold validateNonce at h
  rw [if_neg (by rw [hkey]; decide), if_pos hkey] at h
  obtain ⟨channel, u, hchannel, hlift⟩ := bind_ok_iff.mp h
  obtain ⟨rfl, rfl⟩ := pure_ok_iff.mp hchannel
  obtain ⟨hsequence, rfl⟩ := liftExcept_ok_iff.mp hlift
  exact ⟨validateSequence_inclusion hsequence, rfl⟩

theorem checkAndMarkExpiringNonce_ok {timestamp validBefore : ℕ} {hash : B256} {u : Unit}
    (h : checkAndMarkExpiringNonce timestamp hash validBefore c = .ok u c') :
    ∃ expiring, c.journal.state.expiring.apply ⟨timestamp, hash, validBefore⟩ =
        (.ok (), expiring) ∧ c' = mapWorld c fun w => { w with expiring } := by
  unfold checkAndMarkExpiringNonce at h
  rw [world_bind] at h
  rcases hmark : c.journal.state.expiring.checkAndMarkExpiringNonce timestamp hash validBefore with
    ⟨result, expiring⟩
  simp only [hmark] at h
  cases result with
  | ok _ => exact ⟨expiring, hmark, modifyWorld_ok_iff.mp h⟩
  | error e => cases h

theorem incrementNonce_ok {account : Address} {nonceKey : BitVec 256} {n : UInt64}
    (h : incrementNonce account nonceKey c = .ok n c') :
    (c.journal.state.nonces account nonceKey).toNat + 1 < 2 ^ 64 ∧
      nonces c' = { nonces c with
        channel := update c.journal.state.nonces account
          (update (c.journal.state.nonces account) nonceKey
            (c.journal.state.nonces account nonceKey + 1))
        expiring := { c.journal.state.expiring with initialized := true } } := by
  obtain ⟨_, u, hkey, h₁⟩ := bind_ok_iff.mp h
  rw [(ensure_ok_iff.mp hkey).2, world_bind] at h₁
  obtain ⟨_, v, hfits, h₂⟩ := bind_ok_iff.mp h₁
  rw [(ensure_ok_iff.mp hfits).2] at h₂
  obtain ⟨_, d, hmodify, hpure⟩ := bind_ok_iff.mp h₂
  rw [(pure_ok_iff.mp hpure).2, modifyWorld_ok_iff.mp hmodify]
  exact ⟨(ensure_ok_iff.mp hfits).1, rfl⟩

/-- The three ways in which a nonce is advanced; that of the account is left to the charge. -/
theorem advanceNonce_ok {sender : Address} {timestamp nowMs : ℕ} {first bump : Bool}
    (h : advanceNonce env evm tx sender timestamp nowMs c = .ok (first, bump) c') :
    (tx.nonceKey = nonceKeyMax ∧ bump = false ∧ ∃ expiring,
      c.journal.state.expiring.apply ⟨timestamp, tx.replayId env sender, tx.validBefore.toNat⟩ =
        (.ok (), expiring) ∧
      nonces c' = { nonces c with expiring }) ∨
    (tx.nonceKey = 0 ∧ bump = true ∧
      (nonces c).account sender = tx.nonceSequence ∧ nonces c' = nonces c) ∨
    (tx.nonceKey ≠ nonceKeyMax ∧ tx.nonceKey ≠ 0 ∧ bump = false ∧
      c.journal.state.nonces sender tx.nonceKey = tx.nonceSequence ∧
      tx.nonceSequence.toNat + 1 < 2 ^ 64 ∧
      nonces c' = { nonces c with
        channel := update c.journal.state.nonces sender
          (update (c.journal.state.nonces sender) tx.nonceKey (tx.nonceSequence + 1))
        expiring := { c.journal.state.expiring with initialized := true } }) := by
  obtain ⟨info, c₁, hload, h₁⟩ := bind_ok_iff.mp h
  obtain ⟨rfl, rest, rfl, -⟩ := loadAccount_ok hload
  split_ifs at h₁ with hmax hzero
  · obtain ⟨_, c₂, hvalidate, h₂⟩ := bind_ok_iff.mp h₁
    rw [unchanged hvalidate] at h₂
    obtain ⟨_, hmark, hresult⟩ := bind_return_ok h₂
    obtain ⟨expiring, happly, rfl⟩ := checkAndMarkExpiringNonce_ok hmark
    exact .inl ⟨hmax, (Prod.ext_iff.mp hresult).2, expiring, happly, rfl⟩
  · obtain ⟨_, hvalidate, hresult⟩ := bind_return_ok h₁
    obtain ⟨hsequence, rfl⟩ := validateNonce_ok hzero hvalidate
    exact .inr (.inl ⟨hzero, (Prod.ext_iff.mp hresult).2, hsequence, rfl⟩)
  · obtain ⟨current, c₂, hget, h₂⟩ := bind_ok_iff.mp h₁
    obtain ⟨_, c₃, hlift, h₃⟩ := bind_ok_iff.mp h₂
    obtain ⟨_, hincrement, hresult⟩ := bind_return_ok h₃
    obtain ⟨hsequence, rfl⟩ := liftExcept_ok_iff.mp hlift
    obtain ⟨_, u, hkey, hread⟩ := bind_ok_iff.mp hget
    rw [(ensure_ok_iff.mp hkey).2] at hread
    obtain ⟨rfl, rfl⟩ := pure_ok_iff.mp hread
    obtain ⟨hfits, hnonces⟩ := incrementNonce_ok hincrement
    have hchannel : c.journal.state.nonces sender tx.nonceKey = tx.nonceSequence :=
      validateSequence_inclusion hsequence
    have hfits' : (c.journal.state.nonces sender tx.nonceKey).toNat + 1 < 2 ^ 64 := hfits
    rw [hchannel] at hfits'
    refine .inr (.inr ⟨hmax, hzero, (Prod.ext_iff.mp hresult).2, hchannel, hfits', ?_⟩)
    rw [hnonces, ← hchannel]
    rfl

/-- The sender is the one that the signature or the transaction names, and what the authorization
does to the nonces is what advancing them does. -/
theorem authorizeAndApply_nonces {chainId now : UInt64} {baseFee : BitVec 128}
    (h : authorizeAndApply env evm signed encoded chainId now baseFee c = .ok outcome c') :
    (∃ recovered, resolveSender env signed = .ok (outcome.sender, recovered)) ∧
      ∃ first d d', nonces d = nonces c ∧
        advanceNonce env evm signed.tx outcome.sender now.toNat (satMul now.toNat 1000) d =
          .ok (first, outcome.bumpProtocolNonce) d' ∧
        nonces c' = nonces d' := by
  obtain ⟨appliedTx, input, intrinsic, auto, cApplied, cCode, cNonce, cAuto, cChecked, happlied, hcode,
    hnonce, hauto, -, -, hfees, hcontext, houtcome⟩ := authorizeAndApply_ok h
  constructor
  · obtain ⟨storage, hauthorize, -⟩ := authorizeTransaction_ok happlied
    obtain ⟨account, recovered, progress, hsender, -, hactors, -, -, -⟩ :=
      TransactionAuthorizer.authorizeAndApply_ok hauthorize
    refine ⟨recovered, ?_⟩
    rw [hsender, houtcome, (verifyWithRecoveredSender_ok hsender hactors).1.1]
  · have hbefore : nonces cApplied = nonces c := kept happlied
    have hinstalled : nonces cCode = nonces cApplied := kept hcode
    have hdelegated : nonces cAuto = nonces cNonce := kept hauto
    have hchecked : nonces cChecked = nonces cAuto := kept hfees
    have hset : nonces c' = nonces cChecked := kept hcontext
    exact ⟨input.nonceKeyFirstUse, cCode, cNonce, hinstalled.trans hbefore, hnonce,
      hset.trans (hchecked.trans hdelegated)⟩

theorem prepay_nonces {spec : BaseSpecId}
    {pre : BitVec 256} (h : prepay evm outcome encoded spec c = .ok pre c') :
    nonces c' = (afterBump evm outcome c.journal.state).noncesOf := by
  obtain ⟨-, -, -, -, rest, hstate⟩ := prepay_ok h
  rw [nonces, hstate]
  exact noncesOf_setAccount rfl

end Eip8130Executor

theorem lt_add_one_of_fits {n : UInt64} (h : n.toNat + 1 < 2 ^ 64) : n < n + 1 := by
  show n.toNat < (n.toNat + 1) % 2 ^ 64
  omega

theorem le_update {κ : Type} [DecidableEq κ] {f : κ → UInt64} {a : κ} {n : UInt64} (h : f a ≤ n)
    (a' : κ) : f a' ≤ update f a n a' := by
  by_cases ha : a' = a
  · subst ha
    rwa [update_self]
  · rw [update_of_ne ha]
    exact UInt64.le_refl _

/-- Advancing the nonce and bumping that of the account consume the nonce, in front of the calls. -/
theorem advance_consumes (hbump : evm.BumpsNonces)
    {timestamp : ℕ} {nowMs : ℕ} {first : Bool} {d : Context σ}
    (hfits : ((nonces c).account outcome.sender).toNat + 1 < 2 ^ 64)
    (h : advanceNonce env evm signed.tx outcome.sender timestamp nowMs c =
      .ok (first, outcome.bumpProtocolNonce) c')
    (hsame : d.journal.state.noncesOf = nonces c') :
    Nonces.Forward (nowMillis timestamp) (nonces c) (afterBump evm outcome d.journal.state).noncesOf ∧
      Nonces.Consumes env signed.tx outcome.sender (nowMillis timestamp) (nonces c)
        (afterBump evm outcome d.journal.state).noncesOf := by
  unfold afterBump Nonces.Consumes
  rcases advanceNonce_ok h with ⟨hmax, hno, expiring, happly, hafter⟩ |
    ⟨hzero, hyes, hsequence, hafter⟩ | ⟨hmax, hzero, hno, hchannel, hlt, hafter⟩
  · rw [hno, if_neg Bool.false_ne_true, hsame, hafter, if_pos hmax]
    obtain ⟨hfree, hlive, hseen, hkept⟩ := expiring_apply_forward happly
    exact ⟨.of_le (fun _ => UInt64.le_refl _) (fun _ _ => UInt64.le_refl _) hkept, hfree, hlive, hseen⟩
  · rw [hsequence] at hfits
    have haccount : (d.journal.state.accounts outcome.sender).nonce = signed.tx.nonceSequence := by
      rw [← hsequence]
      exact congrFun (congrArg Nonces.account (hsame.trans hafter)) outcome.sender
    have hbumped : (bumped evm (d.journal.state.accounts outcome.sender)).nonce =
        signed.tx.nonceSequence + 1 := by
      show evm.bumpNonce (d.journal.state.accounts outcome.sender).nonce = _
      rw [haccount, hbump _ hfits]
    have hlt := lt_add_one_of_fits hfits
    rw [hyes, if_pos rfl, noncesOf_setNonce, hbumped, hsame, hafter, if_neg (by rw [hzero]; decide)]
    refine ⟨.of_le (le_update ?_) (fun _ _ => UInt64.le_refl _) fun _ _ => rfl, ?_, ?_⟩
    · exact UInt64.le_of_lt (hsequence ▸ hlt)
    · rwa [Nonces.sequence, if_pos hzero]
    · rw [Nonces.sequence, if_pos hzero]
      dsimp only
      rwa [update_self]
  · have hadvanced := lt_add_one_of_fits hlt
    rw [hno, if_neg Bool.false_ne_true, hsame, hafter, if_neg hmax]
    refine ⟨.of_le (fun _ => UInt64.le_refl _) (fun a nonceKey => ?_) fun _ _ => rfl, ?_, ?_⟩
    · dsimp only
      rcases eq_or_ne a outcome.sender with rfl | ha
      · rw [update_self]
        refine le_update ?_ nonceKey
        show c.journal.state.nonces outcome.sender signed.tx.nonceKey ≤ _
        rw [hchannel]
        exact UInt64.le_of_lt hadvanced
      · rw [update_of_ne ha]
        exact UInt64.le_refl _
    · rwa [Nonces.sequence, if_neg hzero]
    · rw [Nonces.sequence, if_neg hzero]
      dsimp only
      rwa [update_self, update_self]

namespace Inclusion

variable {block : BlockEnv} {signed : Eip8130Signed}
  (t : Inclusion env evm block signed envelopedTx c result c')

include t

theorem sender : ∃ recovered, resolveSender env signed = .ok (t.outcome.sender, recovered) :=
  (authorizeAndApply_nonces t.authorize).1

theorem calls_keep (hframes : evm.KeepsNonces) : (nonces t.prepaid).Kept (nonces c') := by
  have hcalls := t.phases.run.preserves (fun w w' => w.noncesOf.Kept w'.noncesOf) (fun _ => .refl _)
    (fun _ _ _ h h' => h.trans h') (fun _ _ => .refl _) hframes
  have hsettled : t.settled.journal.state.noncesOf = t.called.journal.state.noncesOf :=
    congrArg BesidesBalances.nonces t.onlyBalances
  rw [← hsettled] at hcalls
  unfold nonces
  rw [t.commit]
  exact hcalls

/-- The nonce of a transaction that is included has been consumed, and no other nonce has gone
back. -/
theorem consumes (hbump : evm.BumpsNonces) (hframes : evm.KeepsNonces)
    (hfits : ((nonces c).account t.outcome.sender).toNat + 1 < 2 ^ 64) :
    Nonces.Forward (nowMillis block.timestamp.toNat) (nonces c) (nonces c') ∧
      Nonces.Consumes env signed.tx t.outcome.sender (nowMillis block.timestamp.toNat) (nonces c)
        (nonces c') := by
  obtain ⟨-, first, d, d', hbefore, hadvance, hafter⟩ := authorizeAndApply_nonces t.authorize
  have hstart : nonces t.start = nonces c := congrArg (fun j => j.state.noncesOf) t.journal
  rw [← hstart, ← hbefore] at hfits ⊢
  obtain ⟨hforward, hconsumes⟩ := advance_consumes hbump hfits hadvance hafter
  rw [UInt64.toNat_ofNat_of_lt' t.timestamp, ← prepay_nonces t.prepay] at hforward hconsumes
  have hkept := (t.calls_keep hframes).forward (nowMillis block.timestamp.toNat)
  exact ⟨hforward.trans hkept, hconsumes.forward hkept⟩

end Inclusion

/-! ## Sequences of blocks -/

/-- Something that happens in a block: an attempt to execute a transaction, or anything else. -/
structure BlockEvent (σ : Type) where
  block : BlockEnv
  transaction : Option (Eip8130Signed × Option Bytes)
  before : Context σ
  after : Context σ

namespace BlockEvent

/-- The event starts between transactions, with the sender of its transaction below its last nonce;
and it is a run of the executor, or something that leaves the nonces alone. -/
structure Occurs (env : Env) (evm : Evm σ) (x : BlockEvent σ) : Prop where
  clean : x.before.journal.state = x.before.journal.committed
  fits : ∀ signed envelopedTx sender recovered, x.transaction = some (signed, envelopedTx) →
    resolveSender env signed = .ok (sender, recovered) →
    (x.before.journal.state.accounts sender).nonce.toNat + 1 < 2 ^ 64
  run : ∀ signed envelopedTx, x.transaction = some (signed, envelopedTx) →
    (∃ result, execute env evm x.block signed envelopedTx x.before = .ok result x.after) ∨
    ∃ e, execute env evm x.block signed envelopedTx x.before = .error e x.after
  other : x.transaction = none → x.before.journal.state.noncesOf.Kept x.after.journal.state.noncesOf

def Includes (env : Env) (evm : Evm σ) (x : BlockEvent σ) (tx : TxEip8130) (sender : Address) : Prop :=
  ∃ signed envelopedTx result recovered, x.transaction = some (signed, envelopedTx) ∧
    execute env evm x.block signed envelopedTx x.before = .ok result x.after ∧
    resolveSender env signed = .ok (sender, recovered) ∧ tx = signed.tx

def now (x : BlockEvent σ) : ℕ := nowMillis x.block.timestamp.toNat

def noncesBefore (x : BlockEvent σ) : Nonces := x.before.journal.state.noncesOf

def noncesAfter (x : BlockEvent σ) : Nonces := x.after.journal.state.noncesOf

variable {x y : BlockEvent σ} (hbump : evm.BumpsNonces) (hframes : evm.KeepsNonces)

include hbump hframes

theorem Occurs.forward (h : x.Occurs env evm) : Nonces.Forward x.now x.noncesBefore x.noncesAfter := by
  cases htx : x.transaction with
  | none => exact (h.other htx).forward x.now
  | some tx =>
    rcases h.run tx.1 tx.2 htx with ⟨result, hok⟩ | ⟨e, herr⟩
    · obtain ⟨t⟩ := execute_ok hok
      obtain ⟨recovered, hsender⟩ := t.sender
      exact (t.consumes hbump hframes (h.fits _ _ _ _ htx hsender)).1
    · have hjournal := restores_execute _ _ _ _ _ _ h.clean herr
      unfold noncesAfter
      rw [hjournal]
      exact .refl _ _

theorem Occurs.consumes (h : x.Occurs env evm) {sender : Address}
    (hincludes : x.Includes env evm tx sender) :
    Nonces.Consumes env tx sender x.now x.noncesBefore x.noncesAfter := by
  obtain ⟨signed, envelopedTx, result, recovered, htx, hok, hsender, rfl⟩ := hincludes
  obtain ⟨t⟩ := execute_ok hok
  obtain ⟨recovered', hsender'⟩ := t.sender
  obtain ⟨rfl, -⟩ : sender = t.outcome.sender ∧ recovered = recovered' := by
    rw [hsender] at hsender'
    cases hsender'
    exact ⟨rfl, rfl⟩
  exact (t.consumes hbump hframes (h.fits _ _ _ _ htx hsender)).2

theorem forward_pairwise {events : List (BlockEvent σ)} {w w' : World σ}
    (hlinked : Linked (fun x : BlockEvent σ => x.before.journal.state)
      (fun x => x.after.journal.state) w events w')
    (hoccurs : ∀ x ∈ events, x.Occurs env evm)
    (htime : events.Pairwise fun x y => x.block.timestamp ≤ y.block.timestamp) :
    events.Pairwise fun x y => Nonces.Forward y.now x.noncesAfter y.noncesBefore := by
  have hsorted : events.Pairwise fun x y => x.now ≤ y.now := by
    refine htime.imp fun {x y} hle => ?_
    have hnat := BitVec.le_def.mp hle
    unfold now nowMillis satMul
    omega
  exact hlinked.pairwise_at now (fun i (v v' : World σ) => Nonces.Forward i v.noncesOf v'.noncesOf)
    (fun _ _ => .refl _ _) (fun _ _ _ _ h h' => h.trans h') (fun _ _ _ _ hle h => h.mono hle)
    (fun x hx => (hoccurs x hx).forward hbump hframes) hsorted

/-- Two included transactions of one sender and one sequenced key have different sequence numbers,
and one that repeats the replay id of another is included when the other has expired. -/
theorem Occurs.nonces_differ (hx : x.Occurs env evm) (hy : y.Occurs env evm)
    (hxy : Nonces.Forward y.now x.noncesAfter y.noncesBefore) {tx' : TxEip8130}
    {sender sender' : Address} (hin : x.Includes env evm tx sender)
    (hin' : y.Includes env evm tx' sender') :
    (tx.nonceKey ≠ nonceKeyMax → sender' = sender → tx'.nonceKey = tx.nonceKey →
      tx'.nonceSequence ≠ tx.nonceSequence) ∧
    (tx.nonceKey = nonceKeyMax → tx'.nonceKey = nonceKeyMax →
      tx'.replayId env sender' = tx.replayId env sender → tx.validBefore.toNat ≤ y.now) := by
  have hfirst := hx.consumes hbump hframes hin
  have hsecond := hy.consumes hbump hframes hin'
  unfold Nonces.Consumes at hfirst hsecond
  constructor
  · rintro hkey rfl hsame heq
    rw [if_neg hkey] at hfirst
    rw [hsame, if_neg hkey] at hsecond
    -- the sequence is past the number of the first one when the second one begins
    have hpast := UInt64.lt_of_lt_of_le hfirst.2 (hxy.sequence sender' tx.nonceKey)
    rw [hsecond.1, heq] at hpast
    exact UInt64.lt_irrefl _ hpast
  · intro hkey hkey' hid
    rw [if_pos hkey] at hfirst
    rw [if_pos hkey', hid] at hsecond
    by_contra hlive
    have hseen := hxy.seen _ (hfirst.2.2 ▸ not_le.mp hlive)
    have hfree := hsecond.1
    rw [hseen, hfirst.2.2] at hfree
    exact hlive hfree

end BlockEvent

end

namespace CreateExample

theorem evm_bumpsNonces : evm.BumpsNonces := by
  intro n hn
  refine if_neg ?_
  rintro rfl
  revert hn
  decide

theorem evm_keepsNonces : evm.KeepsNonces := by
  intro w inputs frame w' h
  unfold evm at h
  simp only at h
  split_ifs at h <;> cases h <;> exact ⟨fun _ => UInt64.le_refl _, rfl, rfl⟩

/-- The statuses of the phases, the new account with the epoch of its configuration, and the word that
is stored. -/
structure Left where
  phaseStatuses : List UInt8
  account : Account
  localEpoch : UInt64
  stored : ℕ
  deriving DecidableEq

/-- What the transaction leaves, and the error when it comes again. -/
def twice : Option (Left × EvmError) :=
  match execute env evm block signed (some encoded) context with
  | .ok _ c =>
    match execute env evm block signed (some encoded) c with
    | .error e _ =>
      let w := c.journal.state
      some (⟨c.phaseStatuses, w.accounts account, (w.config.getAccountState account).localEpoch,
        w.rest⟩, e)
    | .ok _ _ => none
  | .error _ _ => none

theorem twice_eq : twice = some (⟨[1, 0], ⟨0, 1, [0x00]⟩, 1, 7⟩,
    .transaction (.auth (.apply (.alreadyInitialized account)))) := by
  decide +kernel

theorem resolveSender_eq {sender : Address} {recovered : Option RecoveredActorId}
    (h : resolveSender env signed = .ok (sender, recovered)) : sender = account := by
  cases h
  rfl

def attempt (c c' : Context ℕ) : BlockEvent ℕ := ⟨block, some (signed, some encoded), c, c'⟩

def events (c c' : Context ℕ) : List (BlockEvent ℕ) := [attempt context c, attempt c c']

theorem nonce_world : (world.accounts account).nonce = 0 := by decide +kernel

theorem attempt_occurs {c c' : Context ℕ} {n : UInt64}
    (hclean : c.journal.state = c.journal.committed)
    (hnonce : (c.journal.state.accounts account).nonce = n)
    (hrun : (∃ result, execute env evm block signed (some encoded) c = .ok result c') ∨
      ∃ e, execute env evm block signed (some encoded) c = .error e c')
    (hfits : n.toNat + 1 < 2 ^ 64 := by decide) : (attempt c c').Occurs env evm where
  clean := hclean
  fits s envelopedTx sender recovered htx hsender := by
    cases htx
    obtain rfl := resolveSender_eq hsender
    show (c.journal.state.accounts account).nonce.toNat + 1 < 2 ^ 64
    rwa [hnonce]
  run s envelopedTx htx := by
    cases htx
    exact hrun
  other htx := by cases htx

theorem twice_cases : ∃ result c e c',
    execute env evm block signed (some encoded) context = .ok result c ∧
    execute env evm block signed (some encoded) c = .error e c' ∧
    (c.journal.state.accounts account).nonce = 1 := by
  have htwice := twice_eq
  unfold twice at htwice
  cases hfirst : execute env evm block signed (some encoded) context with rw [hfirst] at htwice
  | error e c => cases htwice
  | ok result c =>
    cases hsecond : execute env evm block signed (some encoded) c with
      simp only [hsecond] at htwice
    | ok result' c' => cases htwice
    | error e c' =>
      simp only [Option.some.injEq, Prod.mk.injEq, Left.mk.injEq] at htwice
      obtain ⟨⟨-, haccount, -⟩, -⟩ := htwice
      exact ⟨result, c, e, c', rfl, hsecond, congrArg Account.nonce haccount⟩

end CreateExample

open CreateExample

end NodeReth.Eip8130
