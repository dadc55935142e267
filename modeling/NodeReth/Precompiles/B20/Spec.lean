import NodeReth.Precompiles.B20.Dispatch

/-!
# What the operations do

For each operation that succeeds: the checks it has passed and what it leaves in the ledger, that
is, in the slots that decide who holds what and who may do what. `Effect` gathers this for all
operations, and the results about whole runs use nothing else.
-/

namespace NodeReth

open AssetV2 B20AssetStorage B20Guards B20TokenRole Bytes Checked Effects

set_option synthInstance.maxSize 100000

structure SameLedger (s t : B20AssetStorage) : Prop where
  balances : t.balances = s.balances
  totalSupply : t.totalSupply = s.totalSupply
  supplyCap : t.supplyCap = s.supplyCap
  allowances : t.allowances = s.allowances
  nonces : t.nonces = s.nonces
  roles : t.roles = s.roles
  roleAdmins : t.roleAdmins = s.roleAdmins
  adminCount : t.adminCount = s.adminCount
  policyIds : t.policyIds = s.policyIds

theorem SameLedger.trans {s t u : B20AssetStorage} (h : SameLedger s t) (h' : SameLedger t u) :
    SameLedger s u :=
  ⟨h'.1.trans h.1, h'.2.trans h.2, h'.3.trans h.3, h'.4.trans h.4, h'.5.trans h.5, h'.6.trans h.6,
    h'.7.trans h.7, h'.8.trans h.8, h'.9.trans h.9⟩

def B20AssetStorage.multiplierSlots (s : B20AssetStorage) : U256 × BitVec 128 × BitVec 64 :=
  (s.multiplier, s.pendingMultiplier, s.pendingEffectiveAt)

/-- The ledger and the multiplier are the same. -/
structure SameSlots (s t : B20AssetStorage) : Prop extends SameLedger s t where
  multiplierSlots : t.multiplierSlots = s.multiplierSlots

theorem SameSlots.refl (s : B20AssetStorage) : SameSlots s s :=
  ⟨⟨rfl, rfl, rfl, rfl, rfl, rfl, rfl, rfl, rfl⟩, rfl⟩

theorem SameSlots.trans {s t u : B20AssetStorage} (h : SameSlots s t) (h' : SameSlots t u) :
    SameSlots s u :=
  ⟨h.1.trans h'.1, h'.2.trans h.2⟩

theorem sameSlots_emitEvent (s : B20AssetStorage) (event : B20Event) :
    SameSlots s (s.emitEvent event) :=
  ⟨⟨rfl, rfl, rfl, rfl, rfl, rfl, rfl, rfl, rfl⟩, rfl⟩

namespace B20AssetStorage

/-! ## Updates of the ledger -/

/-- The sender is debited before the receiver's balance is read. -/
def moved (s : B20AssetStorage) (sender receiver : Address) (amount : U256) : B20AssetStorage :=
  let debited := s.setBalance sender (s.balances sender - amount)
  debited.setBalance receiver (debited.balances receiver + amount)

def spent (s : B20AssetStorage) (owner spender : Address) (amount : U256) : B20AssetStorage :=
  if s.allowances owner spender = BitVec.allOnes 256 then s
  else s.setAllowance owner spender (s.allowances owner spender - amount)

def minted (s : B20AssetStorage) (receiver : Address) (amount : U256) : B20AssetStorage :=
  (s.setTotalSupply (s.totalSupply + amount)).setBalance receiver (s.balances receiver + amount)

def burned (s : B20AssetStorage) (sender : Address) (amount : U256) : B20AssetStorage :=
  (s.setBalance sender (s.balances sender - amount)).setTotalSupply (s.totalSupply - amount)

/-- The counter follows the admin role. -/
def granted (s : B20AssetStorage) (role : B256) (account : Address) : B20AssetStorage :=
  if s.roles role account then s
  else (s.setRole role account true).setRoleMemberCount role (s.roleMemberCount role + 1)

def revoked (s : B20AssetStorage) (role : B256) (account : Address) : B20AssetStorage :=
  if s.roles role account then
    (s.setRole role account false).setRoleMemberCount role (s.roleMemberCount role - 1)
  else s

/-- The sender has the amount and the receiver has room for it. -/
structure CanMove (s : B20AssetStorage) (sender receiver : Address) (amount : U256) : Prop where
  covered : amount ≤ s.balances sender
  room : (Function.update s.balances sender (s.balances sender - amount) receiver).toNat +
    amount.toNat < 2 ^ 256

end B20AssetStorage

variable {env : B20Env} {ctx : CallContext} {privileged : Bool}
variable {s t : B20AssetStorage} {u : Unit}

/-! ## What each operation has checked and leaves -/

/-- The new supply is within the cap, and the receiver has room. -/
structure B20AssetStorage.CanMint (s : B20AssetStorage) (receiver : Address) (amount : U256) :
    Prop where
  supplyRoom : s.totalSupply.toNat + amount.toNat < 2 ^ 256
  capped : s.totalSupply + amount ≤ s.supplyCap
  room : (s.balances receiver).toNat + amount.toNat < 2 ^ 256

def MintStep (s t : B20AssetStorage) : Prop :=
  ∃ receiver amount, s.CanMint receiver amount ∧ SameSlots (s.minted receiver amount) t

/-- The signature recovers to the owner over the digest of the current domain and nonce. -/
def PermitArgs.SignedByOwner (env : B20Env) (ctx : CallContext) (s : B20AssetStorage)
    (args : PermitArgs) : Prop :=
  args.recovered env (args.signingHash env (AssetV1.domainSeparator env s ctx.chainId)
    (s.nonces args.owner)) = some args.owner

def B20AssetStorage.NotLastAdmin (s : B20AssetStorage) (role : B256) (account : Address) : Prop :=
  role = defaultAdmin.id → s.roles role account = true → s.adminCount ≠ 1

/-- The caller of a change to a role: the token has an admin, and the caller administers the
role. -/
def MayAdminister (ctx : CallContext) (s : B20AssetStorage) (role : B256) : Prop :=
  s.adminCount ≠ 0 ∧ s.roles (s.roleAdmins role) ctx.caller = true

inductive MultiplierUpdate
  | set (m : U256)
  | schedule (m effectiveAt : U256)
  | cancel

namespace B20Operation

def multiplierUpdate : B20Operation → Option MultiplierUpdate
  | updateMultiplier m => some (.set m)
  | updateUIMultiplier m effectiveAt => some (.schedule m effectiveAt)
  | cancelUIMultiplierUpdate => some .cancel
  | _ => none

/-- A transfer by its caller, with or without a memo. -/
def asTransfer : B20Operation → Option (Address × U256)
  | transfer receiver amount | transferWithMemo receiver amount _ => some (receiver, amount)
  | _ => none

def asTransferFrom : B20Operation → Option (Address × Address × U256)
  | transferFrom sender receiver amount | transferFromWithMemo sender receiver amount _ =>
    some (sender, receiver, amount)
  | _ => none

def asBurn : B20Operation → Option U256
  | burn amount | burnWithMemo amount _ => some amount
  | _ => none

/-- The feature that stops the operation when it is paused. -/
def feature : B20Operation → Option PausableFeature
  | transfer _ _ | transferWithMemo _ _ _ | transferFrom _ _ _ | transferFromWithMemo _ _ _ _ =>
    some .transfer
  | mint _ _ | mintWithMemo _ _ _ | batchMint _ _ => some .mint
  | burn _ | burnWithMemo _ _ | burnBlocked _ _ => some .burn
  | seizeWithMemo _ _ _ _ => some .seize
  | _ => none

/-- Reads, and writes that only concern pausing, texts and the multiplier. -/
def isQuiet : B20Operation → Bool
  | read _ | pause _ | unpause _ | updateName _ | updateSymbol _ | updateContractURI _
  | updateExtraMetadata _ _ | updateMultiplier _ | updateUIMultiplier _ _
  | cancelUIMultiplierUpdate => true
  | _ => false

end B20Operation

/-- What an operation on funds has checked when it succeeds in storage `s`, and what it makes of
the storage. -/
inductive FundsStep (env : B20Env) (ctx : CallContext) (privileged : Bool) (s : B20AssetStorage) :
    B20Operation → B20AssetStorage → Prop
  | transfer {o receiver amount} (ho : o.asTransfer = some (receiver, amount))
      (hpaused : s.paused &&& PausableFeature.transfer.mask = 0)
      (hcan : s.CanMove ctx.caller receiver amount) :
      FundsStep env ctx privileged s o (s.moved ctx.caller receiver amount)
  | transferFrom {o sender receiver amount} (ho : o.asTransferFrom = some (sender, receiver, amount))
      (hpaused : s.paused &&& PausableFeature.transfer.mask = 0)
      (hallowance : amount ≤ s.allowances sender ctx.caller)
      (hcan : s.CanMove sender receiver amount) :
      FundsStep env ctx privileged s o
        ((s.moved sender receiver amount).spent sender ctx.caller amount)
  | mint {o : B20Operation} {t : B20AssetStorage} (ho : o.feature = some .mint)
      (hpaused : s.paused &&& PausableFeature.mint.mask = 0)
      (hsteps : Relation.ReflTransGen MintStep s t) : FundsStep env ctx privileged s o t
  | burn {o amount} (ho : o.asBurn = some amount)
      (hpaused : s.paused &&& PausableFeature.burn.mask = 0)
      (hcovered : amount ≤ s.balances ctx.caller) (hsupply : amount ≤ s.totalSupply) :
      FundsStep env ctx privileged s o (s.burned ctx.caller amount)
  | burnBlocked {sender amount} (hpaused : s.paused &&& PausableFeature.burn.mask = 0)
      (hrole : privileged = false → s.roles B20TokenRole.burnBlocked.id ctx.caller = true)
      (hblocked : ctx.isAuthorized env (s.policyIds .transferSender) sender = .ok false)
      (hcovered : amount ≤ s.balances sender) (hsupply : amount ≤ s.totalSupply) :
      FundsStep env ctx privileged s (.burnBlocked sender amount) (s.burned sender amount)
  | seizeWithMemo {sender receiver amount memo}
      (hpaused : s.paused &&& PausableFeature.seize.mask = 0)
      (hrole : s.roles seize.id ctx.caller = true)
      (hseizable : ctx.isAuthorized env (s.policyIds .seizeExempt) sender = .ok false)
      (hcan : s.CanMove sender receiver amount) :
      FundsStep env ctx privileged s (.seizeWithMemo sender receiver amount memo)
        (s.moved sender receiver amount)
  | approve {spender amount} :
      FundsStep env ctx privileged s (.approve spender amount)
        (s.setAllowance ctx.caller spender amount)
  | permit {args} (hsigned : args.SignedByOwner env ctx s)
      (hnonce : (s.nonces args.owner).toNat + 1 < 2 ^ 256) :
      FundsStep env ctx privileged s (.permit args)
        ((s.setNonce args.owner (s.nonces args.owner + 1)).setAllowance args.owner args.spender
          args.value)

/-- What a change of roles or policies has checked, and what it makes of the storage. -/
inductive RightsStep (ctx : CallContext) (privileged : Bool) (s : B20AssetStorage) :
    B20Operation → B20AssetStorage → Prop
  | updatePolicy {scope id policyType}
      (hadmin : privileged = false → s.roles defaultAdmin.id ctx.caller = true) :
      RightsStep ctx privileged s (.updatePolicy scope id) (s.setPolicyId policyType id)
  | grantRole {role account} (hmay : privileged = false → MayAdminister ctx s role) :
      RightsStep ctx privileged s (.grantRole role account) (s.granted role account)
  | revokeRole {role account} (hmay : privileged = false → MayAdminister ctx s role)
      (hlast : s.NotLastAdmin role account) :
      RightsStep ctx privileged s (.revokeRole role account) (s.revoked role account)
  | renounceRole {role} (hlast : s.NotLastAdmin role ctx.caller) :
      RightsStep ctx privileged s (.renounceRole role ctx.caller) (s.revoked role ctx.caller)
  | renounceLastAdmin (hrole : s.roles defaultAdmin.id ctx.caller = true)
      (hone : s.adminCount = 1) :
      RightsStep ctx privileged s .renounceLastAdmin (s.revoked defaultAdmin.id ctx.caller)
  | setRoleAdmin {role newAdminRole} (hmay : privileged = false → MayAdminister ctx s role) :
      RightsStep ctx privileged s (.setRoleAdmin role newAdminRole) (s.setRoleAdmin role newAdminRole)

/-- What an operation that succeeds in storage `s` has checked and what it leaves. The supply cap
belongs to the funds and to the rights. -/
inductive Effect (env : B20Env) (ctx : CallContext) (privileged : Bool) (s : B20AssetStorage)
    (o : B20Operation) (t : B20AssetStorage) : Prop
  | quiet (ho : o.isQuiet = true) (hsame : SameLedger s t)
      (hslots : o.multiplierUpdate = none → t.multiplierSlots = s.multiplierSlots)
  | funds {r} (hstep : FundsStep env ctx privileged s o r) (hsame : SameSlots r t)
  | rights {r} (hstep : RightsStep ctx privileged s o r) (hsame : SameSlots r t)
  | updateSupplyCap {cap} (ho : o = .updateSupplyCap cap)
      (hadmin : privileged = false → s.roles defaultAdmin.id ctx.caller = true)
      (hsupply : s.totalSupply ≤ cap) (hmax : cap ≤ b20MaxSupplyCap)
      (hsame : SameSlots (s.setSupplyCap cap) t)

theorem Effect.trans {o : B20Operation} {w : B20AssetStorage} (h : Effect env ctx privileged s o t)
    (hw : SameSlots t w) : Effect env ctx privileged s o w := by
  cases h with
  | quiet ho hsame hslots =>
    exact .quiet ho (hsame.trans hw.1) fun h => hw.multiplierSlots.trans (hslots h)
  | funds hstep hsame => exact .funds hstep (hsame.trans hw)
  | rights hstep hsame => exact .rights hstep (hsame.trans hw)
  | updateSupplyCap ho hadmin hsupply hmax hsame =>
    exact .updateSupplyCap ho hadmin hsupply hmax (hsame.trans hw)

/-! ## Balances -/

variable {amount allowance : U256} {sender receiver owner spender account : Address}
  {role memo scope : B256} {value v : AbiValue}

theorem moveBalance_ok (h : moveBalance sender receiver amount s = .ok u t) :
    s.CanMove sender receiver amount ∧ SameSlots (s.moved sender receiver amount) t := by
  unfold moveBalance at h
  simp only [bind_ok_iff, ensure_ok_iff, modify_ok_iff, orUnderOverflow_ok_iff,
    checkedSub_eq_some_iff, checkedAdd_eq_some_iff] at h
  obtain ⟨_, _, ⟨rfl, rfl⟩, _, _, ⟨hle, rfl⟩, _, _, ⟨⟨-, rfl⟩, rfl⟩, _, _, rfl, _, _, ⟨rfl, rfl⟩,
    _, _, ⟨⟨hroom, rfl⟩, rfl⟩, _, _, rfl, rfl⟩ := h
  exact ⟨⟨hle, hroom⟩, sameSlots_emitEvent _ _⟩

theorem burnInner_ok (h : burnInner sender amount s = .ok u t) :
    amount ≤ s.balances sender ∧ amount ≤ s.totalSupply ∧ SameSlots (s.burned sender amount) t := by
  unfold burnInner at h
  simp only [bind_ok_iff, ensure_ok_iff, modify_ok_iff, orUnderOverflow_ok_iff,
    checkedSub_eq_some_iff] at h
  obtain ⟨_, _, ⟨rfl, rfl⟩, _, _, ⟨hle, rfl⟩, _, _, rfl, _, _, ⟨rfl, rfl⟩, _, _,
    ⟨⟨hsupply, rfl⟩, rfl⟩, _, _, rfl, rfl⟩ := h
  exact ⟨hle, hsupply, sameSlots_emitEvent _ _⟩

/-! ## Transfers of the two versions -/

/-- The transfer of `AssetV1` behind its checks of the addresses. -/
theorem transferInner_eq (hreceiver : receiver ≠ Address.zero) (hsender : sender ≠ Address.zero) :
    AssetV1.transferInner env ctx sender receiver amount privileged s =
      AssetV2.transferInner env ctx ⟨sender, hsender⟩ ⟨receiver, hreceiver⟩ amount
        (if privileged then none else some s.transferPolicyIds) s := by
  unfold AssetV1.transferInner
  rw [ensure, if_pos hreceiver, ensure, if_pos hsender]
  cases privileged with
  | true => rfl
  | false =>
    rw [unlessPrivileged, if_neg Bool.false_ne_true]
    rw [bind_assoc]
    exact (reads_ensureAuthorizedById _ _ _).bind_congr fun _ =>
      bind_congr_left (ensurePolicyType_eq _ _)

theorem transfer_eq :
    AssetV1.transfer env ctx receiver amount privileged =
      AssetV2.transfer env ctx receiver amount privileged := by
  refine bind_congr fun _ => funext fun s => ?_
  by_cases hreceiver : receiver = Address.zero
  · rw [AssetV1.transferInner, ensure, if_neg (not_not.mpr hreceiver), NonZeroAddress.new,
      dif_neg (not_not.mpr hreceiver)]
    rfl
  rw [NonZeroAddress.new, dif_pos hreceiver]
  by_cases hsender : ctx.caller = Address.zero
  · rw [AssetV1.transferInner, ensure, if_pos hreceiver, ensure, if_neg (not_not.mpr hsender),
      NonZeroAddress.new, dif_neg (not_not.mpr hsender)]
    rfl
  rw [NonZeroAddress.new, dif_pos hsender, transferInner_eq hreceiver hsender]
  cases privileged <;> rfl

theorem transferFrom_eq :
    AssetV1.transferFrom env ctx sender receiver amount privileged =
      AssetV2.transferFrom env ctx sender receiver amount privileged := by
  refine bind_congr fun _ => ?_
  by_cases hreceiver : receiver = Address.zero
  · rw [ensure, if_neg (not_not.mpr hreceiver), NonZeroAddress.new, dif_neg (not_not.mpr hreceiver)]
    rfl
  rw [ensure, if_pos hreceiver, NonZeroAddress.new, dif_pos hreceiver]
  by_cases hsender : sender = Address.zero
  · rw [ensure, if_neg (not_not.mpr hsender), NonZeroAddress.new, dif_neg (not_not.mpr hsender)]
    rfl
  rw [ensure, if_pos hsender, NonZeroAddress.new, dif_pos hsender]
  funext s
  refine (reads_ensure _ _).bind_congr fun _ => ?_
  have hinner (privileged : Bool) :
      AssetV1.transferInner env ctx sender receiver amount privileged s =
        AssetV2.transferInner env ctx ⟨sender, hsender⟩ ⟨receiver, hreceiver⟩ amount
          (if privileged then none else some s.transferPolicyIds) s :=
    transferInner_eq hreceiver hsender
  cases privileged with
  | true => exact bind_congr_left (hinner true)
  | false =>
    by_cases hself : ctx.caller = sender
    · rw [decide_eq_true hself]
      exact bind_congr_left (hinner false)
    · rw [decide_eq_false hself]
      refine (bind_congr_left (ensurePolicyType_eq _ _)).trans ?_
      exact (reads_ensureAuthorizedById _ _ _).bind_congr fun _ => bind_congr_left (hinner false)

theorem transfer_eq_v1 :
    transfer env ctx receiver amount privileged = AssetV1.transfer env ctx receiver amount privileged := by
  unfold transfer
  cases ctx.version with
  | v1 => rfl
  | v2 => exact transfer_eq.symm

theorem transferFrom_eq_v1 :
    transferFrom env ctx sender receiver amount privileged =
      AssetV1.transferFrom env ctx sender receiver amount privileged := by
  unfold transferFrom
  cases ctx.version with
  | v1 => rfl
  | v2 => exact transferFrom_eq.symm

theorem AssetV1.transferInner_ok
    (h : AssetV1.transferInner env ctx sender receiver amount privileged s = .ok u t) :
    s.CanMove sender receiver amount ∧ SameSlots (s.moved sender receiver amount) t := by
  have hreads : Reads (do
      ensurePolicyType env ctx .transferSender sender
      ensurePolicyType env ctx .transferReceiver receiver) :=
    (reads_ensurePolicyType _ _).bind fun _ => reads_ensurePolicyType _ _
  unfold AssetV1.transferInner at h
  simp only [bind_ok_iff (f := fun _ => _ >>= _), ensure_ok_iff] at h
  obtain ⟨_, _, ⟨-, rfl⟩, _, _, ⟨-, rfl⟩, h⟩ := h
  obtain ⟨_, _, hcheck, hmove⟩ := bind_ok_iff.mp h
  obtain ⟨rfl, -⟩ := unlessPrivileged_ok hreads hcheck
  exact moveBalance_ok hmove

variable {o : B20Operation}

theorem transfer_ok (ho : o.asTransfer = some (receiver, amount))
    (h : transfer env ctx receiver amount privileged s = .ok u t) :
    Effect env ctx privileged s o t := by
  rw [transfer_eq_v1] at h
  obtain ⟨_, _, hpaused, hinner⟩ := bind_ok_iff.mp h
  obtain ⟨hpaused, rfl⟩ := ensureNotPaused_ok_iff.mp hpaused
  obtain ⟨hcan, hsame⟩ := AssetV1.transferInner_ok hinner
  exact .funds (.transfer ho hpaused hcan) hsame

theorem le_of_covers
    (h : allowance = BitVec.allOnes 256 ∨ amount ≤ allowance) : amount ≤ allowance := by
  rcases h with rfl | h
  · rw [BitVec.le_def, BitVec.toNat_allOnes]
    omega
  · exact h

theorem spend_ok {s₀ : B20AssetStorage}
    (hallowance : allowance = s₀.allowances owner spender) (hsame : SameSlots s₀ s)
    (h : (if allowance = BitVec.allOnes 256 then pure () else
      modify (setAllowance owner spender (allowance - amount)) : TokenM PUnit) s = .ok u t) :
    SameSlots (s₀.spent owner spender amount) t := by
  unfold spent
  rw [← hallowance]
  split_ifs at h ⊢
  · rwa [(pure_ok_iff.mp h).2]
  · rw [modify_ok_iff.mp h]
    refine { hsame with allowances := ?_ }
    show Function.update s.allowances owner _ = Function.update s₀.allowances owner _
    rw [hsame.allowances]

theorem transferFrom_ok (ho : o.asTransferFrom = some (sender, receiver, amount))
    (h : transferFrom env ctx sender receiver amount privileged s = .ok u t) :
    Effect env ctx privileged s o t := by
  rw [transferFrom_eq_v1, AssetV1.transferFrom] at h
  simp only [bind_ok_iff, ensureNotPaused_ok_iff, ensure_ok_iff] at h
  obtain ⟨_, _, ⟨hpaused, rfl⟩, _, _, ⟨-, rfl⟩, _, _, ⟨-, rfl⟩, _, _, ⟨rfl, rfl⟩, _, _,
    ⟨hcovers, rfl⟩, _, _, hexecutor, _, _, hinner, hspend⟩ := h
  obtain ⟨rfl, -⟩ := unlessPrivileged_ok (reads_ensurePolicyType _ _) hexecutor
  obtain ⟨hcan, hmoved⟩ := AssetV1.transferInner_ok hinner
  exact .funds (.transferFrom ho hpaused (le_of_covers hcovers) hcan) (spend_ok rfl hmoved hspend)

theorem unlessPrivileged_role_ok_iff :
    unlessPrivileged privileged (ensureRole ctx.caller role) s = .ok u t ↔
      (privileged = false → s.roles role ctx.caller = true) ∧ t = s := by
  unfold unlessPrivileged
  cases privileged with
  | true => exact pure_ok_iff.trans ⟨fun h => ⟨nofun, h.2⟩, fun h => ⟨rfl, h.2⟩⟩
  | false =>
    rw [if_neg (by decide), ensureRole_ok_iff]
    exact and_congr_left fun _ => ⟨fun h _ => h, fun h => h rfl⟩

theorem mint_ok (h : mint env ctx receiver amount privileged s = .ok u t) :
    s.paused &&& PausableFeature.mint.mask = 0 ∧ s.CanMint receiver amount ∧
      SameSlots (s.minted receiver amount) t := by
  unfold mint ensureTokenRole at h
  simp only [bind_ok_iff, ensureNotPaused_ok_iff, unlessPrivileged_role_ok_iff, ensure_ok_iff,
    ensurePolicyType_eq, ensureAuthorizedById_ok_iff, orUnderOverflow_ok_iff,
    checkedAdd_eq_some_iff, modify_ok_iff] at h
  obtain ⟨_, _, ⟨hpaused, rfl⟩, _, _, ⟨-, rfl⟩, _, _, ⟨-, rfl⟩, _, _, ⟨-, rfl⟩, _, _, ⟨rfl, rfl⟩,
    _, _, ⟨⟨hsupply, rfl⟩, rfl⟩, _, _, ⟨hcap, rfl⟩, _, _, rfl, _, _, ⟨rfl, rfl⟩, _, _,
    ⟨⟨hroom, rfl⟩, rfl⟩, _, _, rfl, rfl⟩ := h
  exact ⟨hpaused, ⟨hsupply, hcap, hroom⟩, sameSlots_emitEvent _ _⟩

theorem mint_effect (ho : o.feature = some .mint)
    (h : mint env ctx receiver amount privileged s = .ok u t) : Effect env ctx privileged s o t := by
  obtain ⟨hpaused, hcan, hsame⟩ := mint_ok h
  exact .funds (.mint ho hpaused (.single ⟨receiver, amount, hcan, hsame⟩)) (.refl _)

theorem batchMint_ok {recipients : List Address} {amounts : List U256}
    (h : batchMint env ctx recipients amounts privileged s = .ok u t) :
    Effect env ctx privileged s (.batchMint recipients amounts) t := by
  unfold batchMint ensureTokenRole at h
  simp only [bind_ok_iff, ensureNotPaused_ok_iff, unlessPrivileged_role_ok_iff, ensure_ok_iff] at h
  obtain ⟨_, _, ⟨hpaused, rfl⟩, _, _, ⟨-, rfl⟩, _, _, ⟨-, rfl⟩, _, _, ⟨-, rfl⟩, hloop⟩ := h
  refine .funds (.mint rfl hpaused (forM_ok_related _ (fun _ => .refl) (fun _ _ _ => .trans) ?_ hloop))
    (.refl _)
  intro entry s t hmint
  exact .single ⟨entry.1, entry.2, (mint_ok hmint).2⟩

theorem burn_ok (ho : o.asBurn = some amount) (h : burn ctx amount s = .ok u t) :
    Effect env ctx privileged s o t := by
  unfold burn ensureTokenRole at h
  simp only [bind_ok_iff, ensureNotPaused_ok_iff, ensureRole_ok_iff] at h
  obtain ⟨_, _, ⟨hpaused, rfl⟩, _, _, ⟨-, rfl⟩, hburn⟩ := h
  obtain ⟨hcovered, hsupply, hsame⟩ := burnInner_ok hburn
  exact .funds (.burn ho hpaused hcovered hsupply) hsame

theorem burnBlocked_ok (h : burnBlocked env ctx sender amount privileged s = .ok u t) :
    Effect env ctx privileged s (.burnBlocked sender amount) t := by
  unfold burnBlocked ensureTokenRole ensureBlocked at h
  simp only [bind_ok_iff, ensureNotPaused_ok_iff, unlessPrivileged_role_ok_iff,
    ensureNotAuthorized_ok_iff, modify_ok_iff] at h
  obtain ⟨_, _, ⟨hpaused, rfl⟩, _, _, ⟨hrole, rfl⟩, _, _, ⟨hblocked, rfl⟩, _, _, hburn, rfl⟩ := h
  obtain ⟨hcovered, hsupply, hsame⟩ := burnInner_ok hburn
  exact .funds (.burnBlocked hpaused hrole hblocked hcovered hsupply)
    (hsame.trans (sameSlots_emitEvent _ _))

theorem seizeWithMemo_ok (h : seizeWithMemo env ctx sender receiver amount memo s = .ok u t) :
    Effect env ctx privileged s (.seizeWithMemo sender receiver amount memo) t := by
  unfold seizeWithMemo ensureTokenRole ensureSeizable emitMemo at h
  cases hv : ctx.version with
  | v1 =>
    simp only [hv] at h
    cases h
  | v2 =>
    simp only [hv, bind_ok_iff, ensureNotPaused_ok_iff, ensureRole_ok_iff, ensure_ok_iff,
      ensureNotAuthorized_ok_iff, ensurePolicyType_eq, ensureAuthorizedById_ok_iff,
      modify_ok_iff] at h
    obtain ⟨_, _, ⟨hpaused, rfl⟩, _, _, ⟨hrole, rfl⟩, _, _, ⟨-, rfl⟩, _, _, ⟨-, rfl⟩, _, _,
      ⟨-, rfl⟩, _, _, ⟨hseizable, rfl⟩, _, _, ⟨-, rfl⟩, _, _, hmove, _, _, rfl, rfl⟩ := h
    obtain ⟨hcan, hsame⟩ := moveBalance_ok hmove
    exact .funds (.seizeWithMemo hpaused hrole hseizable hcan)
      ((hsame.trans (sameSlots_emitEvent _ _)).trans (sameSlots_emitEvent _ _))

/-! ## Allowances and permits -/

theorem approve_ok (h : approve owner spender amount s = .ok u t) :
    SameSlots (s.setAllowance owner spender amount) t := by
  unfold approve at h
  simp only [bind_ok_iff, ensure_ok_iff, modify_ok_iff] at h
  obtain ⟨_, _, ⟨-, rfl⟩, _, _, ⟨-, rfl⟩, _, _, rfl, rfl⟩ := h
  exact sameSlots_emitEvent _ _

theorem deductGas_bind {α : Type} {f : ℕ → TokenM α} {cost left : ℕ} :
    (deductGas cost left >>= f) s =
      if cost ≤ left then f (left - cost) s else .error .outOfGas s := by
  unfold deductGas ensure
  split_ifs <;> rfl

theorem meteredKeccak256_bind {α : Type} {f : B256 × ℕ → TokenM α} {data : Bytes} {left : ℕ} :
    (meteredKeccak256 env data left >>= f) s =
      if keccakCost data.length ≤ left then
        f (env.keccak256 data, left - keccakCost data.length) s
      else .error .outOfGas s := by
  unfold meteredKeccak256
  rw [bind_assoc, deductGas_bind]
  rfl

theorem domainEncoding_length (nameHash versionHash : B256) (chainId : BitVec 64)
    (token : Address) : (domainEncoding nameHash versionHash chainId token).length = 160 := by
  simp [domainEncoding, domainTypehash.2, nameHash.2, versionHash.2]

theorem structEncoding_length (args : PermitArgs) (nonce : U256) :
    (args.structEncoding nonce).length = 192 := by
  simp [PermitArgs.structEncoding, PermitArgs.typehash.2]

theorem signingEncoding_length (domain struct : B256) :
    (PermitArgs.eip712SigningPrefix ++ (domain.val ++ struct.val)).length = 66 := by
  simp [PermitArgs.eip712SigningPrefix, domain.2, struct.2]

/-- Two charges come to one. -/
theorem ite_deducted {α : Type} {a b left : ℕ} {x y : α} :
    (if a ≤ left then if b ≤ left - a then x else y else y) =
      if a + b ≤ left then x else y := by
  split_ifs <;> first | rfl | omega

/-- What `AssetV2` charges for a permit: the hashes of the name, the version, the domain, the
struct and the digest, and the recovery. -/
def AssetV2.permitCost (s : B20AssetStorage) : ℕ :=
  keccakCost s.name.toUTF8.toList.length + (keccakCost domainVersion.length + (keccakCost 160 +
    (keccakCost 192 + (keccakCost 66 + PermitArgs.recoverGas))))

/-- A permit in time that is paid for does what it does under `AssetV1`. -/
theorem permit_metered (env : B20Env) (ctx : CallContext) (args : PermitArgs)
    (s : B20AssetStorage) :
    AssetV2.permit env ctx args s =
      if ctx.timestamp ≤ args.deadline ∧ ctx.gasLeft s < AssetV2.permitCost s then
        .error .outOfGas s
      else AssetV1.permit env ctx args s := by
  unfold AssetV2.permit AssetV1.permit
  by_cases htime : ctx.timestamp ≤ args.deadline
  swap
  · rw [if_neg fun h => htime h.1, ensure, if_neg htime]
    rfl
  rw [ensure, if_pos htime]
  show (AssetV2.domainSeparator env s ctx.chainId (ctx.gasLeft s) >>= _) s = _
  simp only [AssetV2.domainSeparator, PermitArgs.meteredSigningHash, PermitArgs.meteredStructHash,
    PermitArgs.meteredRecoverSigner, bind_assoc, meteredKeccak256_bind, deductGas_bind,
    domainEncoding_length, structEncoding_length, signingEncoding_length, ite_deducted]
  by_cases hcost : AssetV2.permitCost s ≤ ctx.gasLeft s
  · exact (if_pos hcost).trans (if_neg fun h => Nat.not_le.mpr h.2 hcost).symm
  · exact (if_neg hcost).trans (if_pos ⟨htime, Nat.not_le.mp hcost⟩).symm

theorem permit_ok {args : PermitArgs} (h : permit env ctx args s = .ok u t) :
    Effect env ctx privileged s (.permit args) t := by
  have h : AssetV1.permit env ctx args s = .ok u t := by
    unfold permit at h
    cases hv : ctx.version with
    | v1 => simpa only [hv] using h
    | v2 =>
      simp only [hv, permit_metered] at h
      split_ifs at h
      exact h
  unfold AssetV1.permit PermitArgs.validateRecoveredAddress incrementNonce at h
  simp only [bind_ok_iff, ensure_ok_iff, PermitArgs.recoverSigner_ok_iff,
    orUnderOverflow_ok_iff, checkedAdd_eq_some_iff, modify_ok_iff] at h
  obtain ⟨_, _, ⟨-, rfl⟩, _, _, ⟨rfl, rfl⟩, _, _, ⟨hrecovered, rfl⟩, _, _, ⟨⟨-, rfl⟩, rfl⟩, _, _,
    ⟨_, _, ⟨rfl, rfl⟩, _, _, ⟨⟨hnonce, rfl⟩, rfl⟩, rfl⟩, happrove⟩ := h
  exact .funds (.permit hrecovered hnonce) (approve_ok happrove)

/-! ## Roles -/

theorem setRoleMemberCount_of_ne (h : role ≠ defaultAdmin.id)
    (count : U256) : s.setRoleMemberCount role count = s := if_neg h

theorem grantRoleUnchecked_ok (h : grantRoleUnchecked role account sender s = .ok u t) :
    SameSlots (s.granted role account) t := by
  unfold grantRoleUnchecked at h
  unfold granted
  rw [get_bind] at h
  cases hheld : s.roles role account with
  | true =>
    rw [hheld] at h
    rw [(pure_ok_iff.mp h).2]
    exact .refl _
  | false =>
    rw [hheld, if_neg (by decide)] at h
    split_ifs at h with hadmin
    · simp only [bind_ok_iff, modify_ok_iff, get_bind, orUnderOverflow_ok_iff,
        checkedAdd_eq_some_iff] at h
      obtain ⟨_, _, rfl, _, _, ⟨⟨-, rfl⟩, rfl⟩, _, _, rfl, rfl⟩ := h
      exact sameSlots_emitEvent _ _
    · obtain ⟨_, _, rfl, rfl⟩ := h
      rw [setRoleMemberCount_of_ne hadmin]
      exact sameSlots_emitEvent _ _

theorem revokeRoleUnchecked_ok (h : revokeRoleUnchecked role account sender s = .ok u t) :
    SameSlots (s.revoked role account) t := by
  unfold revokeRoleUnchecked at h
  unfold revoked
  rw [get_bind] at h
  cases hheld : s.roles role account with
  | false =>
    rw [hheld] at h
    rw [(pure_ok_iff.mp h).2]
    exact .refl _
  | true =>
    rw [hheld, if_neg (by decide)] at h
    split_ifs at h with hadmin
    · simp only [bind_ok_iff, modify_ok_iff, get_bind, orUnderOverflow_ok_iff,
        checkedSub_eq_some_iff] at h
      obtain ⟨_, _, rfl, _, _, ⟨⟨-, rfl⟩, rfl⟩, _, _, rfl, rfl⟩ := h
      exact sameSlots_emitEvent _ _
    · obtain ⟨_, _, rfl, rfl⟩ := h
      rw [setRoleMemberCount_of_ne hadmin]
      exact sameSlots_emitEvent _ _

theorem ensureRoleAdminMutationsAvailable_ok_iff :
    ensureRoleAdminMutationsAvailable ctx s = .ok u t ↔ s.adminCount ≠ 0 ∧ t = s := by
  unfold ensureRoleAdminMutationsAvailable
  rw [get_bind, ensure_ok_iff]
  rfl

theorem reads_ensureRoleAdminMutationsAvailable : Reads (ensureRoleAdminMutationsAvailable ctx) :=
  reads_get.bind fun _ => reads_ensure _ _

theorem ensureAdminOf_ok_iff :
    ensureAdminOf ctx role s = .ok u t ↔ s.roles (s.roleAdmins role) ctx.caller = true ∧ t = s := by
  unfold ensureAdminOf
  rw [get_bind, ensureRole_ok_iff]

theorem reads_ensureAdminOf (role : B256) : Reads (ensureAdminOf ctx role) :=
  reads_get.bind fun _ => reads_ensureRole _ _

theorem ensureNotLastAdmin_ok_iff :
    ensureNotLastAdmin role account s = .ok u t ↔ s.NotLastAdmin role account ∧ t = s := by
  unfold ensureNotLastAdmin
  rw [get_bind, ensure_ok_iff]
  refine and_congr_left fun _ => ⟨fun h hrole hheld hone => ?_, fun h hlast => ?_⟩
  · exact h ⟨hrole, hheld, (if_pos hrole).trans hone⟩
  · exact h hlast.1 hlast.2.1 ((if_pos hlast.1).symm.trans hlast.2.2)

theorem grantRole_ok (h : grantRole ctx role account privileged s = .ok u t) :
    Effect env ctx privileged s (.grantRole role account) t := by
  obtain ⟨_, _, havailable, hrest⟩ := bind_ok_iff.mp h
  obtain ⟨rfl, havailable⟩ :=
    unlessPrivileged_ok reads_ensureRoleAdminMutationsAvailable havailable
  obtain ⟨_, _, hadmin, hgrant⟩ := bind_ok_iff.mp hrest
  obtain ⟨rfl, hadmin⟩ := unlessPrivileged_ok (reads_ensureAdminOf role) hadmin
  refine .rights (.grantRole fun hp => ⟨?_, ?_⟩) (grantRoleUnchecked_ok hgrant)
  · exact (ensureRoleAdminMutationsAvailable_ok_iff.mp (havailable (by simp [hp]))).1
  · exact (ensureAdminOf_ok_iff.mp (hadmin hp)).1

theorem revokeRole_ok (h : revokeRole ctx role account privileged s = .ok u t) :
    Effect env ctx privileged s (.revokeRole role account) t := by
  have hreads : Reads (do ensureRoleAdminMutationsAvailable ctx; ensureAdminOf ctx role) :=
    reads_ensureRoleAdminMutationsAvailable.bind fun _ => reads_ensureAdminOf role
  obtain ⟨_, _, hadmin, hrest⟩ := bind_ok_iff.mp h
  obtain ⟨rfl, hadmin⟩ := unlessPrivileged_ok hreads hadmin
  simp only [bind_ok_iff, ensureNotLastAdmin_ok_iff] at hrest
  obtain ⟨_, _, ⟨hlast, rfl⟩, hrevoke⟩ := hrest
  refine .rights (.revokeRole (fun hp => ?_) hlast) (revokeRoleUnchecked_ok hrevoke)
  have hchecked := hadmin hp
  simp only [bind_ok_iff, ensureRoleAdminMutationsAvailable_ok_iff, ensureAdminOf_ok_iff] at hchecked
  obtain ⟨_, _, ⟨hcount, rfl⟩, hholds, -⟩ := hchecked
  exact ⟨hcount, hholds⟩

theorem renounceRole_ok {confirmation : Address} (h : renounceRole ctx role confirmation s = .ok u t) :
    Effect env ctx privileged s (.renounceRole role confirmation) t := by
  unfold renounceRole at h
  simp only [bind_ok_iff, ensure_ok_iff, ensureNotLastAdmin_ok_iff] at h
  obtain ⟨_, _, ⟨rfl, rfl⟩, _, _, ⟨hlast, rfl⟩, hrevoke⟩ := h
  exact .rights (.renounceRole hlast) (revokeRoleUnchecked_ok hrevoke)

theorem renounceLastAdmin_ok (h : renounceLastAdmin ctx s = .ok u t) :
    Effect env ctx privileged s .renounceLastAdmin t := by
  unfold renounceLastAdmin at h
  simp only [bind_ok_iff, ensureRole_ok_iff, get_bind, ensure_ok_iff, modify_ok_iff] at h
  obtain ⟨_, _, ⟨hrole, rfl⟩, _, _, ⟨hone, rfl⟩, _, _, hrevoke, rfl⟩ := h
  exact .rights (.renounceLastAdmin hrole hone)
    ((revokeRoleUnchecked_ok hrevoke).trans (sameSlots_emitEvent _ _))

theorem setRoleAdmin_ok {newAdminRole : B256}
    (h : setRoleAdmin ctx role newAdminRole privileged s = .ok u t) :
    Effect env ctx privileged s (.setRoleAdmin role newAdminRole) t := by
  have hreads : Reads (do
      ensureRoleAdminMutationsAvailable ctx
      ensureRole ctx.caller (s.roleAdmins role)) :=
    reads_ensureRoleAdminMutationsAvailable.bind fun _ => reads_ensureRole _ _
  unfold setRoleAdmin at h
  rw [get_bind, bind_ok_iff] at h
  obtain ⟨_, _, hadmin, hrest⟩ := h
  obtain ⟨ht, hadmin⟩ := unlessPrivileged_ok hreads hadmin
  rw [ht] at hrest
  obtain ⟨_, _, rfl, rfl⟩ := hrest
  refine .rights (.setRoleAdmin fun hp => ?_) (sameSlots_emitEvent _ _)
  have hchecked := hadmin hp
  simp only [bind_ok_iff, ensureRoleAdminMutationsAvailable_ok_iff, ensureRole_ok_iff] at hchecked
  obtain ⟨_, _, ⟨hcount, rfl⟩, hholds, -⟩ := hchecked
  exact ⟨hcount, hholds⟩

/-! ## Caps and policies -/

theorem updateSupplyCap_ok {newCap : U256} (h : updateSupplyCap ctx newCap privileged s = .ok u t) :
    Effect env ctx privileged s (.updateSupplyCap newCap) t := by
  unfold updateSupplyCap ensureTokenRole at h
  simp only [bind_ok_iff, unlessPrivileged_role_ok_iff, get_bind, ensure_ok_iff, modify_ok_iff] at h
  obtain ⟨_, _, ⟨hrole, rfl⟩, _, _, ⟨⟨hsupply, hmax⟩, rfl⟩, _, _, rfl, rfl⟩ := h
  exact .updateSupplyCap rfl hrole hsupply hmax (sameSlots_emitEvent _ _)

instance {γ : Type} {f : B20AssetStorage → γ} (scope : B256) :
    Frames f (ensureSupportedPolicyType ctx scope) := by
  unfold ensureSupportedPolicyType
  split <;> infer_instance

theorem updatePolicy_ok {newPolicyId : UInt64}
    (h : updatePolicy ctx scope newPolicyId privileged s = .ok u t) :
    Effect env ctx privileged s (.updatePolicy scope newPolicyId) t := by
  unfold updatePolicy ensureTokenRole at h
  simp only [bind_ok_iff, unlessPrivileged_role_ok_iff, get_bind, ensure_ok_iff, modify_ok_iff] at h
  obtain ⟨_, _, ⟨hrole, rfl⟩, policyType, _, hsupported, _, _, ⟨-, rfl⟩, _, _, rfl, rfl⟩ := h
  have hframes : Frames (fun s => s) (ensureSupportedPolicyType ctx scope) := inferInstance
  obtain rfl := hframes.keeps.1 _ _ _ hsupported
  exact .rights (.updatePolicy hrole) (sameSlots_emitEvent _ _)

/-! ## Operations that leave the ledger alone -/

def B20AssetStorage.ledger (s : B20AssetStorage) :=
  (s.balances, s.totalSupply, s.supplyCap, s.allowances, s.nonces, s.roles, s.roleAdmins,
    s.adminCount, s.policyIds)

def B20AssetStorage.slots (s : B20AssetStorage) := (s.ledger, s.multiplierSlots)

theorem sameLedger_of_eq (h : t.ledger = s.ledger) : SameLedger s t := by
  simp only [ledger, Prod.mk.injEq] at h
  obtain ⟨h₁, h₂, h₃, h₄, h₅, h₆, h₇, h₈, h₉⟩ := h
  exact ⟨h₁, h₂, h₃, h₄, h₅, h₆, h₇, h₈, h₉⟩

theorem sameSlots_of_frames {α : Type} {x : TokenM α} [hx : Frames slots x] {a : α}
    (h : x s = .ok a t) : SameSlots s t := by
  obtain ⟨hledger, hslots⟩ := Prod.mk.inj (hx.keeps.1 s a t h)
  exact ⟨sameLedger_of_eq hledger, hslots⟩

instance (name : String) : Untouched slots (setName name) := ⟨fun _ => rfl⟩

instance (symbol : String) : Untouched slots (setSymbol symbol) := ⟨fun _ => rfl⟩

instance (uri : String) : Untouched slots (setContractUri uri) := ⟨fun _ => rfl⟩

instance (key value : String) : Untouched slots (setExtraMetadataValue key value) :=
  ⟨fun _ => rfl⟩

instance (vectors : U256) : Untouched slots (setPaused vectors) := ⟨fun _ => rfl⟩

instance (id : String) : Untouched slots (markAnnouncementIdUsed id) := ⟨fun _ => rfl⟩

instance (multiplier : U256) : Untouched ledger (setMultiplier multiplier) := ⟨fun _ => rfl⟩

instance (multiplier : BitVec 128) (effectiveAt : BitVec 64) :
    Untouched ledger (writePending multiplier effectiveAt) :=
  ⟨fun _ => rfl⟩

instance (event : B20Event) : Untouched slots (emitEvent event) := ⟨fun _ => rfl⟩

instance (event : B20Event) : Untouched ledger (emitEvent event) := ⟨fun _ => rfl⟩

instance (features : List PausableFeature) : Frames slots (pause ctx features privileged) := by
  unfold pause
  infer_instance

instance (features : List PausableFeature) : Frames slots (unpause ctx features privileged) := by
  unfold unpause
  infer_instance

instance (name : String) : Frames slots (updateName ctx name privileged) := by
  unfold updateName
  infer_instance

instance (symbol : String) : Frames slots (updateSymbol ctx symbol privileged) := by
  unfold updateSymbol
  infer_instance

instance (uri : String) : Frames slots (updateContractUri ctx uri privileged) := by
  unfold updateContractUri
  infer_instance

instance (key value : String) :
    Frames slots (updateExtraMetadata ctx key value privileged) := by
  unfold updateExtraMetadata
  infer_instance

instance (id description uri : String) :
    Frames slots (beginAnnounce ctx id description uri privileged) := by
  unfold beginAnnounce ensureOperatorRole
  infer_instance

instance (id : String) : Frames slots (endAnnounce id) := by
  unfold endAnnounce
  infer_instance

instance (m : U256) : Frames ledger (updateMultiplier ctx m privileged) := by
  unfold updateMultiplier AssetV1.updateMultiplier AssetV2.updateMultiplier ensureOperatorRole
  cases ctx.version <;> infer_instance

instance (m effectiveAt : U256) : Frames ledger (updateUiMultiplier ctx m effectiveAt privileged) := by
  unfold updateUiMultiplier AssetV2.updateUiMultiplier ensureOperatorRole
  cases ctx.version <;> infer_instance

instance : Frames ledger (cancelUiMultiplierUpdate ctx privileged) := by
  unfold cancelUiMultiplierUpdate AssetV2.cancelUiMultiplierUpdate ensureOperatorRole
  cases ctx.version <;> infer_instance

/-! ## All operations -/

theorem then_return_ok {x : TokenM Unit} (h : (do x; return value) s = .ok v t) : x s = .ok () t := by
  obtain ⟨_, w, hx, hreturn⟩ := bind_ok_iff.mp h
  rwa [(pure_ok_iff.mp hreturn).2]

theorem then_memo_ok {x : TokenM Unit} (h : (do x; emitMemo ctx memo; return value) s = .ok v t) :
    ∃ w, x s = .ok () w ∧ SameSlots w t := by
  obtain ⟨_, w, hx, hmemo⟩ := bind_ok_iff.mp h
  have hwrite := modify_ok_iff.mp (then_return_ok hmemo)
  exact ⟨w, hx, hwrite ▸ sameSlots_emitEvent _ _⟩

theorem reads_read (r : AssetRead) : Reads (handle env ctx privileged (.read r)) := by
  refine reads_get.bind fun s => ?_
  cases r.value env ctx s with
  | ok value => exact reads_pure _
  | error e => exact reads_throw _

theorem handle_ok
    (h : handle env ctx privileged o s = .ok v t) : Effect env ctx privileged s o t := by
  cases o with
  | read r =>
    obtain rfl := (reads_read r).1 s v t h
    exact .quiet rfl (SameSlots.refl _).1 fun _ => rfl
  | transfer receiver amount => exact transfer_ok rfl (then_return_ok h)
  | transferWithMemo receiver amount memo =>
    obtain ⟨w, hw, hmemo⟩ := then_memo_ok h
    exact (transfer_ok rfl hw).trans hmemo
  | transferFrom sender receiver amount => exact transferFrom_ok rfl (then_return_ok h)
  | transferFromWithMemo sender receiver amount memo =>
    obtain ⟨w, hw, hmemo⟩ := then_memo_ok h
    exact (transferFrom_ok rfl hw).trans hmemo
  | approve spender amount => exact .funds .approve (approve_ok (then_return_ok h))
  | mint receiver amount => exact mint_effect rfl (then_return_ok h)
  | mintWithMemo receiver amount memo =>
    obtain ⟨w, hw, hmemo⟩ := then_memo_ok h
    exact (mint_effect rfl hw).trans hmemo
  | batchMint recipients amounts => exact batchMint_ok (then_return_ok h)
  | burn amount => exact burn_ok rfl (then_return_ok h)
  | burnWithMemo amount memo =>
    obtain ⟨w, hw, hmemo⟩ := then_memo_ok h
    exact (burn_ok rfl hw).trans hmemo
  | burnBlocked sender amount => exact burnBlocked_ok (then_return_ok h)
  | seizeWithMemo sender receiver amount memo => exact seizeWithMemo_ok (then_return_ok h)
  | updateSupplyCap cap => exact updateSupplyCap_ok (then_return_ok h)
  | pause _ | unpause _ | updateName _ | updateSymbol _ | updateContractURI _
  | updateExtraMetadata _ _ =>
    have hsame := sameSlots_of_frames (then_return_ok h)
    exact .quiet rfl hsame.1 fun _ => hsame.multiplierSlots
  | updateMultiplier _ | updateUIMultiplier _ _ | cancelUIMultiplierUpdate =>
    exact .quiet rfl (sameLedger_of_eq (Frames.keeps.1 _ _ _ (then_return_ok h))) (by rintro ⟨⟩)
  | grantRole role account => exact grantRole_ok (then_return_ok h)
  | revokeRole role account => exact revokeRole_ok (then_return_ok h)
  | renounceRole role confirmation => exact renounceRole_ok (then_return_ok h)
  | renounceLastAdmin => exact renounceLastAdmin_ok (then_return_ok h)
  | setRoleAdmin role newAdminRole => exact setRoleAdmin_ok (then_return_ok h)
  | updatePolicy scope id => exact updatePolicy_ok (then_return_ok h)
  | permit args => exact permit_ok (then_return_ok h)

end NodeReth
