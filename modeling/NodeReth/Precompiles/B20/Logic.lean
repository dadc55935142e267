import NodeReth.Precompiles.B20.Guards

/-!
# Operations of an asset token

The operations of `AssetV1` and `AssetV2` (`b20_asset/logic/v1.rs` and `v2.rs`). Most bodies are
the same in both versions and are written once; `transfer`, `transferFrom` and the operations on
the multiplier have one body per version, and `seizeWithMemo` exists from `AssetV2` on.
`privileged` is the mode in which the factory runs the calls of a token's creation.
-/

namespace NodeReth

open B20AssetStorage B20Guards B20TokenRole Bytes Checked Effects

variable (env : B20Env) (ctx : CallContext)

/-! ## Balances -/

/-- Debits the sender, then reads and credits the receiver. -/
def moveBalance (sender receiver : Address) (amount : U256) : TokenM Unit := do
  let s ← get
  let senderBalance := s.balances sender
  ensure (amount ≤ senderBalance) (.insufficientBalance sender senderBalance amount)
  let newSenderBalance ← orUnderOverflow (checkedSub senderBalance amount)
  modify (setBalance sender newSenderBalance)
  let s ← get
  let newReceiverBalance ← orUnderOverflow (checkedAdd (s.balances receiver) amount)
  modify (setBalance receiver newReceiverBalance)
  modify (emitEvent (.transfer sender receiver amount))

/-- The balance is reduced by a plain subtraction. -/
def burnInner (sender : Address) (amount : U256) : TokenM Unit := do
  let s ← get
  let balance := s.balances sender
  ensure (amount ≤ balance) (.insufficientBalance sender balance amount)
  modify (setBalance sender (balance - amount))
  let s ← get
  let newSupply ← orUnderOverflow (checkedSub s.totalSupply amount)
  modify (setTotalSupply newSupply)
  modify (emitEvent (.transfer sender Address.zero amount))

namespace AssetV1

def transferInner (sender receiver : Address) (amount : U256) (privileged : Bool) :
    TokenM Unit := do
  ensure (receiver ≠ Address.zero) (.invalidReceiver receiver)
  ensure (sender ≠ Address.zero) (.invalidSender sender)
  unlessPrivileged privileged do
    ensurePolicyType env ctx .transferSender sender
    ensurePolicyType env ctx .transferReceiver receiver
  moveBalance sender receiver amount

def transfer (receiver : Address) (amount : U256) (privileged : Bool) : TokenM Unit := do
  ensureNotPaused .transfer
  transferInner env ctx ctx.caller receiver amount privileged

def transferFrom (sender receiver : Address) (amount : U256) (privileged : Bool) :
    TokenM Unit := do
  ensureNotPaused .transfer
  ensure (receiver ≠ Address.zero) (.invalidReceiver receiver)
  ensure (sender ≠ Address.zero) (.invalidSender sender)
  let s ← get
  let allowance := s.allowances sender ctx.caller
  let isInfinite := allowance = BitVec.allOnes 256
  ensure (isInfinite ∨ amount ≤ allowance) (.insufficientAllowance ctx.caller allowance amount)
  unlessPrivileged (privileged || ctx.caller = sender) do
    ensurePolicyType env ctx .transferExecutor ctx.caller
  transferInner env ctx sender receiver amount privileged
  if isInfinite then return ()
  modify (setAllowance sender ctx.caller (allowance - amount))

end AssetV1

/-- Read together from their shared slot. -/
structure TransferPolicyIds where
  sender : UInt64
  receiver : UInt64
  executor : UInt64

def B20AssetStorage.transferPolicyIds (s : B20AssetStorage) : TransferPolicyIds :=
  ⟨s.policyIds .transferSender, s.policyIds .transferReceiver, s.policyIds .transferExecutor⟩

namespace AssetV2

def transferInner (sender receiver : NonZeroAddress) (amount : U256)
    (policies : Option TransferPolicyIds) : TokenM Unit := do
  match policies with
  | some policies =>
    ensureAuthorizedById env ctx B20PolicyType.transferSender.id policies.sender sender.val
    ensureAuthorizedById env ctx B20PolicyType.transferReceiver.id policies.receiver receiver.val
  | none => pure ()
  moveBalance sender.val receiver.val amount

def transfer (receiver : Address) (amount : U256) (privileged : Bool) : TokenM Unit := do
  ensureNotPaused .transfer
  let receiver ← NonZeroAddress.new receiver (.invalidReceiver receiver)
  let sender ← NonZeroAddress.new ctx.caller (.invalidSender ctx.caller)
  if privileged then
    transferInner env ctx sender receiver amount none
  else
    let s ← get
    transferInner env ctx sender receiver amount (some s.transferPolicyIds)

def transferFrom (sender receiver : Address) (amount : U256) (privileged : Bool) :
    TokenM Unit := do
  ensureNotPaused .transfer
  let receiver ← NonZeroAddress.new receiver (.invalidReceiver receiver)
  let sender ← NonZeroAddress.new sender (.invalidSender sender)
  let s ← get
  let allowance := s.allowances sender.val ctx.caller
  let isInfinite := allowance = BitVec.allOnes 256
  ensure (isInfinite ∨ amount ≤ allowance) (.insufficientAllowance ctx.caller allowance amount)
  if privileged then
    transferInner env ctx sender receiver amount none
  else
    let policies := s.transferPolicyIds
    unlessPrivileged (ctx.caller = sender.val) do
      ensureAuthorizedById env ctx B20PolicyType.transferExecutor.id policies.executor ctx.caller
    transferInner env ctx sender receiver amount (some policies)
  if isInfinite then return ()
  modify (setAllowance sender.val ctx.caller (allowance - amount))

end AssetV2

def transfer (receiver : Address) (amount : U256) (privileged : Bool) : TokenM Unit :=
  match ctx.version with
  | .v1 => AssetV1.transfer env ctx receiver amount privileged
  | .v2 => AssetV2.transfer env ctx receiver amount privileged

def transferFrom (sender receiver : Address) (amount : U256) (privileged : Bool) : TokenM Unit :=
  match ctx.version with
  | .v1 => AssetV1.transferFrom env ctx sender receiver amount privileged
  | .v2 => AssetV2.transferFrom env ctx sender receiver amount privileged

def approve (caller spender : Address) (amount : U256) : TokenM Unit := do
  ensure (caller ≠ Address.zero) (.invalidApprover caller)
  ensure (spender ≠ Address.zero) (.invalidSpender spender)
  modify (setAllowance caller spender amount)
  modify (emitEvent (.approval caller spender amount))

def emitMemo (memo : B256) : TokenM Unit := modify (emitEvent (.memo ctx.caller memo))

def mint (receiver : Address) (amount : U256) (privileged : Bool) : TokenM Unit := do
  ensureNotPaused .mint
  unlessPrivileged privileged (ensureTokenRole ctx.caller .mint)
  ensure (receiver ≠ Address.zero) (.invalidReceiver receiver)
  ensurePolicyType env ctx .mintReceiver receiver
  let s ← get
  let newSupply ← orUnderOverflow (checkedAdd s.totalSupply amount)
  ensure (newSupply ≤ s.supplyCap) (.supplyCapExceeded s.supplyCap newSupply)
  modify (setTotalSupply newSupply)
  let s ← get
  let newBalance ← orUnderOverflow (checkedAdd (s.balances receiver) amount)
  modify (setBalance receiver newBalance)
  modify (emitEvent (.transfer Address.zero receiver amount))

/-- Never privileged. -/
def burn (amount : U256) : TokenM Unit := do
  ensureNotPaused .burn
  ensureTokenRole ctx.caller .burn
  burnInner ctx.caller amount

def burnBlocked (sender : Address) (amount : U256) (privileged : Bool) : TokenM Unit := do
  ensureNotPaused .burn
  unlessPrivileged privileged (ensureTokenRole ctx.caller .burnBlocked)
  ensureBlocked env ctx sender
  burnInner sender amount
  modify (emitEvent (.burnedBlocked ctx.caller sender amount))

/-- Frozen selectors of V2 are rejected by V1. -/
def seizeWithMemo (sender receiver : Address) (amount : U256) (memo : B256) : TokenM Unit :=
  match ctx.version with
  | .v1 => throw .unknownFunctionSelector
  | .v2 => do
    ensureNotPaused .seize
    ensureTokenRole ctx.caller .seize
    ensure (receiver ≠ Address.zero) (.invalidReceiver receiver)
    ensure (sender ≠ Address.zero) (.invalidSender sender)
    ensure (sender ≠ receiver) (.invalidReceiver receiver)
    ensureSeizable env ctx sender
    ensurePolicyType env ctx .seizeReceiver receiver
    moveBalance sender receiver amount
    emitMemo ctx memo
    modify (emitEvent (.seized ctx.caller sender receiver amount))

/-- The inner mints are privileged; the guards of the batch stand for them. -/
def batchMint (recipients : List Address) (amounts : List U256) (privileged : Bool) :
    TokenM Unit := do
  ensureNotPaused .mint
  unlessPrivileged privileged (ensureTokenRole ctx.caller .mint)
  ensure (recipients.length = amounts.length) (.lengthMismatch recipients.length amounts.length)
  ensure (recipients ≠ []) .emptyBatch
  (recipients.zip amounts).forM fun entry => mint env ctx entry.1 entry.2 true

/-! ## Pausing and metadata -/

def pause (features : List PausableFeature) (privileged : Bool) : TokenM Unit := do
  features.forM fun feature => ensure (feature ∈ ctx.version.pausableFeatures) .enumConversionError
  unlessPrivileged privileged (ensureTokenRole ctx.caller .pause)
  ensure (features ≠ []) .emptyFeatureSet
  let s ← get
  modify (setPaused (features.foldl (fun next feature => next ||| feature.mask) s.paused))
  modify (emitEvent (.paused ctx.caller features))

def unpause (features : List PausableFeature) (privileged : Bool) : TokenM Unit := do
  features.forM fun feature => ensure (feature ∈ ctx.version.pausableFeatures) .enumConversionError
  unlessPrivileged privileged (ensureTokenRole ctx.caller .unpause)
  ensure (features ≠ []) .emptyFeatureSet
  let s ← get
  modify (setPaused (features.foldl (fun next feature => next &&& ~~~feature.mask) s.paused))
  modify (emitEvent (.unpaused ctx.caller features))

def updateSupplyCap (newCap : U256) (privileged : Bool) : TokenM Unit := do
  unlessPrivileged privileged (ensureTokenRole ctx.caller .defaultAdmin)
  let s ← get
  ensure (s.totalSupply ≤ newCap ∧ newCap ≤ b20MaxSupplyCap) (.invalidSupplyCap s.totalSupply newCap)
  modify (setSupplyCap newCap)
  modify (emitEvent (.supplyCapUpdated ctx.caller s.supplyCap newCap))

def updateName (name : String) (privileged : Bool) : TokenM Unit := do
  unlessPrivileged privileged (ensureTokenRole ctx.caller .metadata)
  modify (setName name)
  modify (emitEvent (.nameUpdated ctx.caller name))
  modify (emitEvent .eip712DomainChanged)

def updateSymbol (symbol : String) (privileged : Bool) : TokenM Unit := do
  unlessPrivileged privileged (ensureTokenRole ctx.caller .metadata)
  modify (setSymbol symbol)
  modify (emitEvent (.symbolUpdated ctx.caller symbol))

def updateContractUri (uri : String) (privileged : Bool) : TokenM Unit := do
  unlessPrivileged privileged (ensureTokenRole ctx.caller .metadata)
  modify (setContractUri uri)
  modify (emitEvent .contractURIUpdated)

def updateExtraMetadata (key value : String) (privileged : Bool) : TokenM Unit := do
  unlessPrivileged privileged (ensureTokenRole ctx.caller .metadata)
  ensure (key ≠ "") .invalidMetadataKey
  modify (setExtraMetadataValue key value)
  modify (emitEvent (.extraMetadataUpdated key value))

/-! ## Roles -/

def ensureRoleAdminMutationsAvailable : TokenM Unit := do
  let s ← get
  ensure (s.roleMemberCount defaultAdmin.id ≠ 0)
    (.accessControlUnauthorizedAccount ctx.caller defaultAdmin.id)

/-- Granting a role twice does nothing. -/
def grantRoleUnchecked (role : B256) (account sender : Address) : TokenM Unit := do
  let s ← get
  if s.roles role account then return ()
  modify (setRole role account true)
  if role = defaultAdmin.id then
    let s ← get
    let next ← orUnderOverflow (checkedAdd (s.roleMemberCount role) 1)
    modify (setRoleMemberCount role next)
  modify (emitEvent (.roleGranted role account sender))

def revokeRoleUnchecked (role : B256) (account sender : Address) : TokenM Unit := do
  let s ← get
  if !s.roles role account then return ()
  modify (setRole role account false)
  if role = defaultAdmin.id then
    let s ← get
    let next ← orUnderOverflow (checkedSub (s.roleMemberCount role) 1)
    modify (setRoleMemberCount role next)
  modify (emitEvent (.roleRevoked role account sender))

def ensureAdminOf (role : B256) : TokenM Unit := do
  let s ← get
  ensureRole ctx.caller (s.roleAdmins role)

/-- The last admin stays. -/
def ensureNotLastAdmin (role : B256) (account : Address) : TokenM Unit := do
  let s ← get
  ensure (¬(role = defaultAdmin.id ∧ s.roles role account = true ∧
    s.roleMemberCount role = 1)) .lastAdminCannotRenounce

def grantRole (role : B256) (account : Address) (privileged : Bool) : TokenM Unit := do
  unlessPrivileged (privileged && role ≠ defaultAdmin.id) (ensureRoleAdminMutationsAvailable ctx)
  unlessPrivileged privileged (ensureAdminOf ctx role)
  grantRoleUnchecked role account ctx.caller

def revokeRole (role : B256) (account : Address) (privileged : Bool) : TokenM Unit := do
  unlessPrivileged privileged do
    ensureRoleAdminMutationsAvailable ctx
    ensureAdminOf ctx role
  ensureNotLastAdmin role account
  revokeRoleUnchecked role account ctx.caller

def renounceRole (role : B256) (confirmation : Address) : TokenM Unit := do
  ensure (confirmation = ctx.caller) .accessControlBadConfirmation
  ensureNotLastAdmin role ctx.caller
  revokeRoleUnchecked role ctx.caller ctx.caller

def renounceLastAdmin : TokenM Unit := do
  ensureRole ctx.caller defaultAdmin.id
  let s ← get
  ensure (s.roleMemberCount defaultAdmin.id = 1) .notSoleAdmin
  revokeRoleUnchecked defaultAdmin.id ctx.caller ctx.caller
  modify (emitEvent (.lastAdminRenounced ctx.caller))

def setRoleAdmin (role newAdminRole : B256) (privileged : Bool) : TokenM Unit := do
  let s ← get
  let previousAdminRole := s.roleAdmins role
  unlessPrivileged privileged do
    ensureRoleAdminMutationsAvailable ctx
    ensureRole ctx.caller previousAdminRole
  modify (B20AssetStorage.setRoleAdmin role newAdminRole)
  modify (emitEvent (.roleAdminChanged role previousAdminRole newAdminRole))

/-! ## Policies and permits -/

/-- The scopes of the seize operations do not exist in V1. -/
def ensureSupportedPolicyType (policyScope : B256) : TokenM B20PolicyType :=
  match B20PolicyType.fromId policyScope, ctx.version with
  | some .seizeExempt, .v1 => throw (.unsupportedPolicyType policyScope)
  | some .seizeReceiver, .v1 => throw (.unsupportedPolicyType policyScope)
  | some policyType, _ => pure policyType
  | none, _ => throw (.unsupportedPolicyType policyScope)

def updatePolicy (policyScope : B256) (newPolicyId : UInt64) (privileged : Bool) :
    TokenM Unit := do
  unlessPrivileged privileged (ensureTokenRole ctx.caller .defaultAdmin)
  let policyType ← ensureSupportedPolicyType ctx policyScope
  ensure (ctx.policyExists newPolicyId = true) (.policyNotFound newPolicyId)
  let s ← get
  modify (setPolicyId policyType newPolicyId)
  modify (emitEvent (.policyUpdated policyScope (s.policyIds policyType) newPolicyId))

def domainTypehash : B256 :=
  .ofNat 0x8b73c3c69bb8fe3d512ecc4cf759cc79239f7b179b0ffacaa9a75d522b39400f

/-- The version of the domain is `"1"`. -/
def domainVersion : Bytes := [0x31]

/-- The encoding that the domain separator is taken of. -/
def domainEncoding (nameHash versionHash : B256) (chainId : BitVec 64) (token : Address) : Bytes :=
  domainTypehash.val ++ (nameHash.val ++ (versionHash.val ++
    (PermitArgs.abiWord (chainId.setWidth 256) ++ PermitArgs.abiAddress token)))

def incrementNonce (owner : Address) : TokenM Unit := do
  let s ← get
  let next ← orUnderOverflow (checkedAdd (s.nonces owner) 1)
  modify (setNonce owner next)

namespace AssetV1

def domainSeparator (s : B20AssetStorage) (chainId : BitVec 64) : B256 :=
  env.keccak256 (domainEncoding (env.keccak256 s.name.toUTF8.toList) (env.keccak256 domainVersion)
    chainId s.tokenAddress)

def permit (args : PermitArgs) : TokenM Unit := do
  ensure (ctx.timestamp ≤ args.deadline) (.expiredSignature args.deadline)
  let s ← get
  let domainSep := domainSeparator env s ctx.chainId
  let signingHash := args.signingHash env domainSep (s.nonces args.owner)
  let recovered ← args.recoverSigner env signingHash
  PermitArgs.validateRecoveredAddress recovered args.owner
  incrementNonce args.owner
  approve args.owner args.spender args.value

end AssetV1

namespace AssetV2

/-- With the gas left after the three hashes. -/
def domainSeparator (s : B20AssetStorage) (chainId : BitVec 64) (left : ℕ) :
    TokenM (B256 × ℕ) := do
  let nameHash ← meteredKeccak256 env s.name.toUTF8.toList left
  let versionHash ← meteredKeccak256 env domainVersion nameHash.2
  meteredKeccak256 env (domainEncoding nameHash.1 versionHash.1 chainId s.tokenAddress)
    versionHash.2

def permit (args : PermitArgs) : TokenM Unit := do
  ensure (ctx.timestamp ≤ args.deadline) (.expiredSignature args.deadline)
  let s ← get
  let domainSep ← domainSeparator env s ctx.chainId (ctx.gasLeft s)
  let signingHash ←
    args.meteredSigningHash env domainSep.1 (s.nonces args.owner) domainSep.2
  let recovered ← args.meteredRecoverSigner env signingHash.1 signingHash.2
  PermitArgs.validateRecoveredAddress recovered args.owner
  incrementNonce args.owner
  approve args.owner args.spender args.value

end AssetV2

def permit (args : PermitArgs) : TokenM Unit :=
  match ctx.version with
  | .v1 => AssetV1.permit env ctx args
  | .v2 => AssetV2.permit env ctx args

/-! ## Multiplier and announcements -/

def ensureOperatorRole (privileged : Bool) : TokenM Unit :=
  unlessPrivileged privileged (ensureRole ctx.caller operatorRole)

/-- A pending multiplier takes effect at its time. -/
def B20AssetStorage.multiplierAt (s : B20AssetStorage) (now : U256) : U256 :=
  if s.pendingEffectiveAt ≠ 0 ∧ s.pendingEffectiveAt.setWidth 256 ≤ now then
    s.pendingMultiplier.setWidth 256
  else s.storedMultiplier

namespace AssetV1

def updateMultiplier (newMultiplier : U256) (privileged : Bool) : TokenM Unit := do
  ensureOperatorRole ctx privileged
  ensure (newMultiplier ≠ 0) .invalidMultiplier
  modify (setMultiplier newMultiplier)
  modify (emitEvent (.multiplierUpdated newMultiplier))

end AssetV1

namespace AssetV2

def maxUiMultiplier : U256 := BitVec.ofNat 256 (2 ^ 128 - 1)

def effectiveMultiplier (s : B20AssetStorage) : U256 := s.multiplierAt ctx.timestamp

def updateMultiplier (newMultiplier : U256) (privileged : Bool) : TokenM Unit := do
  ensureOperatorRole ctx privileged
  ensure (newMultiplier ≠ 0 ∧ newMultiplier ≤ maxUiMultiplier) .invalidMultiplier
  let s ← get
  let pendingMultiplier : U256 := s.pendingMultiplier.setWidth 256
  let pendingEffectiveAt : U256 := s.pendingEffectiveAt.setWidth 256
  let old := effectiveMultiplier ctx s
  modify (setMultiplier newMultiplier)
  if pendingEffectiveAt ≠ 0 then modify (writePending 0 0)
  if ctx.timestamp < pendingEffectiveAt then
    modify (emitEvent (.uiMultiplierUpdateCancelled pendingMultiplier pendingEffectiveAt))
  modify (emitEvent (.multiplierUpdated newMultiplier))
  modify (emitEvent (.uiMultiplierUpdated old newMultiplier ctx.timestamp))

def updateUiMultiplier (newMultiplier effectiveAt : U256) (privileged : Bool) : TokenM Unit := do
  ensureOperatorRole ctx privileged
  ensure (newMultiplier ≠ 0 ∧ newMultiplier ≤ maxUiMultiplier) .invalidMultiplier
  ensure (ctx.timestamp < effectiveAt) (.effectiveAtInPast effectiveAt)
  ensure (effectiveAt ≤ BitVec.ofNat 256 (2 ^ 64 - 1)) (.effectiveAtTooFar effectiveAt)
  let s ← get
  let pendingEffectiveAt : U256 := s.pendingEffectiveAt.setWidth 256
  ensure (pendingEffectiveAt ≤ ctx.timestamp) (.uiMultiplierUpdateExists pendingEffectiveAt)
  -- a pending multiplier that has taken effect becomes the stored one
  if s.pendingEffectiveAt ≠ 0 then modify (setMultiplier (s.pendingMultiplier.setWidth 256))
  let s ← get
  modify (writePending (newMultiplier.setWidth 128) (effectiveAt.setWidth 64))
  modify (emitEvent (.uiMultiplierUpdated s.storedMultiplier newMultiplier effectiveAt))

def cancelUiMultiplierUpdate (privileged : Bool) : TokenM Unit := do
  ensureOperatorRole ctx privileged
  let s ← get
  let pendingEffectiveAt : U256 := s.pendingEffectiveAt.setWidth 256
  ensure (ctx.timestamp < pendingEffectiveAt) .uiMultiplierUpdateDoesNotExist
  modify (writePending 0 0)
  modify (emitEvent (.uiMultiplierUpdateCancelled (s.pendingMultiplier.setWidth 256)
    pendingEffectiveAt))

end AssetV2

def updateMultiplier (newMultiplier : U256) (privileged : Bool) : TokenM Unit :=
  match ctx.version with
  | .v1 => AssetV1.updateMultiplier ctx newMultiplier privileged
  | .v2 => AssetV2.updateMultiplier ctx newMultiplier privileged

def updateUiMultiplier (newMultiplier effectiveAt : U256) (privileged : Bool) : TokenM Unit :=
  match ctx.version with
  | .v1 => throw .unknownFunctionSelector
  | .v2 => AssetV2.updateUiMultiplier ctx newMultiplier effectiveAt privileged

def cancelUiMultiplierUpdate (privileged : Bool) : TokenM Unit :=
  match ctx.version with
  | .v1 => throw .unknownFunctionSelector
  | .v2 => AssetV2.cancelUiMultiplierUpdate ctx privileged

def beginAnnounce (id description uri : String) (privileged : Bool) : TokenM Unit := do
  ensureOperatorRole ctx privileged
  let s ← get
  ensure (s.usedAnnouncementIds id = false) (.announcementIdAlreadyUsed id)
  modify (markAnnouncementIdUsed id)
  modify (emitEvent (.announcement ctx.caller id description uri))

def endAnnounce (id : String) : TokenM Unit := modify (emitEvent (.endAnnouncement id))

end NodeReth
