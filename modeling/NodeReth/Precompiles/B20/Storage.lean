import NodeReth.Lib.Checked
import NodeReth.Precompiles.Policy.Logic

/-!
# Storage of an asset token

Roles, policy scopes and pausable features of the B-20 tokens, and the slots of one asset token
(`common/core_storage.rs`, `b20_asset/storage.rs`) with the accessors that the
`TokenAccounting` and `AssetAccounting` derives generate. Words of 256 bits are bit vectors, so
their arithmetic is that of the source.
-/

namespace NodeReth

open Bytes Checked Function

abbrev U256 := BitVec 256

def B256.ofNat (n : ℕ) : B256 := ⟨toBe 32 n, toBe_length 32 n⟩

def B256.zero : B256 := FixedBytes.zero 32

/-! ## Roles, policy scopes and features -/

inductive B20TokenRole
  | defaultAdmin
  | mint
  | burn
  | burnBlocked
  | seize
  | pause
  | unpause
  | metadata
  deriving DecidableEq, Repr

/-- The keccak hashes of the names of the roles, except for the admin. -/
def B20TokenRole.id : B20TokenRole → B256
  | defaultAdmin => B256.zero
  | mint => .ofNat 0x154c00819833dac601ee5ddded6fda79d9d8b506b911b3dbd54cdb95fe6c3686
  | burn => .ofNat 0xe97b137254058bd94f28d2f3eb79e2d34074ffb488d042e3bc958e0a57d2fa22
  | burnBlocked => .ofNat 0x7408fdc0d31c7bcb349eab611f5d1168acd4303574993f8cdc98b1cd18c41cae
  | seize => .ofNat 0x3469b8b0d89e9604f8510ed143f74a8336d22955d4f83e23bf53d9414e27f432
  | pause => .ofNat 0x139c2898040ef16910dc9f44dc697df79363da767d8bc92f2e310312b816e46d
  | unpause => .ofNat 0x265b220c5a8891efdd9e1b1b7fa72f257bd5169f8d87e319cf3dad6ff52b94ae
  | metadata => .ofNat 0x6bd6b5318a46e5fff572d5e4258a20774aab40cc35ac7680654b9081fcc82f80

/-- `OPERATOR_ROLE` of the asset variant, the same in both versions. -/
def operatorRole : B256 :=
  .ofNat 0x97667070c54ef182b0f5858b034beac1b6f3089aa2d3188bb1e8929f4fa9b929

inductive B20PolicyType
  | transferSender
  | transferReceiver
  | transferExecutor
  | mintReceiver
  | seizeExempt
  | seizeReceiver
  deriving DecidableEq, Repr

namespace B20PolicyType

def id : B20PolicyType → B256
  | transferSender => .ofNat 0xb81736c875ab819dd97f59f2a6542cfb731ad52b4ae15a6f24df2fb02b0327f5
  | transferReceiver => .ofNat 0x8a4b3fa2d8b921852bc0089c6ef0958aa6961897be36fd731330fe2cd23f8363
  | transferExecutor => .ofNat 0x10be5173aff2a44e748bd9acd8b19fe34689581398a9db7ba2fb671e786ff7d8
  | mintReceiver => .ofNat 0xa0d5ae037e66a09119acf080a1d807abb9b6d03b6b9130eb19f7c1e6bdb8ffc8
  | seizeExempt => .ofNat 0xedb5da348cfb67af08746d3afd1be81034b50d5c8576f31aff688f39dfd540ed
  | seizeReceiver => .ofNat 0xbf15b19caf5c77422c038bc25f26b8b815c3a14f6d04c6616076b81bcfe07b3d

def fromId (scope : B256) : Option B20PolicyType :=
  if scope = transferSender.id then some transferSender
  else if scope = transferReceiver.id then some transferReceiver
  else if scope = transferExecutor.id then some transferExecutor
  else if scope = mintReceiver.id then some mintReceiver
  else if scope = seizeExempt.id then some seizeExempt
  else if scope = seizeReceiver.id then some seizeReceiver
  else none

@[simp] theorem fromId_id (p : B20PolicyType) : fromId p.id = some p := by
  cases p <;> decide

end B20PolicyType

inductive PausableFeature
  | transfer
  | mint
  | burn
  | seize
  deriving DecidableEq, Repr

namespace PausableFeature

def discriminant : PausableFeature → ℕ
  | transfer => 0
  | mint => 1
  | burn => 2
  | seize => 3

/-- The bit of the feature in the pause word. -/
def mask (feature : PausableFeature) : U256 := (1 : U256) <<< feature.discriminant

end PausableFeature

inductive AssetVersion
  | v1
  | v2
  deriving DecidableEq, Repr

namespace AssetVersion

/-- The registry version of the same upgrade. -/
def policyVersion : AssetVersion → PolicyVersion
  | v1 => .v1
  | v2 => .v2

def pausableFeatures : AssetVersion → List PausableFeature
  | v1 => [.transfer, .mint, .burn]
  | v2 => [.transfer, .mint, .burn, .seize]

end AssetVersion

/-! ## Events and errors -/

inductive B20Event
  | transfer (sender receiver : Address) (amount : U256)
  | approval (owner spender : Address) (amount : U256)
  | memo (caller : Address) (memo : B256)
  | burnedBlocked (caller sender : Address) (amount : U256)
  | seized (caller sender receiver : Address) (amount : U256)
  | paused (updater : Address) (features : List PausableFeature)
  | unpaused (updater : Address) (features : List PausableFeature)
  | supplyCapUpdated (updater : Address) (oldSupplyCap newSupplyCap : U256)
  | nameUpdated (updater : Address) (newName : String)
  | eip712DomainChanged
  | symbolUpdated (updater : Address) (newSymbol : String)
  | contractURIUpdated
  | roleGranted (role : B256) (account sender : Address)
  | roleRevoked (role : B256) (account sender : Address)
  | lastAdminRenounced (previousAdmin : Address)
  | roleAdminChanged (role previousAdminRole newAdminRole : B256)
  | policyUpdated (policyScope : B256) (oldPolicyId newPolicyId : UInt64)
  | multiplierUpdated (multiplier : U256)
  | uiMultiplierUpdated (oldMultiplier newMultiplier effectiveAtTimestamp : U256)
  | uiMultiplierUpdateCancelled (cancelledMultiplier cancelledEffectiveAt : U256)
  | extraMetadataUpdated (key value : String)
  | announcement (caller : Address) (id description uri : String)
  | endAnnouncement (id : String)
  deriving DecidableEq

inductive B20Error
  | nonPayable
  | uninitialized
  | unknownFunctionSelector
  | abiDecodeFailed (error : String)
  | outOfGas
  | underOverflow
  | enumConversionError
  | policyEvaluation (error : EvaluationError)
  | insufficientBalance (sender : Address) (balance needed : U256)
  | insufficientAllowance (spender : Address) (allowance needed : U256)
  | invalidReceiver (receiver : Address)
  | invalidSender (sender : Address)
  | invalidApprover (approver : Address)
  | invalidSpender (spender : Address)
  | accessControlUnauthorizedAccount (account : Address) (neededRole : B256)
  | accessControlBadConfirmation
  | lastAdminCannotRenounce
  | notSoleAdmin
  | contractPaused (feature : PausableFeature)
  | emptyFeatureSet
  | policyForbids (policyScope : B256) (policyId : UInt64)
  | unsupportedPolicyType (policyScope : B256)
  | policyNotFound (policyId : UInt64)
  | accountNotBlocked (account : Address)
  | accountNotSeizable (account : Address)
  | supplyCapExceeded (cap attempted : U256)
  | invalidSupplyCap (currentSupply proposedCap : U256)
  | expiredSignature (deadline : U256)
  | invalidSigner (signer owner : Address)
  | invalidMultiplier
  | effectiveAtInPast (effectiveAt : U256)
  | effectiveAtTooFar (effectiveAt : U256)
  | uiMultiplierUpdateExists (effectiveAt : U256)
  | uiMultiplierUpdateDoesNotExist
  | invalidMetadataKey
  | lengthMismatch (leftLen rightLen : ℕ)
  | emptyBatch
  | announcementIdAlreadyUsed (id : String)
  | announcementInProgress
  | internalCallMalformed (call : Bytes)
  | internalCallFailed (call : Bytes)
  | nestedTooDeep
  | unsupportedVersion (version : UInt8)
  | tokenAlreadyExists
  | invalidDecimals (decimals : UInt8)
  | initCallFailed (index : ℕ)
  deriving DecidableEq

/-! ## Slots -/

def b20MaxSupplyCap : U256 := BitVec.ofNat 256 (2 ^ 128 - 1)

/-- Every slot that was never written holds zero. -/
structure B20AssetStorage where
  tokenAddress : Address
  /-- The account has its marker byte code. -/
  initialized : Bool
  name : String
  symbol : String
  contractUri : String
  totalSupply : U256
  balances : Address → U256
  allowances : Address → Address → U256
  roles : B256 → Address → Bool
  roleAdmins : B256 → B256
  adminCount : U256
  policyIds : B20PolicyType → UInt64
  paused : U256
  supplyCap : U256
  nonces : Address → U256
  decimals : UInt8
  multiplier : U256
  usedAnnouncementIds : String → Bool
  extraMetadata : String → String
  pendingMultiplier : BitVec 128
  pendingEffectiveAt : BitVec 64
  events : List B20Event

namespace B20AssetStorage

/-- Slots of an address at which no token was created. -/
def empty (tokenAddress : Address) : B20AssetStorage where
  tokenAddress := tokenAddress
  initialized := false
  name := ""
  symbol := ""
  contractUri := ""
  totalSupply := 0
  balances _ := 0
  allowances _ _ := 0
  roles _ _ := false
  roleAdmins _ := B256.zero
  adminCount := 0
  policyIds _ := 0
  paused := 0
  supplyCap := 0
  nonces _ := 0
  decimals := 0
  multiplier := 0
  usedAnnouncementIds _ := false
  extraMetadata _ := ""
  pendingMultiplier := 0
  pendingEffectiveAt := 0
  events := []

def minDecimals : UInt8 := 6

def maxDecimals : UInt8 := 18

def wad : U256 := BitVec.ofNat 256 (10 ^ 18)

/-- `AssetAccounting::multiplier`: an unset slot reads as one. -/
def storedMultiplier (s : B20AssetStorage) : U256 := if s.multiplier = 0 then wad else s.multiplier

def storedDecimals (s : B20AssetStorage) : UInt8 :=
  if s.decimals = 0 then minDecimals else s.decimals

def setBalance (account : Address) (balance : U256) (s : B20AssetStorage) : B20AssetStorage :=
  { s with balances := update s.balances account balance }

def setAllowance (owner spender : Address) (amount : U256) (s : B20AssetStorage) : B20AssetStorage :=
  { s with
    allowances := update s.allowances owner (update (s.allowances owner) spender amount) }

def setTotalSupply (supply : U256) (s : B20AssetStorage) : B20AssetStorage :=
  { s with totalSupply := supply }

def setSupplyCap (cap : U256) (s : B20AssetStorage) : B20AssetStorage := { s with supplyCap := cap }

def setName (name : String) (s : B20AssetStorage) : B20AssetStorage := { s with name := name }

def setSymbol (symbol : String) (s : B20AssetStorage) : B20AssetStorage :=
  { s with symbol := symbol }

def setContractUri (uri : String) (s : B20AssetStorage) : B20AssetStorage :=
  { s with contractUri := uri }

def setPaused (vectors : U256) (s : B20AssetStorage) : B20AssetStorage :=
  { s with paused := vectors }

def setNonce (owner : Address) (nonce : U256) (s : B20AssetStorage) : B20AssetStorage :=
  { s with nonces := update s.nonces owner nonce }

def setRole (role : B256) (account : Address) (enabled : Bool) (s : B20AssetStorage) :
    B20AssetStorage :=
  { s with
    roles := update s.roles role (update (s.roles role) account enabled) }

/-- Only the admin role has a counter. -/
def roleMemberCount (s : B20AssetStorage) (role : B256) : U256 :=
  if role = B20TokenRole.defaultAdmin.id then s.adminCount else 0

def setRoleMemberCount (role : B256) (count : U256) (s : B20AssetStorage) : B20AssetStorage :=
  if role = B20TokenRole.defaultAdmin.id then { s with adminCount := count } else s

def setRoleAdmin (role adminRole : B256) (s : B20AssetStorage) : B20AssetStorage :=
  { s with roleAdmins := update s.roleAdmins role adminRole }

def setPolicyId (policyType : B20PolicyType) (policyId : UInt64) (s : B20AssetStorage) :
    B20AssetStorage :=
  { s with policyIds := update s.policyIds policyType policyId }

def setMultiplier (multiplier : U256) (s : B20AssetStorage) : B20AssetStorage :=
  { s with multiplier := multiplier }

def writePending (multiplier : BitVec 128) (effectiveAt : BitVec 64) (s : B20AssetStorage) :
    B20AssetStorage :=
  { s with pendingMultiplier := multiplier, pendingEffectiveAt := effectiveAt }

/-- An empty value deletes the entry. -/
def setExtraMetadataValue (key value : String) (s : B20AssetStorage) : B20AssetStorage :=
  { s with extraMetadata := update s.extraMetadata key value }

def markAnnouncementIdUsed (id : String) (s : B20AssetStorage) : B20AssetStorage :=
  { s with usedAnnouncementIds := update s.usedAnnouncementIds id true }

def emitEvent (event : B20Event) (s : B20AssetStorage) : B20AssetStorage :=
  { s with events := s.events ++ [event] }

def setCode (s : B20AssetStorage) : B20AssetStorage := { s with initialized := true }

/-- The fields that a creation writes. -/
def writeInit (name symbol : String) (supplyCap multiplier : U256) (decimals : UInt8)
    (s : B20AssetStorage) : B20AssetStorage :=
  { s with
    name := name
    symbol := symbol
    supplyCap := supplyCap
    decimals := decimals
    multiplier := multiplier }

end B20AssetStorage

/-- An operation on the slots of one token. -/
abbrev TokenM := EStateM B20Error B20AssetStorage

end NodeReth
