import NodeReth.Precompiles.B20.Logic

/-!
# Dispatch, announcements and creation

How a call reaches the operations (`b20_asset/dispatch.rs`) and how the factory creates a token
(`b20_factory/logic/v1.rs`). The decoding of call data is a parameter. An announcement runs the
calls it carries one after the other with its own caller; since decoding does not look at the
slots, a call that succeeds is a fixed list of steps, each of which succeeds.
-/

namespace NodeReth

open Bytes Checked Effects B20AssetStorage B20Guards

/-! ## Calls -/

inductive AssetRead
  | name
  | symbol
  | decimals
  | totalSupply
  | balanceOf (account : Address)
  | allowance (owner spender : Address)
  | supplyCap
  | nonces (owner : Address)
  | contractURI
  | roleId (role : B20TokenRole)
  | policyScope (policyType : B20PolicyType)
  | hasRole (role : B256) (account : Address)
  | getRoleAdmin (role : B256)
  | pausedFeatures
  | isPaused (feature : PausableFeature)
  | policyId (policyScope : B256)
  | domainSeparator
  | eip712Domain
  | operatorRole
  | wadPrecision
  | maxUIMultiplier
  | multiplier
  | uiMultiplier
  | newUIMultiplier
  | effectiveAt
  | toScaledBalance (rawBalance : U256)
  | toRawBalance (scaledBalance : U256)
  | toUIAmount (rawAmount : U256)
  | fromUIAmount (uiAmount : U256)
  | scaledBalanceOf (account : Address)
  | balanceOfUI (account : Address)
  | totalSupplyUI
  | supportsInterface (interfaceId : FixedBytes 4)
  | isAnnouncementIdUsed (id : String)
  | extraMetadata (key : String)
  deriving DecidableEq

/-- The calls other than `announce`. -/
inductive B20Operation
  | read (r : AssetRead)
  | transfer (receiver : Address) (amount : U256)
  | transferWithMemo (receiver : Address) (amount : U256) (memo : B256)
  | transferFrom (sender receiver : Address) (amount : U256)
  | transferFromWithMemo (sender receiver : Address) (amount : U256) (memo : B256)
  | approve (spender : Address) (amount : U256)
  | mint (receiver : Address) (amount : U256)
  | mintWithMemo (receiver : Address) (amount : U256) (memo : B256)
  | batchMint (recipients : List Address) (amounts : List U256)
  | burn (amount : U256)
  | burnWithMemo (amount : U256) (memo : B256)
  | burnBlocked (sender : Address) (amount : U256)
  | seizeWithMemo (sender receiver : Address) (amount : U256) (memo : B256)
  | pause (features : List PausableFeature)
  | unpause (features : List PausableFeature)
  | updateSupplyCap (newSupplyCap : U256)
  | updateName (newName : String)
  | updateSymbol (newSymbol : String)
  | updateContractURI (newURI : String)
  | updateExtraMetadata (key value : String)
  | grantRole (role : B256) (account : Address)
  | revokeRole (role : B256) (account : Address)
  | renounceRole (role : B256) (callerConfirmation : Address)
  | renounceLastAdmin
  | setRoleAdmin (role newAdminRole : B256)
  | updatePolicy (policyScope : B256) (newPolicyId : UInt64)
  | permit (args : PermitArgs)
  | updateMultiplier (newMultiplier : U256)
  | updateUIMultiplier (newMultiplier effectiveAt : U256)
  | cancelUIMultiplierUpdate
  deriving DecidableEq

inductive AssetCall
  | operation (o : B20Operation)
  | announce (internalCalls : List Bytes) (id description uri : String)

/-- The ABI of each version: an unknown selector and malformed arguments are errors. -/
structure AssetAbi where
  decode : AssetVersion → Bytes → Except B20Error AssetCall

inductive AbiValue
  | unit
  | bool (b : Bool)
  | word (n : U256)
  | bytes32 (b : B256)
  | text (t : String)
  | features (l : List PausableFeature)
  | domain (fields : UInt8) (name version : String) (chainId : U256) (verifyingContract : Address)
  deriving DecidableEq

variable (env : B20Env) (abi : AssetAbi) (ctx : CallContext) (privileged : Bool)

/-! ## Reads -/

/-- The multiplier that conversions use. -/
def currentMultiplier (s : B20AssetStorage) : U256 :=
  match ctx.version with
  | .v1 => s.storedMultiplier
  | .v2 => AssetV2.effectiveMultiplier ctx s

/-- `a * b / c` with a checked product. -/
def checkedMulDiv (a b c : U256) : Except B20Error AbiValue :=
  if a.umulOverflow b then .error .underOverflow else .ok (.word (a * b / c))

/-- Selectors that only V2 has. -/
def sinceV2 (value : Except B20Error AbiValue) : Except B20Error AbiValue :=
  match ctx.version with
  | .v1 => .error .unknownFunctionSelector
  | .v2 => value

def erc165InterfaceId : Bytes := [0x01, 0xff, 0xc9, 0xa7]

def erc8056InterfaceIds : List Bytes :=
  [[0xa6, 0x0b, 0xf1, 0x3d], [0x4b, 0xd2, 0x76, 0x48], [0xd8, 0x90, 0xfd, 0x71],
    [0x57, 0x85, 0x4f, 0xc3]]

def AssetRead.value (s : B20AssetStorage) : AssetRead → Except B20Error AbiValue
  | name => .ok (.text s.name)
  | symbol => .ok (.text s.symbol)
  | decimals => .ok (.word (BitVec.ofNat 256 s.storedDecimals.toNat))
  | totalSupply => .ok (.word s.totalSupply)
  | balanceOf account => .ok (.word (s.balances account))
  | allowance owner spender => .ok (.word (s.allowances owner spender))
  | supplyCap => .ok (.word s.supplyCap)
  | nonces owner => .ok (.word (s.nonces owner))
  | contractURI => .ok (.text s.contractUri)
  | roleId role => .ok (.bytes32 role.id)
  | policyScope policyType => .ok (.bytes32 policyType.id)
  | hasRole role account => .ok (.bool (s.roles role account))
  | getRoleAdmin role => .ok (.bytes32 (s.roleAdmins role))
  | pausedFeatures =>
    .ok (.features (ctx.version.pausableFeatures.filter fun feature =>
      s.paused &&& feature.mask ≠ 0))
  | isPaused feature =>
    if feature ∈ ctx.version.pausableFeatures then .ok (.bool (s.paused &&& feature.mask ≠ 0))
    else .error .enumConversionError
  | policyId scope =>
    match ensureSupportedPolicyType ctx scope s with
    | .ok policyType _ => .ok (.word (BitVec.ofNat 256 (s.policyIds policyType).toNat))
    | .error e _ => .error e
  | domainSeparator =>
    match ctx.version with
    | .v1 => .ok (.bytes32 (AssetV1.domainSeparator env s ctx.chainId))
    | .v2 =>
      match AssetV2.domainSeparator env s ctx.chainId (ctx.gasLeft s) s with
      | .ok separator _ => .ok (.bytes32 separator.1)
      | .error e _ => .error e
  | eip712Domain => .ok (.domain 0x0f s.name "1" (ctx.chainId.setWidth 256) s.tokenAddress)
  | operatorRole => .ok (.bytes32 NodeReth.operatorRole)
  | wadPrecision => .ok (.word wad)
  | maxUIMultiplier => sinceV2 ctx (.ok (.word AssetV2.maxUiMultiplier))
  | multiplier => .ok (.word (currentMultiplier ctx s))
  | uiMultiplier => sinceV2 ctx (.ok (.word (currentMultiplier ctx s)))
  | newUIMultiplier =>
    sinceV2 ctx (.ok (.word (if ctx.timestamp < s.pendingEffectiveAt.setWidth 256 then
      s.pendingMultiplier.setWidth 256 else currentMultiplier ctx s)))
  | effectiveAt => sinceV2 ctx (.ok (.word (s.pendingEffectiveAt.setWidth 256)))
  | toScaledBalance rawBalance => checkedMulDiv rawBalance (currentMultiplier ctx s) wad
  | toRawBalance scaledBalance => checkedMulDiv scaledBalance wad (currentMultiplier ctx s)
  | toUIAmount rawAmount => sinceV2 ctx (checkedMulDiv rawAmount (currentMultiplier ctx s) wad)
  | fromUIAmount uiAmount => sinceV2 ctx (checkedMulDiv uiAmount wad (currentMultiplier ctx s))
  | scaledBalanceOf account => checkedMulDiv (s.balances account) (currentMultiplier ctx s) wad
  | balanceOfUI account =>
    sinceV2 ctx (checkedMulDiv (s.balances account) (currentMultiplier ctx s) wad)
  | totalSupplyUI => sinceV2 ctx (checkedMulDiv s.totalSupply (currentMultiplier ctx s) wad)
  | supportsInterface interfaceId =>
    sinceV2 ctx (.ok (.bool (interfaceId.val = erc165InterfaceId ∨
      interfaceId.val ∈ erc8056InterfaceIds)))
  | isAnnouncementIdUsed id => .ok (.bool (s.usedAnnouncementIds id))
  | extraMetadata key => .ok (.text (s.extraMetadata key))

/-! ## Routing -/

/-- The operations with what they return; self-burns, renunciations, seizures, approvals and
permits are never privileged. -/
def handle : B20Operation → TokenM AbiValue
  | .read r => do
    let s ← get
    match r.value env ctx s with
    | .ok value => return value
    | .error e => throw e
  | .transfer receiver amount => do
    transfer env ctx receiver amount privileged
    return .bool true
  | .transferWithMemo receiver amount memo => do
    transfer env ctx receiver amount privileged
    emitMemo ctx memo
    return .bool true
  | .transferFrom sender receiver amount => do
    transferFrom env ctx sender receiver amount privileged
    return .bool true
  | .transferFromWithMemo sender receiver amount memo => do
    transferFrom env ctx sender receiver amount privileged
    emitMemo ctx memo
    return .bool true
  | .approve spender amount => do
    approve ctx.caller spender amount
    return .bool true
  | .mint receiver amount => do
    mint env ctx receiver amount privileged
    return .unit
  | .mintWithMemo receiver amount memo => do
    mint env ctx receiver amount privileged
    emitMemo ctx memo
    return .unit
  | .batchMint recipients amounts => do
    batchMint env ctx recipients amounts privileged
    return .unit
  | .burn amount => do
    burn ctx amount
    return .unit
  | .burnWithMemo amount memo => do
    burn ctx amount
    emitMemo ctx memo
    return .unit
  | .burnBlocked sender amount => do
    burnBlocked env ctx sender amount privileged
    return .unit
  | .seizeWithMemo sender receiver amount memo => do
    seizeWithMemo env ctx sender receiver amount memo
    return .unit
  | .pause features => do
    pause ctx features privileged
    return .unit
  | .unpause features => do
    unpause ctx features privileged
    return .unit
  | .updateSupplyCap newSupplyCap => do
    updateSupplyCap ctx newSupplyCap privileged
    return .unit
  | .updateName newName => do
    updateName ctx newName privileged
    return .unit
  | .updateSymbol newSymbol => do
    updateSymbol ctx newSymbol privileged
    return .unit
  | .updateContractURI newURI => do
    updateContractUri ctx newURI privileged
    return .unit
  | .updateExtraMetadata key value => do
    updateExtraMetadata ctx key value privileged
    return .unit
  | .grantRole role account => do
    grantRole ctx role account privileged
    return .unit
  | .revokeRole role account => do
    revokeRole ctx role account privileged
    return .unit
  | .renounceRole role callerConfirmation => do
    renounceRole ctx role callerConfirmation
    return .unit
  | .renounceLastAdmin => do
    renounceLastAdmin ctx
    return .unit
  | .setRoleAdmin role newAdminRole => do
    setRoleAdmin ctx role newAdminRole privileged
    return .unit
  | .updatePolicy policyScope newPolicyId => do
    updatePolicy ctx policyScope newPolicyId privileged
    return .unit
  | .permit args => do
    permit env ctx args
    return .unit
  | .updateMultiplier newMultiplier => do
    updateMultiplier ctx newMultiplier privileged
    return .unit
  | .updateUIMultiplier newMultiplier effectiveAt => do
    updateUiMultiplier ctx newMultiplier effectiveAt privileged
    return .unit
  | .cancelUIMultiplierUpdate => do
    cancelUiMultiplierUpdate ctx privileged
    return .unit

/-- Panics and a lack of gas pass through the calls that carry them. -/
def B20Error.isSystemError : B20Error → Bool
  | outOfGas | underOverflow | enumConversionError | policyEvaluation _ | nestedTooDeep => true
  | _ => false

/-- Reverts with data pass through the creation of a token. -/
def B20Error.isRevertWithData : B20Error → Bool
  | unknownFunctionSelector | abiDecodeFailed _ | uninitialized => false
  | e => !e.isSystemError

def mapError {α : Type} (f : B20Error → B20Error) (x : TokenM α) : TokenM α := fun s =>
  match x s with
  | .ok a t => .ok a t
  | .error e t => .error (f e) t

/-- The selector of `announce(bytes[],string,string,string)`. -/
def announceSelector : Bytes := [0x59, 0x51, 0x35, 0xdd]

def runInternalCall (route : Bytes → TokenM AbiValue) (call : Bytes) : TokenM Unit := do
  ensure (4 ≤ call.length) (.internalCallMalformed call)
  ensure (call.take 4 ≠ announceSelector) .announcementInProgress
  let _ ← mapError (fun e => if e.isSystemError then e else .internalCallFailed call) (route call)

/-- Announcements nest at most `depth` deep. -/
def route : ℕ → Bytes → TokenM AbiValue
  | depth, calldata =>
    match abi.decode ctx.version calldata with
    | .error e => throw e
    | .ok (.operation o) => handle env ctx privileged o
    | .ok (.announce internalCalls id description uri) =>
      match depth with
      | 0 => throw .nestedTooDeep
      | depth + 1 => do
        beginAnnounce ctx id description uri privileged
        internalCalls.forM (runInternalCall (route depth))
        endAnnounce id
        return .unit

def dispatch (depth : ℕ) (calldata : Bytes) : TokenM AbiValue := do
  ensure (ctx.callValue = 0) .nonPayable
  let s ← get
  ensure (s.initialized = true) .uninitialized
  route env abi ctx false depth calldata

/-! ## Creation -/

def factoryAddress : Address := ⟨[0xb2, 0x0f] ++ List.replicate 18 0, by decide⟩

structure B20AssetCreateParams where
  version : UInt8
  name : String
  symbol : String
  initialAdmin : Address
  decimals : UInt8

def initCallError (index : ℕ) (e : B20Error) : B20Error :=
  if e.isRevertWithData || e.isSystemError then e else .initCallFailed index

/-- `create_b20` for an asset token, on the slots of its address. The calls are run with the
factory as their caller. -/
def createB20Asset (depth : ℕ) (params : B20AssetCreateParams) (initCalls : List Bytes) :
    TokenM Unit := do
  ensure (params.version = 1) (.unsupportedVersion params.version)
  ensure (minDecimals ≤ params.decimals ∧ params.decimals ≤ maxDecimals)
    (.invalidDecimals params.decimals)
  let s ← get
  ensure (s.initialized = false) .tokenAlreadyExists
  modify setCode
  modify (writeInit params.name params.symbol b20MaxSupplyCap 0 params.decimals)
  if params.initialAdmin ≠ Address.zero then
    grantRoleUnchecked B20TokenRole.defaultAdmin.id params.initialAdmin factoryAddress
  initCalls.zipIdx.forM fun entry => do
    let _ ← mapError (initCallError entry.2)
      (route env abi { ctx with caller := factoryAddress } true depth entry.1)

end NodeReth
