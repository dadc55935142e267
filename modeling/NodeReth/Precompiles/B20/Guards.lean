import NodeReth.Precompiles.B20.Storage

/-!
# Guards and permits

The checks that the operations of a token make before they write (`common/ops/guards.rs`), the
digest that a permit signs and the account that a signature recovers to (`common/ops/permit.rs`).
The hash function and the recovery of signatures are parameters.
-/

namespace NodeReth

open Bytes Checked Effects B20AssetStorage

/-- What the platform provides to a token. -/
structure B20Env where
  keccak256 : Bytes → B256
  /-- `recover_address_from_prehash` of a signature given by `r`, `s` and its parity. -/
  recoverAddressFromPrehash : B256 → B256 → Bool → B256 → Option Address
  /-- How deep the evaluation of a policy may recurse into its children. -/
  policyDepth : ℕ

/-- The frame of a call, and the registry as the call finds it. -/
structure CallContext where
  caller : Address
  callValue : U256
  chainId : BitVec 64
  timestamp : U256
  version : AssetVersion
  registry : PolicyRegistryStorage
  /-- The gas left to a body that starts on a storage. What accesses to the storage cost is not
  modelled. -/
  gasLeft : B20AssetStorage → ℕ

/-- The answer of the registry version that is active together with the token version. -/
def CallContext.isAuthorized (ctx : CallContext) (env : B20Env) (policyId : UInt64)
    (account : Address) : Except EvaluationError Bool :=
  match ctx.version.policyVersion with
  | .v1 => PolicyRegistryV1.isAuthorized ctx.registry policyId account
  | .v2 => PolicyRegistryV2.isAuthorized env.policyDepth ctx.registry policyId account

def CallContext.policyExists (ctx : CallContext) (policyId : UInt64) : Bool :=
  match ctx.version.policyVersion with
  | .v1 => PolicyRegistryV1.policyExists ctx.registry policyId
  | .v2 => PolicyRegistryV2.policyExists ctx.registry policyId

/-- Takes the cost from the gas that is left. -/
def deductGas (cost left : ℕ) : TokenM ℕ := do
  ensure (cost ≤ left) .outOfGas
  return left - cost

/-- `KECCAK256` and `KECCAK256WORD` for each word. -/
def keccakCost (length : ℕ) : ℕ := 30 + 6 * ((length + 31) / 32)

/-- The hash, and the gas left after it. -/
def meteredKeccak256 (env : B20Env) (data : Bytes) (left : ℕ) : TokenM (B256 × ℕ) := do
  let left ← deductGas (keccakCost data.length) left
  return (env.keccak256 data, left)

/-- `ok_or_else(under_overflow)`. -/
def orUnderOverflow (o : Option U256) : TokenM U256 :=
  match o with
  | some v => pure v
  | none => throw .underOverflow

/-- A check that the factory does not have to pass. -/
def unlessPrivileged (privileged : Bool) (check : TokenM Unit) : TokenM Unit :=
  if privileged then pure () else check

abbrev NonZeroAddress := {a : Address // a ≠ Address.zero}

def NonZeroAddress.new (address : Address) (e : B20Error) : TokenM NonZeroAddress :=
  if h : address ≠ Address.zero then pure ⟨address, h⟩ else throw e

namespace B20Guards

def ensureRole (caller : Address) (role : B256) : TokenM Unit := do
  let s ← get
  ensure (s.roles role caller = true) (.accessControlUnauthorizedAccount caller role)

def ensureTokenRole (caller : Address) (role : B20TokenRole) : TokenM Unit :=
  ensureRole caller role.id

def ensureNotPaused (feature : PausableFeature) : TokenM Unit := do
  let s ← get
  ensure (s.paused &&& feature.mask = 0) (.contractPaused feature)

def policyId (policyScope : B256) : TokenM UInt64 := do
  let s ← get
  match B20PolicyType.fromId policyScope with
  | some policyType => return s.policyIds policyType
  | none => throw (.unsupportedPolicyType policyScope)

variable (env : B20Env) (ctx : CallContext)

def isAuthorized (policyId : UInt64) (account : Address) : TokenM Bool :=
  match ctx.isAuthorized env policyId account with
  | .ok authorized => pure authorized
  | .error e => throw (.policyEvaluation e)

def ensureAuthorizedById (policyScope : B256) (policyId : UInt64) (account : Address) :
    TokenM Unit := do
  let authorized ← isAuthorized env ctx policyId account
  ensure (authorized = true) (.policyForbids policyScope policyId)

def ensurePolicy (policyScope : B256) (account : Address) : TokenM Unit := do
  let policyId ← policyId policyScope
  ensureAuthorizedById env ctx policyScope policyId account

def ensurePolicyType (policyType : B20PolicyType) (account : Address) : TokenM Unit :=
  ensurePolicy env ctx policyType.id account

/-- The account is not authorised by the policy of the scope. -/
def ensureNotAuthorized (policyType : B20PolicyType) (account : Address) (e : B20Error) :
    TokenM Unit := do
  let policyId ← policyId policyType.id
  let authorized ← isAuthorized env ctx policyId account
  ensure (authorized = false) e

def ensureBlocked (account : Address) : TokenM Unit :=
  ensureNotAuthorized env ctx .transferSender account (.accountNotBlocked account)

def ensureSeizable (account : Address) : TokenM Unit :=
  ensureNotAuthorized env ctx .seizeExempt account (.accountNotSeizable account)

end B20Guards

/-! ## Permits -/

structure PermitArgs where
  owner : Address
  spender : Address
  value : U256
  deadline : U256
  v : UInt8
  r : B256
  s : B256
  deriving DecidableEq

namespace PermitArgs

def typehash : B256 := .ofNat 0x6e71edae12b1b97f4d1f60370fef10105fa2faae0126114a169c64845d6126c9

def eip712SigningPrefix : Bytes := [0x19, 0x01]

/-- ABI encodings of one word. -/
def abiAddress (a : Address) : Bytes := List.replicate 12 0 ++ a.val

def abiWord (n : U256) : Bytes := toBe 32 n.toNat

@[simp] theorem abiAddress_length (a : Address) : (abiAddress a).length = 32 := by
  unfold abiAddress
  rw [List.length_append, List.length_replicate, a.2]

@[simp] theorem abiWord_length (n : U256) : (abiWord n).length = 32 := toBe_length 32 _

/-- The cost of a recovery, whether it succeeds or not. -/
def recoverGas : ℕ := 3000

variable (env : B20Env) (args : PermitArgs)

/-- The encoding that the struct hash is taken of. -/
def structEncoding (nonce : U256) : Bytes :=
  typehash.val ++ (abiAddress args.owner ++ (abiAddress args.spender ++ (abiWord args.value ++
    (abiWord nonce ++ abiWord args.deadline))))

def structHash (nonce : U256) : B256 := env.keccak256 (args.structEncoding nonce)

/-- The bytes that the digest is taken of. -/
def signingEncoding (domainSeparator : B256) (nonce : U256) : Bytes :=
  eip712SigningPrefix ++ (domainSeparator.val ++ (args.structHash env nonce).val)

def signingHash (domainSeparator : B256) (nonce : U256) : B256 :=
  env.keccak256 (args.signingEncoding env domainSeparator nonce)

def meteredStructHash (nonce : U256) (left : ℕ) : TokenM (B256 × ℕ) :=
  meteredKeccak256 env (args.structEncoding nonce) left

def meteredSigningHash (domainSeparator : B256) (nonce : U256) (left : ℕ) :
    TokenM (B256 × ℕ) := do
  let structHash ← args.meteredStructHash env nonce left
  meteredKeccak256 env (eip712SigningPrefix ++ (domainSeparator.val ++ structHash.1.val))
    structHash.2

def oddYParity : Option Bool :=
  if args.v = 27 then some false else if args.v = 28 then some true else none

def recovered (signingHash : B256) : Option Address :=
  args.oddYParity.bind fun parity =>
    env.recoverAddressFromPrehash args.r args.s parity signingHash

def recoverSigner (signingHash : B256) : TokenM Address :=
  match args.recovered env signingHash with
  | some signer => pure signer
  | none => throw (.invalidSigner Address.zero args.owner)

/-- The charge comes before the check of `v`. -/
def meteredRecoverSigner (signingHash : B256) (left : ℕ) : TokenM Address := do
  let _ ← deductGas recoverGas left
  args.recoverSigner env signingHash

def validateRecoveredAddress (recovered owner : Address) : TokenM Unit :=
  ensure (recovered ≠ Address.zero ∧ recovered = owner) (.invalidSigner recovered owner)

end PermitArgs

/-! ## What the checks say -/

variable {s t : B20AssetStorage} {u : Unit}

theorem orUnderOverflow_ok_iff {o : Option U256} {v : U256} :
    orUnderOverflow o s = .ok v t ↔ o = some v ∧ t = s := by
  cases o with
  | none =>
    constructor
    · nofun
    · rintro ⟨h, -⟩
      cases h
  | some w =>
    rw [Option.some.injEq]
    exact pure_ok_iff.trans (and_congr_left fun _ => eq_comm)

theorem orUnderOverflow_error_iff {o : Option U256} {e : B20Error} :
    orUnderOverflow o s = .error e t ↔ o = none ∧ e = .underOverflow ∧ t = s := by
  cases o with
  | none =>
    show EStateM.Result.error B20Error.underOverflow s = .error e t ↔ _
    rw [EStateM.Result.error.injEq]
    exact ⟨fun h => ⟨rfl, h.1.symm, h.2.symm⟩, fun h => ⟨h.2.1.symm, h.2.2.symm⟩⟩
  | some w =>
    constructor
    · nofun
    · rintro ⟨h, -⟩
      cases h

theorem unlessPrivileged_ok {privileged : Bool} {check : TokenM Unit} (hreads : Reads check)
    (h : unlessPrivileged privileged check s = .ok u t) :
    t = s ∧ (privileged = false → check s = .ok () s) := by
  cases privileged with
  | true => exact ⟨(pure_ok_iff.mp h).2, nofun⟩
  | false =>
    have ht := hreads.1 _ _ _ h
    subst ht
    exact ⟨rfl, fun _ => h⟩

theorem reads_unlessPrivileged (privileged : Bool) {check : TokenM Unit} (hreads : Reads check) :
    Reads (unlessPrivileged privileged check) := by
  unfold unlessPrivileged
  split_ifs
  · exact reads_pure ()
  · exact hreads

namespace B20Guards

theorem ensureRole_ok_iff {caller : Address} {role : B256} :
    ensureRole caller role s = .ok u t ↔ s.roles role caller = true ∧ t = s := by
  unfold ensureRole
  rw [get_bind, ensure_ok_iff]

theorem reads_ensureRole (caller : Address) (role : B256) : Reads (ensureRole caller role) :=
  reads_get.bind fun _ => reads_ensure _ _

theorem ensureNotPaused_ok_iff {feature : PausableFeature} :
    ensureNotPaused feature s = .ok u t ↔ s.paused &&& feature.mask = 0 ∧ t = s := by
  unfold ensureNotPaused
  rw [get_bind, ensure_ok_iff]

theorem reads_ensureNotPaused (feature : PausableFeature) : Reads (ensureNotPaused feature) :=
  reads_get.bind fun _ => reads_ensure _ _

variable (policyType : B20PolicyType)

theorem policyId_id : policyId policyType.id s = .ok (s.policyIds policyType) s := by
  show (match B20PolicyType.fromId policyType.id with
    | some policyType => (return s.policyIds policyType : TokenM UInt64)
    | none => throw (B20Error.unsupportedPolicyType policyType.id)) s = _
  rw [B20PolicyType.fromId_id]
  rfl

theorem reads_policyId (policyScope : B256) : Reads (policyId policyScope) := by
  refine reads_get.bind fun s => ?_
  cases B20PolicyType.fromId policyScope with
  | some policyType => exact reads_pure _
  | none => exact reads_throw _

variable {env : B20Env} {ctx : CallContext} {account : Address}

theorem isAuthorized_ok_iff {id : UInt64} {b : Bool} :
    isAuthorized env ctx id account s = .ok b t ↔ ctx.isAuthorized env id account = .ok b ∧ t = s := by
  unfold isAuthorized
  cases ctx.isAuthorized env id account with
  | ok authorized =>
    rw [Except.ok.injEq]
    exact pure_ok_iff.trans (and_congr_left fun _ => eq_comm)
  | error e =>
    constructor
    · nofun
    · rintro ⟨h, -⟩
      cases h

theorem reads_isAuthorized (id : UInt64) (account : Address) :
    Reads (isAuthorized env ctx id account) := by
  unfold isAuthorized
  cases ctx.isAuthorized env id account with
  | ok authorized => exact reads_pure _
  | error e => exact reads_throw _

theorem ensureAuthorizedById_ok_iff {scope : B256} {id : UInt64} :
    ensureAuthorizedById env ctx scope id account s = .ok u t ↔
      ctx.isAuthorized env id account = .ok true ∧ t = s := by
  unfold ensureAuthorizedById
  simp only [bind_ok_iff, isAuthorized_ok_iff, ensure_ok_iff]
  constructor
  · rintro ⟨_, _, ⟨hauthorized, rfl⟩, rfl, rfl⟩
    exact ⟨hauthorized, rfl⟩
  · rintro ⟨hauthorized, rfl⟩
    exact ⟨_, _, ⟨hauthorized, rfl⟩, rfl, rfl⟩

theorem reads_ensureAuthorizedById (scope : B256) (id : UInt64) (account : Address) :
    Reads (ensureAuthorizedById env ctx scope id account) :=
  (reads_isAuthorized id account).bind fun _ => reads_ensure _ _

theorem ensurePolicyType_eq (account : Address) :
    ensurePolicyType env ctx policyType account s =
      ensureAuthorizedById env ctx policyType.id (s.policyIds policyType) account s := by
  show EStateM.bind (policyId policyType.id) _ s = _
  unfold EStateM.bind
  rw [policyId_id]

theorem reads_ensurePolicyType (account : Address) :
    Reads (ensurePolicyType env ctx policyType account) :=
  (reads_policyId _).bind fun _ => reads_ensureAuthorizedById _ _ _

theorem ensureNotAuthorized_ok_iff {policyType : B20PolicyType} {e : B20Error} :
    ensureNotAuthorized env ctx policyType account e s = .ok u t ↔
      ctx.isAuthorized env (s.policyIds policyType) account = .ok false ∧ t = s := by
  unfold ensureNotAuthorized
  simp only [bind_ok_iff, policyId_id, EStateM.Result.ok.injEq, isAuthorized_ok_iff, ensure_ok_iff]
  constructor
  · rintro ⟨_, _, ⟨rfl, rfl⟩, _, _, ⟨hauthorized, rfl⟩, rfl, rfl⟩
    exact ⟨hauthorized, rfl⟩
  · rintro ⟨hauthorized, rfl⟩
    exact ⟨_, _, ⟨rfl, rfl⟩, _, _, ⟨hauthorized, rfl⟩, rfl, rfl⟩

theorem reads_ensureNotAuthorized (account : Address) (e : B20Error) :
    Reads (ensureNotAuthorized env ctx policyType account e) :=
  (reads_policyId _).bind fun _ => (reads_isAuthorized _ _).bind fun _ => reads_ensure _ _

end B20Guards

namespace PermitArgs

variable {env : B20Env} {args : PermitArgs}

theorem recoverSigner_ok_iff {hash : B256} {signer : Address} :
    args.recoverSigner env hash s = .ok signer t ↔ args.recovered env hash = some signer ∧ t = s := by
  unfold recoverSigner
  cases args.recovered env hash with
  | some recovered =>
    rw [Option.some.injEq]
    exact pure_ok_iff.trans (and_congr_left fun _ => eq_comm)
  | none =>
    constructor
    · nofun
    · rintro ⟨h, -⟩
      cases h

end PermitArgs

/-! ## The checks only read -/

section Frames

open B20Guards

variable {γ : Type} {f : B20AssetStorage → γ}

instance (privileged : Bool) (check : TokenM Unit) [Frames f check] :
    Frames f (unlessPrivileged privileged check) := by
  unfold unlessPrivileged
  infer_instance

instance (caller : Address) (role : B256) : Frames f (ensureRole caller role) :=
  (reads_ensureRole caller role).frames

instance (caller : Address) (role : B20TokenRole) : Frames f (ensureTokenRole caller role) :=
  (reads_ensureRole caller role.id).frames

end Frames

end NodeReth
