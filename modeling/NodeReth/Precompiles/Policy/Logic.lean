import NodeReth.Precompiles.Policy.Storage

/-!
# Logic of the policy registry

The calls of `PolicyRegistryV1` and `PolicyRegistryV2`. The versions share most of their code, which
is written once here; what differs takes the version. Reads of a policy's meaning have one
definition per version, because V2 evaluates composite policies by recursion.
-/

namespace NodeReth

open Effects Function PackedPolicy

inductive PolicyVersion
  | v1
  | v2
  deriving DecidableEq, Repr

variable {caller admin : Address}

namespace PolicyRegistry

def builtinPolicyCount : UInt64 := 2

def maxAccountsPerBatch : ℕ := 64

def minChildPolicies : ℕ := 2

def maxChildPolicies : ℕ := 4

/-! ## Checks -/

/-- `require_custom` in V1. -/
def requireExistingPolicy (policyId : UInt64) : RegistryM PackedPolicy := do
  let s ← get
  let packed := fromRaw (s.policies policyId)
  ensure packed.isWritten .policyNotFound
  return packed

def requireAccountBatchSize (accounts : List Address) : RegistryM Unit :=
  ensure (accounts.length ≤ maxAccountsPerBatch) (.batchSizeTooLarge maxAccountsPerBatch)

def requireAdmin (caller : Address) (policyId : UInt64) : RegistryM PackedPolicy := do
  let packed ← requireExistingPolicy policyId
  ensure (packed.admin = caller) .unauthorized
  return packed

def requireChildPolicyInRange (childPolicyIds : List UInt64) : RegistryM Unit :=
  ensure (minChildPolicies ≤ childPolicyIds.length ∧ childPolicyIds.length ≤ maxChildPolicies)
    .childPoliciesOutsideOfRange

/-- All children exist before any of them is looked at for its kind. -/
def validateCompositeChildPolicies (childPolicyIds : List UInt64) : RegistryM Unit := do
  childPolicyIds.forM fun child => do
    let _ ← requireExistingPolicy child
  childPolicyIds.forM fun child =>
    ensure (¬(isBuiltin child || isComposite child)) (.invalidChildPolicy child)

/-- V1 looks at the type first. -/
def validateCreatePolicyInputs (version : PolicyVersion) (admin : Address)
    (policyType : PolicyType) : RegistryM Unit :=
  match version with
  | .v1 => do
    ensure policyType.isSimple .enumConversionError
    ensure (admin ≠ Address.zero) .zeroAddress
  | .v2 => do
    ensure (admin ≠ Address.zero) .zeroAddress
    ensure policyType.isSimple .incompatiblePolicyType

/-! ## Writes -/

def writePolicyWord (policyId : UInt64) (p : PackedPolicy) (s : PolicyRegistryStorage) :
    PolicyRegistryStorage :=
  { s with policies := update s.policies policyId p.intoU256 }

/-- Records or deletes an account. -/
def writeMember (policyId : UInt64) (value : Bool) (account : Address)
    (s : PolicyRegistryStorage) : PolicyRegistryStorage :=
  { s with
    members := update s.members policyId (update (s.members policyId) account value) }

def writePendingAdmin (policyId : UInt64) (admin : Address) (s : PolicyRegistryStorage) :
    PolicyRegistryStorage :=
  { s with pendingAdmins := update s.pendingAdmins policyId admin }

def writeNextCounter (counter : UInt64) (s : PolicyRegistryStorage) : PolicyRegistryStorage :=
  { s with nextCounter := counter }

def writeChildren (policyId : UInt64) (childPolicyIds : List UInt64) (s : PolicyRegistryStorage) :
    PolicyRegistryStorage :=
  { s with children := update s.children policyId childPolicyIds }

def emitEvent (event : PolicyEvent) (s : PolicyRegistryStorage) : PolicyRegistryStorage :=
  { s with events := s.events ++ [event] }

/-- The writes of the first call. -/
def seedBuiltins (s : PolicyRegistryStorage) : PolicyRegistryStorage :=
  let builtin := new Address.zero
  { writePolicyWord alwaysBlockId builtin (writePolicyWord alwaysAllowId builtin s) with
    initialized := true, nextCounter := builtinPolicyCount }

def ensureInitializedAndGetCounter : RegistryM UInt64 := do
  let s ← get
  if s.nextCounter ≥ builtinPolicyCount then return s.nextCounter
  else
    modify seedBuiltins
    return builtinPolicyCount

/-! ## Calls -/

def createPolicyInner (caller admin : Address) (policyType : PolicyType) : RegistryM UInt64 := do
  let counter ← ensureInitializedAndGetCounter
  ensure (counter < counterMask) .underOverflow
  modify (writeNextCounter (counter + 1))
  let policyId := makeId policyType.asDiscriminant counter
  modify (writePolicyWord policyId (new admin))
  modify (emitEvent (.policyCreated policyId caller policyType))
  modify (emitEvent (.policyAdminUpdated policyId Address.zero admin))
  return policyId

def createPolicy (version : PolicyVersion) (caller admin : Address) (policyType : PolicyType) :
    RegistryM UInt64 := do
  validateCreatePolicyInputs version admin policyType
  createPolicyInner caller admin policyType

/-- The event for the members that a policy of a simple type is created with. -/
def membersEvent (policyType : PolicyType) (policyId : UInt64) (caller : Address)
    (accounts : List Address) : RegistryM Unit :=
  match policyType with
  | .allowlist => modify (emitEvent (.allowlistUpdated policyId caller true accounts))
  | .blocklist => modify (emitEvent (.blocklistUpdated policyId caller true accounts))
  | _ => throw .enumConversionError

def createPolicyWithAccounts (version : PolicyVersion) (caller admin : Address)
    (policyType : PolicyType) (accounts : List Address) : RegistryM UInt64 := do
  validateCreatePolicyInputs version admin policyType
  requireAccountBatchSize accounts
  let policyId ← createPolicyInner caller admin policyType
  accounts.forM fun account => modify (writeMember policyId true account)
  membersEvent policyType policyId caller accounts
  return policyId

/-- V1 rejects the selector. -/
def createCompositePolicy (version : PolicyVersion) (caller admin : Address)
    (policyType : PolicyType) (childPolicyIds : List UInt64) : RegistryM UInt64 :=
  match version with
  | .v1 => throw .unknownFunctionSelector
  | .v2 => do
    ensure (admin ≠ Address.zero) .zeroAddress
    ensure (¬policyType.isSimple) .incompatiblePolicyType
    requireChildPolicyInRange childPolicyIds
    validateCompositeChildPolicies childPolicyIds
    let policyId ← createPolicyInner caller admin policyType
    modify (writeChildren policyId childPolicyIds)
    modify (emitEvent (.compositePolicyUpdated policyId caller childPolicyIds))
    return policyId

def updateComposite (version : PolicyVersion) (caller : Address) (policyId : UInt64)
    (childPolicyIds : List UInt64) : RegistryM Unit :=
  match version with
  | .v1 => throw .unknownFunctionSelector
  | .v2 => do
    let packed ← requireExistingPolicy policyId
    ensure (isComposite policyId) .incompatiblePolicyType
    ensure (packed.admin = caller) .unauthorized
    requireChildPolicyInRange childPolicyIds
    validateCompositeChildPolicies childPolicyIds
    modify (writeChildren policyId childPolicyIds)
    modify (emitEvent (.compositePolicyUpdated policyId caller childPolicyIds))

/-- A zero `newAdmin` clears the slot. -/
def stageUpdateAdmin (caller : Address) (policyId : UInt64) (newAdmin : Address) :
    RegistryM Unit := do
  let _ ← requireAdmin caller policyId
  modify (writePendingAdmin policyId newAdmin)
  modify (emitEvent (.policyAdminStaged policyId caller newAdmin))

def finalizeUpdateAdmin (caller : Address) (policyId : UInt64) : RegistryM Unit := do
  let packed ← requireExistingPolicy policyId
  let s ← get
  let pending := s.pendingAdmins policyId
  ensure (pending ≠ Address.zero) .noPendingAdmin
  ensure (pending = caller) .unauthorized
  modify (writePolicyWord policyId (packed.withAdmin caller))
  modify (writePendingAdmin policyId Address.zero)
  modify (emitEvent (.policyAdminUpdated policyId packed.admin caller))

def renounceAdmin (caller : Address) (policyId : UInt64) : RegistryM Unit := do
  let packed ← requireAdmin caller policyId
  modify (writePolicyWord policyId (packed.withAdmin Address.zero))
  modify (writePendingAdmin policyId Address.zero)
  modify (emitEvent (.policyAdminUpdated policyId caller Address.zero))

def updateMembership (caller : Address) (policyId : UInt64) (expectedType : UInt8) (add : Bool)
    (accounts : List Address) : RegistryM Unit := do
  let packed ← requireExistingPolicy policyId
  ensure (policyIdType policyId = expectedType) .incompatiblePolicyType
  ensure (packed.admin = caller) .unauthorized
  requireAccountBatchSize accounts
  accounts.forM fun account => modify (writeMember policyId add account)

def updateAllowlist (caller : Address) (policyId : UInt64) (allowed : Bool)
    (accounts : List Address) : RegistryM Unit := do
  updateMembership caller policyId PolicyType.allowlist.asDiscriminant allowed accounts
  modify (emitEvent (.allowlistUpdated policyId caller allowed accounts))

def updateBlocklist (caller : Address) (policyId : UInt64) (blocked : Bool)
    (accounts : List Address) : RegistryM Unit := do
  updateMembership caller policyId PolicyType.blocklist.asDiscriminant blocked accounts
  modify (emitEvent (.blocklistUpdated policyId caller blocked accounts))

/-! ## What the checks and the writes do -/

variable {s t : PolicyRegistryStorage}

theorem requireExistingPolicy_ok_iff {policyId : UInt64} {packed : PackedPolicy} :
    requireExistingPolicy policyId s = .ok packed t ↔
      packed = fromRaw (s.policies policyId) ∧ packed.isWritten = true ∧ t = s := by
  unfold requireExistingPolicy
  simp only [bind_ok_iff, get_ok_iff, ensure_ok_iff, pure_ok_iff]
  constructor
  · rintro ⟨_, _, ⟨rfl, rfl⟩, _, _, ⟨hwritten, rfl⟩, rfl, rfl⟩
    exact ⟨rfl, hwritten, rfl⟩
  · rintro ⟨rfl, hwritten, rfl⟩
    exact ⟨_, _, ⟨rfl, rfl⟩, (), _, ⟨hwritten, rfl⟩, rfl, rfl⟩

instance (policyId : UInt64) : Frames id (requireExistingPolicy policyId) := by
  unfold requireExistingPolicy
  infer_instance

instance (accounts : List Address) : Frames id (requireAccountBatchSize accounts) :=
  inferInstanceAs (Frames id (ensure _ _))

instance (childPolicyIds : List UInt64) : Frames id (requireChildPolicyInRange childPolicyIds) :=
  inferInstanceAs (Frames id (ensure _ _))

instance (caller : Address) (policyId : UInt64) : Frames id (requireAdmin caller policyId) := by
  unfold requireAdmin
  infer_instance

instance (childPolicyIds : List UInt64) :
    Frames id (validateCompositeChildPolicies childPolicyIds) := by
  unfold validateCompositeChildPolicies
  infer_instance

/-- The caller administers a policy that was written. -/
structure IsAdmin (s : PolicyRegistryStorage) (caller : Address) (policyId : UInt64) : Prop where
  written : (fromRaw (s.policies policyId)).isWritten = true
  admin : (fromRaw (s.policies policyId)).admin = caller

theorem requireAdmin_ok {policyId : UInt64} {packed : PackedPolicy}
    (h : requireAdmin caller policyId s = .ok packed t) : IsAdmin s caller policyId ∧ t = s := by
  unfold requireAdmin at h
  simp only [bind_ok_iff, ensure_ok_iff] at h
  obtain ⟨_, _, hexisting, _, _, ⟨hadmin, rfl⟩, rfl, rfl⟩ := h
  obtain ⟨rfl, hwritten, rfl⟩ := requireExistingPolicy_ok_iff.mp hexisting
  exact ⟨⟨hwritten, hadmin⟩, rfl⟩

/-- What the checks of the children of a composite policy say. -/
structure ValidChildren (s : PolicyRegistryStorage) (childPolicyIds : List UInt64) : Prop where
  two_le : 2 ≤ childPolicyIds.length
  le_four : childPolicyIds.length ≤ 4
  child : ∀ child ∈ childPolicyIds,
    (fromRaw (s.policies child)).isWritten = true ∧ isBuiltin child = false ∧ isComposite child = false

theorem validChildren_of_ok {childPolicyIds : List UInt64} {u v : Unit}
    {s₁ : PolicyRegistryStorage} (hrange : requireChildPolicyInRange childPolicyIds s = .ok u s₁)
    (h : validateCompositeChildPolicies childPolicyIds s₁ = .ok v t) :
    ValidChildren s childPolicyIds ∧ t = s := by
  obtain ⟨⟨hmin, hmax⟩, rfl⟩ := ensure_ok_iff.mp hrange
  obtain ⟨_, s₂, hexist, hkind⟩ := bind_ok_iff.mp h
  rw [forM_ok_iff fun _ => Frames.reads] at hexist
  obtain ⟨rfl, hexist⟩ := hexist
  rw [forM_ok_iff fun _ => reads_ensure _ _] at hkind
  refine ⟨⟨hmin, hmax, fun child hchild => ⟨?_, ?_⟩⟩, hkind.1⟩
  · obtain ⟨_, _, hreq, -⟩ := bind_ok_iff.mp (hexist child hchild)
    obtain ⟨rfl, hwritten, -⟩ := requireExistingPolicy_ok_iff.mp hreq
    exact hwritten
  · have := (ensure_ok_iff.mp (hkind.2 child hchild)).1
    simpa using this

def seeded (s : PolicyRegistryStorage) : PolicyRegistryStorage :=
  if s.nextCounter ≥ builtinPolicyCount then s else seedBuiltins s

theorem ensureInitializedAndGetCounter_eq :
    ensureInitializedAndGetCounter s = .ok (seeded s).nextCounter (seeded s) := by
  show (if s.nextCounter ≥ builtinPolicyCount then (pure s.nextCounter : RegistryM UInt64)
    else do modify seedBuiltins; return builtinPolicyCount) s = _
  unfold seeded
  split_ifs <;> rfl

/-- What the calls that create a policy do. -/
structure Created (s : PolicyRegistryStorage) (admin : Address) (policyType : PolicyType)
    (accounts : List Address) (childPolicyIds : List UInt64) (id : UInt64)
    (t : PolicyRegistryStorage) : Prop where
  counter_lt : (seeded s).nextCounter < counterMask
  id_eq : id = makeId policyType.asDiscriminant (seeded s).nextCounter
  nextCounter : t.nextCounter = (seeded s).nextCounter + 1
  policies : t.policies = update (seeded s).policies id (new admin).intoU256
  members : t.members = fun j a => if j = id ∧ a ∈ accounts then true else s.members j a
  children : t.children = update s.children id childPolicyIds
  pendingAdmins : t.pendingAdmins = s.pendingAdmins

theorem createPolicyInner_ok {policyType : PolicyType} {id : UInt64}
    (h : createPolicyInner caller admin policyType s = .ok id t) :
    Created s admin policyType [] (s.children id) id t := by
  unfold createPolicyInner at h
  simp only [bind_ok_iff, ensureInitializedAndGetCounter_eq, ensure_ok_iff, modify_ok_iff] at h
  obtain ⟨_, _, ⟨rfl, rfl⟩, _, _, ⟨hlt, rfl⟩, _, _, rfl, _, _, rfl, _, _, rfl, _, _, rfl, rfl, rfl⟩ := h
  have hkept : (seeded s).members = s.members ∧ (seeded s).children = s.children ∧
      (seeded s).pendingAdmins = s.pendingAdmins := by
    unfold seeded
    split_ifs <;> exact ⟨rfl, rfl, rfl⟩
  refine ⟨hlt, rfl, rfl, rfl, ?_, ?_, hkept.2.2⟩
  · simp only [List.not_mem_nil, and_false]
    exact hkept.1
  · rw [update_eq_self]
    exact hkept.2.1

theorem foldl_writeMember (policyId : UInt64) (value : Bool) (accounts : List Address) :
    accounts.foldl (fun s account => writeMember policyId value account s) s =
      { s with
        members := fun id a => if id = policyId ∧ a ∈ accounts then value else s.members id a } := by
  induction accounts generalizing s with
  | nil =>
    simp
  | cons account accounts ih =>
    rw [List.foldl_cons, ih]
    unfold writeMember
    congr 1
    funext id a
    by_cases hid : id = policyId
    · subst hid
      by_cases ha : a = account
      · subst ha
        by_cases hmem : a ∈ accounts <;> simp
      · by_cases hmem : a ∈ accounts <;> simp [ha]
    · simp [hid]

theorem validateCreatePolicyInputs_ok {version : PolicyVersion} {policyType : PolicyType} {u : Unit}
    (h : validateCreatePolicyInputs version admin policyType s = .ok u t) :
    t = s ∧ policyType.isSimple = true := by
  cases version
  all_goals
    obtain ⟨_, _, h₁, h₂⟩ := bind_ok_iff.mp h
    obtain ⟨hc₁, rfl⟩ := ensure_ok_iff.mp h₁
    obtain ⟨hc₂, rfl⟩ := ensure_ok_iff.mp h₂
  · exact ⟨rfl, hc₁⟩
  · exact ⟨rfl, hc₂⟩

/-! ## Accepted calls -/

section

variable {version : PolicyVersion} {policyType : PolicyType} {accounts : List Address} {id : UInt64}
  {u : Unit} {cs : List UInt64}

theorem createPolicy_ok (h : createPolicy version caller admin policyType s = .ok id t) :
    policyType.isSimple = true ∧ Created s admin policyType [] (s.children id) id t := by
  obtain ⟨_, _, hvalid, hcreate⟩ := bind_ok_iff.mp h
  obtain ⟨rfl, hsimple⟩ := validateCreatePolicyInputs_ok hvalid
  exact ⟨hsimple, createPolicyInner_ok hcreate⟩

theorem membersEvent_ok (h : membersEvent policyType id caller accounts s = .ok u t) :
    ∃ event, t = emitEvent event s := by
  cases policyType with
  | allowlist | blocklist => exact ⟨_, modify_ok_iff.mp h⟩
  | union | intersect => cases h

theorem createPolicyWithAccounts_ok
    (h : createPolicyWithAccounts version caller admin policyType accounts s = .ok id t) :
    policyType.isSimple = true ∧ Created s admin policyType accounts (s.children id) id t := by
  unfold createPolicyWithAccounts requireAccountBatchSize at h
  simp only [bind_ok_iff, ensure_ok_iff, forM_modify_ok_iff, foldl_writeMember] at h
  obtain ⟨_, _, hvalid, _, _, ⟨-, rfl⟩, _, u, hcreate, _, _, rfl, _, _, hevent, rfl, rfl⟩ := h
  obtain ⟨rfl, hsimple⟩ := validateCreatePolicyInputs_ok hvalid
  obtain ⟨_, rfl⟩ := membersEvent_ok hevent
  have hc := createPolicyInner_ok hcreate
  refine ⟨hsimple, hc.counter_lt, hc.id_eq, hc.nextCounter, hc.policies, ?_, hc.children,
    hc.pendingAdmins⟩
  show (fun j a => if j = id ∧ a ∈ accounts then true else u.members j a) = _
  rw [hc.members]
  simp

theorem createCompositePolicy_ok
    (h : createCompositePolicy version caller admin policyType cs s = .ok id t) :
    policyType.isSimple = false ∧ ValidChildren s cs ∧ Created s admin policyType [] cs id t := by
  cases version with
  | v1 => cases h
  | v2 =>
    unfold createCompositePolicy at h
    simp only [bind_ok_iff, ensure_ok_iff, modify_ok_iff] at h
    obtain ⟨_, _, ⟨-, rfl⟩, _, _, ⟨hkind, rfl⟩, _, _, hrange, _, _, hvalid, _, u, hcreate, _, _, rfl,
      _, _, rfl, rfl, rfl⟩ := h
    obtain ⟨hcs, rfl⟩ := validChildren_of_ok hrange hvalid
    have hc := createPolicyInner_ok hcreate
    refine ⟨Bool.eq_false_iff.mpr hkind, hcs, hc.counter_lt, hc.id_eq, hc.nextCounter, hc.policies,
      hc.members, ?_, hc.pendingAdmins⟩
    show update u.children id cs = _
    rw [hc.children, update_idem]

theorem updateComposite_ok (h : updateComposite version caller id cs s = .ok u t) :
    IsAdmin s caller id ∧ isComposite id = true ∧ ValidChildren s cs ∧
      ∃ event, t = emitEvent event (writeChildren id cs s) := by
  cases version with
  | v1 => cases h
  | v2 =>
    unfold updateComposite at h
    simp only [bind_ok_iff, ensure_ok_iff, modify_ok_iff] at h
    obtain ⟨_, _, hexisting, _, _, ⟨hkind, rfl⟩, _, _, ⟨hadmin, rfl⟩, _, _, hrange, _, _, hvalid, _, _,
      rfl, rfl⟩ := h
    obtain ⟨rfl, hwritten, rfl⟩ := requireExistingPolicy_ok_iff.mp hexisting
    obtain ⟨hcs, rfl⟩ := validChildren_of_ok hrange hvalid
    exact ⟨⟨hwritten, hadmin⟩, hkind, hcs, _, rfl⟩

theorem updateMembership_ok {expected : UInt8} {add : Bool}
    (h : updateMembership caller id expected add accounts s = .ok u t) :
    IsAdmin s caller id ∧
      t = { s with
            members := fun j a => if j = id ∧ a ∈ accounts then add else s.members j a } := by
  unfold updateMembership requireAccountBatchSize at h
  simp only [bind_ok_iff, ensure_ok_iff, forM_modify_ok_iff, foldl_writeMember] at h
  obtain ⟨_, _, hexisting, _, _, ⟨-, rfl⟩, _, _, ⟨hadmin, rfl⟩, _, _, ⟨-, rfl⟩, rfl⟩ := h
  obtain ⟨rfl, hwritten, rfl⟩ := requireExistingPolicy_ok_iff.mp hexisting
  exact ⟨⟨hwritten, hadmin⟩, rfl⟩

theorem stageUpdateAdmin_ok {newAdmin : Address} (h : stageUpdateAdmin caller id newAdmin s = .ok u t) :
    IsAdmin s caller id ∧ ∃ event, t = emitEvent event (writePendingAdmin id newAdmin s) := by
  unfold stageUpdateAdmin at h
  simp only [bind_ok_iff, modify_ok_iff] at h
  obtain ⟨_, _, hadmin, _, _, rfl, rfl⟩ := h
  obtain ⟨hadmin, rfl⟩ := requireAdmin_ok hadmin
  exact ⟨hadmin, _, rfl⟩

theorem finalizeUpdateAdmin_ok (h : finalizeUpdateAdmin caller id s = .ok u t) :
    (fromRaw (s.policies id)).isWritten = true ∧ s.pendingAdmins id = caller ∧
      ∃ event, t = emitEvent event
        (writePendingAdmin id Address.zero (writePolicyWord id (new caller) s)) := by
  unfold finalizeUpdateAdmin at h
  simp only [bind_ok_iff, ensure_ok_iff, modify_ok_iff] at h
  obtain ⟨_, _, hexisting, _, _, ⟨rfl, rfl⟩, _, _, ⟨-, rfl⟩, _, _, ⟨hpending, rfl⟩, _, _, rfl, _, _, rfl,
    rfl⟩ := h
  obtain ⟨rfl, hwritten, rfl⟩ := requireExistingPolicy_ok_iff.mp hexisting
  exact ⟨hwritten, hpending, _, rfl⟩

theorem renounceAdmin_ok (h : renounceAdmin caller id s = .ok u t) :
    IsAdmin s caller id ∧ ∃ event, t = emitEvent event
      (writePendingAdmin id Address.zero (writePolicyWord id (new Address.zero) s)) := by
  unfold renounceAdmin at h
  simp only [bind_ok_iff, modify_ok_iff] at h
  obtain ⟨_, _, hadmin, _, _, rfl, _, _, rfl, rfl⟩ := h
  obtain ⟨hadmin, rfl⟩ := requireAdmin_ok hadmin
  exact ⟨hadmin, _, rfl⟩

end

/-! ## Failed calls -/

instance (version : PolicyVersion) (admin : Address) (policyType : PolicyType) :
    Frames id (validateCreatePolicyInputs version admin policyType) := by
  cases version <;> exact inferInstanceAs (Frames id (_ >>= _))

/-- Only a storage that is already seeded can run out of counters. -/
instance (caller admin : Address) (policyType : PolicyType) :
    Clean (createPolicyInner caller admin policyType) := by
  refine ⟨fun s e t h => ?_⟩
  unfold createPolicyInner at h
  rw [bind_error_iff, ensureInitializedAndGetCounter_eq] at h
  rcases h with h | ⟨counter, u, hcounter, h⟩
  · cases h
  · cases hcounter
    rcases bind_error_iff.mp h with h | ⟨_, v, -, h⟩
    · unfold ensure at h
      split_ifs at h with hlt <;> cases h
      · unfold seeded at hlt ⊢
        split_ifs at hlt ⊢
        · rfl
        · exact absurd (show builtinPolicyCount < counterMask by decide) hlt
    · exact absurd h (Sure.succeeds.ne_error _ _ _)

end PolicyRegistry

/-! ## Reads -/

inductive EvaluationError
  /-- The arm the source marks as unreachable. -/
  | unreachable
  /-- The recursion is deeper than allowed. -/
  | tooDeep
  deriving DecidableEq, Repr

namespace PolicyRegistryV1

open PolicyRegistry

def isAuthorized (s : PolicyRegistryStorage) (policyId : UInt64) (account : Address) :
    Except EvaluationError Bool :=
  if policyIdType policyId > PolicyType.allowlist.asDiscriminant then .ok false
  else if policyId = alwaysAllowId then .ok true
  else if policyId = alwaysBlockId then .ok false
  else
    let member := s.members policyId account
    if policyIdType policyId = PolicyType.allowlist.asDiscriminant then .ok member
    else if policyIdType policyId = PolicyType.blocklist.asDiscriminant then .ok !member
    else .error .unreachable

def policyExists (s : PolicyRegistryStorage) (policyId : UInt64) : Bool :=
  if policyIdType policyId > PolicyType.allowlist.asDiscriminant then false
  else if policyId = alwaysAllowId ∨ policyId = alwaysBlockId then true
  else (fromRaw (s.policies policyId)).isWritten

end PolicyRegistryV1

namespace PolicyRegistryV2

open PolicyRegistry

/-- Evaluates a policy with at most the given depth of recursion into children. -/
def isAuthorized (depth : ℕ) (s : PolicyRegistryStorage) (policyId : UInt64) (account : Address) :
    Except EvaluationError Bool :=
  if policyId = alwaysAllowId then .ok true
  else if policyId = alwaysBlockId then .ok false
  else if !isWellFormed policyId then .ok false
  else if policyIdType policyId = PolicyType.union.asDiscriminant then
    match depth with
    | 0 => .error .tooDeep
    | depth + 1 => (s.children policyId).anyM fun child => isAuthorized depth s child account
  else if policyIdType policyId = PolicyType.intersect.asDiscriminant then
    match depth with
    | 0 => .error .tooDeep
    | depth + 1 => (s.children policyId).allM fun child => isAuthorized depth s child account
  else if policyIdType policyId = PolicyType.allowlist.asDiscriminant then
    .ok (s.members policyId account)
  else if policyIdType policyId = PolicyType.blocklist.asDiscriminant then
    .ok !(s.members policyId account)
  else .error .unreachable

def policyExists (s : PolicyRegistryStorage) (policyId : UInt64) : Bool :=
  if policyId = alwaysAllowId ∨ policyId = alwaysBlockId then true
  else if !isWellFormed policyId then false
  else (fromRaw (s.policies policyId)).isWritten

end PolicyRegistryV2

end NodeReth
