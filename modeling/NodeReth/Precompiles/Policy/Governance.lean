import NodeReth.Lib.Bitlist
import NodeReth.Precompiles.Policy.Meaning

/-!
# Authority over policies

Authority is spread over a packed word, the slot of the staged admin and the maps of the members and
the children. Read together for one policy, they change only as its admin says, and a staged admin
takes over only if nobody has changed the nomination since. A policy without an admin is frozen.
-/

namespace NodeReth

open Effects Function List PackedPolicy PolicyRegistry

theorem PackedPolicy.admin_new (a : Address) : (PackedPolicy.new a).admin = a := by
  have hlt := Bytes.ofBe_lt a.val
  rw [a.property] at hlt
  have hword : (PackedPolicy.new a).word &&& adminMask = Bytes.ofBe a.val := by
    unfold PackedPolicy.new adminMask existsBit
    rw [Bytes.ofBe_replicate_zero_append, Nat.and_two_pow_sub_one_eq_mod, Nat.or_mod_two_pow,
      Nat.mod_eq_of_lt (by omega), show 2 ^ 255 % 2 ^ 160 = 0 by decide, Nat.or_zero]
  apply Subtype.ext
  unfold PackedPolicy.admin
  simp only [hword]
  exact (Bytes.drop_toBe 12 20 _).trans (Bytes.toBe_ofBe_of_length a.property)

/-! ## One policy -/

/-- What the registry stores of one policy. -/
structure PolicyRecord where
  written : Bool
  admin : Address
  pendingAdmin : Address
  members : Address → Bool
  children : List UInt64

def PolicyRegistryStorage.record (s : PolicyRegistryStorage) (id : UInt64) : PolicyRecord where
  written := (fromRaw (s.policies id)).isWritten
  admin := (fromRaw (s.policies id)).admin
  pendingAdmin := s.pendingAdmins id
  members := s.members id
  children := s.children id

/-- Stages, installs or removes an admin of the policy. -/
def PolicyCall.Reassigns (id : UInt64) : PolicyCall → Prop
  | stageUpdateAdmin j _ | finalizeUpdateAdmin j | renounceAdmin j => j = id
  | _ => False

/-- What an accepted call does to the record of a policy. -/
inductive Changes (caller : Address) (id : UInt64) (p : PolicyRecord) :
    PolicyCall → PolicyRecord → Prop
  | none {call} (hcall : ¬call.Reassigns id) : Changes caller id p call p
  | created {call q} (hcall : ¬call.Reassigns id) (hfresh : p.written = false)
      (hpending : q.pendingAdmin = p.pendingAdmin) : Changes caller id p call q
  | contents {call members children} (hcall : ¬call.Reassigns id) (hadmin : p.admin = caller) :
      Changes caller id p call { p with members, children }
  | stage {newAdmin} (hadmin : p.admin = caller) :
      Changes caller id p (.stageUpdateAdmin id newAdmin) { p with pendingAdmin := newAdmin }
  | finalize (hpending : p.pendingAdmin = caller) : Changes caller id p (.finalizeUpdateAdmin id)
      { p with admin := caller, pendingAdmin := Address.zero }
  | renounce (hadmin : p.admin = caller) : Changes caller id p (.renounceAdmin id)
      { p with admin := Address.zero, pendingAdmin := Address.zero }

variable {q p : PolicyRecord}

section

variable {r : Registry} {s t : PolicyRegistryStorage} {version : PolicyVersion} {caller : Address}
  {id : UInt64} {call : PolicyCall} {o : Option UInt64}

theorem Changes.of_created {admin : Address} {policyType : PolicyType} {accounts : List Address}
    {cs : List UInt64} {new : UInt64} (hd : r.Describes s)
    (h : Created s admin policyType accounts cs new t) (hid : isBuiltin id = false)
    (hcall : ¬call.Reassigns id) : Changes caller id (s.record id) call (t.record id) := by
  by_cases hnew : id = new
  · refine .created hcall ?_ (congrFun h.pendingAdmins id)
    rw [← Bool.not_eq_true]
    exact (hd.written id hid).not.mpr (hnew ▸ (hd.fresh h))
  · have hrecord : t.record id = s.record id := by
      unfold PolicyRegistryStorage.record
      rw [h.policies, h.members, h.children, h.pendingAdmins,
        update_of_ne hnew, seeded_policies hid]
      simp [hnew]
    rw [hrecord]
    exact .none hcall

/-- A write at one policy leaves the records of the others. -/
theorem Changes.of_update {j : UInt64} (ht : t.record = update s.record j q)
    (hother : j ≠ id → ¬call.Reassigns id) (hself : Changes caller j (s.record j) call q) :
    Changes caller id (s.record id) call (t.record id) := by
  rw [ht]
  by_cases hj : id = j
  · subst hj
    rwa [update_self]
  · rw [update_of_ne hj]
    exact .none (hother (Ne.symm hj))

theorem record_writePendingAdmin (j : UInt64) (a : Address) (event : PolicyEvent) :
    (emitEvent event (writePendingAdmin j a s)).record =
      update s.record j { s.record j with pendingAdmin := a } := by
  refine eq_update_iff.mpr ⟨?_, fun i hi => ?_⟩
  · exact congrArg (PolicyRecord.mk _ _ · _ _) (update_self _ _ _)
  · exact congrArg (PolicyRecord.mk _ _ · _ _) (update_of_ne hi _ _)

theorem record_writePolicyWord (j : UInt64) (a : Address) (h : (s.record j).written = true) :
    (writePolicyWord j (.new a) s).record = update s.record j { s.record j with admin := a } := by
  refine eq_update_iff.mpr ⟨?_, fun i hi => ?_⟩
  · have hword : (writePolicyWord j (.new a) s).policies j = (PackedPolicy.new a).intoU256 :=
      update_self _ _ _
    unfold PolicyRegistryStorage.record at h ⊢
    rw [hword, fromRaw_intoU256, isWritten_new, admin_new, ← h]
    rfl
  · exact congrArg (fun w => PolicyRecord.mk (fromRaw w).isWritten (fromRaw w).admin _ _ _)
      (update_of_ne hi _ _)

theorem Changes.of_execute (hd : r.Describes s) (h : version.execute caller call s = .ok o t)
    (hid : isBuiltin id = false) : Changes caller id (s.record id) call (t.record id) := by
  cases call with obtain ⟨_, hcall, rfl⟩ := bind_return_ok h
  | createPolicy admin policyType =>
    exact .of_created hd (createPolicy_ok hcall).2 hid nofun
  | createPolicyWithAccounts admin policyType accounts =>
    exact .of_created hd (createPolicyWithAccounts_ok hcall).2 hid nofun
  | createCompositePolicy admin policyType cs =>
    exact .of_created hd (createCompositePolicy_ok hcall).2.2 hid nofun
  | updateComposite j cs =>
    obtain ⟨hadmin, -, -, _, rfl⟩ := updateComposite_ok hcall
    refine .of_update (eq_update_iff.mpr ⟨rfl, fun i hi => ?_⟩) nofun (.contents nofun hadmin.admin)
    exact congrArg (PolicyRecord.mk _ _ _ _) (update_of_ne hi _ _)
  | stageUpdateAdmin j newAdmin =>
    obtain ⟨hadmin, _, rfl⟩ := stageUpdateAdmin_ok hcall
    exact .of_update (record_writePendingAdmin j newAdmin _) (fun hj => hj) (.stage hadmin.admin)
  | finalizeUpdateAdmin j =>
    obtain ⟨hwritten, hpending, _, rfl⟩ := finalizeUpdateAdmin_ok hcall
    refine .of_update ((record_writePendingAdmin j _ _).trans ?_) (fun hj => hj) (.finalize hpending)
    rw [record_writePolicyWord j caller hwritten, update_self, update_idem]
  | renounceAdmin j =>
    obtain ⟨hadmin, _, rfl⟩ := renounceAdmin_ok hcall
    refine .of_update ((record_writePendingAdmin j _ _).trans ?_) (fun hj => hj)
      (.renounce hadmin.admin)
    rw [record_writePolicyWord j _ hadmin.written, update_self, update_idem]
  | updateAllowlist j add accounts | updateBlocklist j add accounts =>
    obtain ⟨_, _, hmembership, hevent⟩ := bind_ok_iff.mp hcall
    obtain ⟨hadmin, rfl⟩ := updateMembership_ok hmembership
    rw [modify_ok_iff.mp hevent]
    refine .of_update (eq_update_iff.mpr ⟨rfl, fun i hi => ?_⟩) nofun (.contents nofun hadmin.admin)
    refine congrArg (PolicyRecord.mk _ _ _ · _) (funext fun a => if_neg fun h => hi h.1)

end

/-! ## Runs -/

structure RegistryCall where
  version : PolicyVersion
  caller : Address
  call : PolicyCall

def RegistryCall.execute (c : RegistryCall) (s : PolicyRegistryStorage) : PolicyRegistryStorage :=
  match c.version.execute c.caller c.call s with
  | .ok _ t | .error _ t => t

def registryAfter (calls : List RegistryCall) : PolicyRegistryStorage :=
  calls.foldl (fun s c => c.execute s) .empty

def recordAfter (calls : List RegistryCall) (id : UInt64) : PolicyRecord :=
  (registryAfter calls).record id

/-- The call is accepted after the others. -/
def RegistryCall.Accepted (calls : List RegistryCall) (c : RegistryCall) : Prop :=
  ∃ o t, c.version.execute c.caller c.call (registryAfter calls) = .ok o t

/-- The last accepted call on the admin of the policy staged the address, and was made by who was the
admin then. -/
inductive Nominated (id : UInt64) (a : Address) : List RegistryCall → Prop
  | staged {calls c} (hcall : c.call = .stageUpdateAdmin id a) (hok : c.Accepted calls)
      (hadmin : (recordAfter calls id).admin = c.caller) : Nominated id a (calls ++ [c])
  | kept {calls c} (h : Nominated id a calls) (hcall : c.Accepted calls → ¬c.call.Reassigns id) :
      Nominated id a (calls ++ [c])

section

variable {calls : List RegistryCall} {c : RegistryCall} {id : UInt64}

theorem registryAfter_concat (calls : List RegistryCall) (c : RegistryCall) :
    (∃ o, c.version.execute c.caller c.call (registryAfter calls) =
        .ok o (registryAfter (calls ++ [c]))) ∨
      ¬c.Accepted calls ∧ registryAfter (calls ++ [c]) = registryAfter calls := by
  have hstep : registryAfter (calls ++ [c]) = c.execute (registryAfter calls) := foldl_concat ..
  rw [hstep, RegistryCall.execute, RegistryCall.Accepted]
  cases h : c.version.execute c.caller c.call (registryAfter calls) with
  | ok o t => exact .inl ⟨o, rfl⟩
  | error e t => exact .inr ⟨nofun, Registry.atomic_execute _ _ _ _ _ _ h⟩

theorem describes_registryAfter (calls : List RegistryCall) :
    ∃ r : Registry, r.Describes (registryAfter calls) := by
  induction calls using reverseRecOn with
  | nil => exact ⟨_, Registry.describes_empty⟩
  | append_singleton calls c ih =>
    obtain ⟨r, hd⟩ := ih
    rcases registryAfter_concat calls c with ⟨o, hok⟩ | ⟨-, hsame⟩
    · exact ⟨_, hd.execute hok⟩
    · exact ⟨r, hsame ▸ hd⟩

/-- Each call changes the record of a policy as an accepted call does, or is rejected. -/
theorem recordAfter_concat (calls : List RegistryCall) (c : RegistryCall) (hid : isBuiltin id = false) :
    (c.Accepted calls ∧
      Changes c.caller id (recordAfter calls id) c.call (recordAfter (calls ++ [c]) id)) ∨
    ¬c.Accepted calls ∧ recordAfter (calls ++ [c]) id = recordAfter calls id := by
  obtain ⟨r, hd⟩ := describes_registryAfter calls
  rcases registryAfter_concat calls c with ⟨o, hok⟩ | ⟨hno, hsame⟩
  · exact .inl ⟨⟨o, _, hok⟩, .of_execute hd hok hid⟩
  · exact .inr ⟨hno, congrArg (·.record id) hsame⟩

/-- Who is staged was nominated. -/
theorem nominated_of_pending (hid : isBuiltin id = false) {a : Address} (ha : a ≠ Address.zero)
    (h : (recordAfter calls id).pendingAdmin = a) : Nominated id a calls := by
  induction calls using reverseRecOn with
  | nil => exact absurd h.symm ha
  | append_singleton calls c ih =>
    rcases recordAfter_concat calls c hid with ⟨hok, hchanges⟩ | ⟨hno, hsame⟩
    · generalize recordAfter (calls ++ [c]) id = q at h hchanges
      obtain ⟨version, caller, call⟩ := c
      cases hchanges with
      | none hcall | contents hcall _ => exact .kept (ih h) fun _ => hcall
      | created hcall _ hpending => exact .kept (ih (hpending.symm.trans h)) fun _ => hcall
      | stage hadmin => exact .staged (congrArg _ h) hok hadmin
      | finalize _ | renounce _ => exact absurd h.symm ha
    · exact .kept (ih (hsame ▸ h)) fun hok => absurd hok hno

/-- A policy without an admin and without a staged one is frozen. -/
theorem recordAfter_frozen {later : List RegistryCall}
    (hid : isBuiltin id = false) (hcallers : ∀ c ∈ later, c.caller ≠ Address.zero)
    (hwritten : p.written = true) (hadmin : p.admin = Address.zero)
    (hpending : p.pendingAdmin = Address.zero) (h : recordAfter calls id = p) :
    recordAfter (calls ++ later) id = p := by
  induction later generalizing calls with
  | nil => rwa [append_nil]
  | cons c later ih =>
    obtain ⟨hc, hlater⟩ := forall_mem_cons.mp hcallers
    rw [append_cons]
    refine ih hlater ?_
    rcases recordAfter_concat calls c hid with ⟨-, hchanges⟩ | ⟨-, hsame⟩
    · rw [h] at hchanges
      generalize recordAfter (calls ++ [c]) id = q at hchanges ⊢
      obtain ⟨version, caller, call⟩ := c
      cases hchanges with
      | none _ => rfl
      | created _ hfresh _ => exact absurd hwritten (by rw [hfresh]; decide)
      | contents _ h | stage h | renounce h => exact absurd (h.symm.trans hadmin) hc
      | finalize h => exact absurd (h.symm.trans hpending) hc
    · exact hsame.trans h

/-- What a call may do to the record of an issued policy: only the admin changes what the policy
consists of, and the admin changes when the nominee takes over or the admin renounces. -/
structure Governed (before : List RegistryCall) (c : RegistryCall) (id : UInt64)
    (p q : PolicyRecord) : Prop where
  contents : q.members ≠ p.members ∨ q.children ≠ p.children → c.caller = p.admin
  admin : q.admin ≠ p.admin →
    (c.call = .finalizeUpdateAdmin id ∧ c.caller = p.pendingAdmin ∧ q.admin = c.caller ∧
      Nominated id c.caller before) ∨
    (c.call = .renounceAdmin id ∧ c.caller = p.admin ∧ q.admin = Address.zero)

theorem Changes.governed (h : Changes c.caller id p c.call q)
    (hp : p.written = true) (hnominated : p.pendingAdmin = c.caller → Nominated id c.caller calls) :
    Governed calls c id p q := by
  obtain ⟨version, caller, call⟩ := c
  cases h with
  | none _ | stage _ => exact ⟨fun h => absurd h (by simp), fun h => absurd rfl h⟩
  | created _ hfresh _ => exact absurd hp (by rw [hfresh]; decide)
  | contents _ hadmin => exact ⟨fun _ => hadmin.symm, fun h => absurd rfl h⟩
  | finalize hpending => exact ⟨fun h => absurd h (by simp),
      fun _ => .inl ⟨rfl, hpending.symm, rfl, hnominated hpending⟩⟩
  | renounce hadmin => exact ⟨fun h => absurd h (by simp), fun _ => .inr ⟨rfl, hadmin.symm, rfl⟩⟩

theorem Changes.renounced {caller : Address} (h : Changes caller id p (.renounceAdmin id) q) :
    q.written = p.written ∧ q.admin = Address.zero ∧ q.pendingAdmin = Address.zero := by
  cases h with
  | renounce _ => exact ⟨rfl, rfl, rfl⟩
  | none hcall | created hcall _ _ | contents hcall _ => exact absurd rfl hcall

/-- As long as nobody calls as the zero address, every call on an issued policy is governed, an
accepted renunciation is the last change of the policy, and the built-in policies allow everyone and
no one. -/
theorem policy_authority (calls : List RegistryCall) (hcallers : ∀ c ∈ calls, c.caller ≠ Address.zero) :
    (∀ before c later id, calls = before ++ c :: later → isBuiltin id = false →
      (recordAfter before id).written = true →
      Governed before c id (recordAfter before id) (recordAfter (before ++ [c]) id) ∧
      (c.call = .renounceAdmin id → c.Accepted before →
        recordAfter calls id = recordAfter (before ++ [c]) id)) ∧
    ∀ id account depth, isBuiltin id = true →
      PolicyRegistryV1.isAuthorized (registryAfter calls) id account = .ok (id = alwaysAllowId) ∧
      PolicyRegistryV2.isAuthorized depth (registryAfter calls) id account =
        .ok (id = alwaysAllowId) := by
  refine ⟨?_, fun id account depth h => ⟨PolicyRegistryV1.isAuthorized_builtin h,
    PolicyRegistryV2.isAuthorized_builtin h⟩⟩
  rintro before c later id rfl hid hwritten
  obtain ⟨hcaller, hlater⟩ := forall_mem_cons.mp (forall_mem_append.mp hcallers).2
  rcases recordAfter_concat before c hid with ⟨-, hchanges⟩ | ⟨hno, hsame⟩
  · refine ⟨hchanges.governed hwritten (nominated_of_pending hid hcaller), fun hcall _ => ?_⟩
    rw [hcall] at hchanges
    obtain ⟨hkept, hadmin, hpending⟩ := hchanges.renounced
    rw [append_cons]
    exact recordAfter_frozen hid hlater (hkept.trans hwritten) hadmin hpending rfl
  · rw [hsame]
    exact ⟨⟨fun h => absurd h (by simp), fun h => absurd rfl h⟩, fun _ hok => absurd hok hno⟩

end

/-! ### A policy that changes hands and is given up -/

namespace Handover

def account (n : UInt8) : Address := ⟨replicate 20 n, by simp⟩

def id : UInt64 := makeId PolicyType.allowlist.asDiscriminant 2

def calls : List RegistryCall :=
  [⟨.v1, account 1, .createPolicy (account 1) .allowlist⟩,
    ⟨.v1, account 1, .stageUpdateAdmin id (account 2)⟩, ⟨.v2, account 2, .finalizeUpdateAdmin id⟩,
    ⟨.v2, account 2, .renounceAdmin id⟩, ⟨.v2, account 2, .updateAllowlist id true [account 2]⟩]

theorem policy_authority_handover : (∀ c ∈ calls, c.caller ≠ Address.zero) ∧
    Nominated id (account 2) (calls.take 2) ∧
    recordAfter calls id = recordAfter (calls.take 4) id := by
  have hcallers : ∀ c ∈ calls, c.caller ≠ Address.zero := by decide
  obtain ⟨hcalls, -⟩ := policy_authority calls hcallers
  have hfinal := (hcalls (calls.take 2) _ _ id rfl (by decide) (by decide +kernel)).1.admin
    (by decide +kernel)
  have hlast := (hcalls (calls.take 3) _ _ id rfl (by decide) (by decide +kernel)).2 rfl ⟨_, _, rfl⟩
  rcases hfinal with ⟨-, -, -, hnominated⟩ | ⟨hcall, -⟩
  · exact ⟨hcallers, hnominated, hlast⟩
  · cases hcall

end Handover

end NodeReth
