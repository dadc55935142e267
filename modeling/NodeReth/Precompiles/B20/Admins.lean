import NodeReth.Precompiles.B20.Runs

/-!
# The admins of a token

The counter of the admin role is the number of its holders in every storage of a run. It drops to
zero only when the sole holder renounces, and nothing brings it back: from then on the role table
only shrinks by renunciations, and role admins, supply cap and policies stay as they are.
-/

namespace NodeReth

open B20AssetStorage B20Guards B20TokenRole BitVec Bytes Checked Effects Function

variable {env : B20Env} {abi : AssetAbi} {ctx : CallContext} {privileged : Bool} {depth : ℕ}
variable {s t : B20AssetStorage} {o : B20Operation}

/-- The counter of the admin role is the number of its holders. -/
def B20AssetStorage.AdminsCounted (s : B20AssetStorage) : Prop :=
  s.adminCount.toNat = count (s.roles defaultAdmin.id)

/-- The two storages agree on who may do what. -/
structure SameRights (s t : B20AssetStorage) : Prop where
  roles : t.roles = s.roles
  roleAdmins : t.roleAdmins = s.roleAdmins
  adminCount : t.adminCount = s.adminCount
  supplyCap : t.supplyCap = s.supplyCap
  policyIds : t.policyIds = s.policyIds

theorem SameRights.trans {u : B20AssetStorage} (h : SameRights s t) (h' : SameRights t u) :
    SameRights s u :=
  ⟨h'.1.trans h.1, h'.2.trans h.2, h'.3.trans h.3, h'.4.trans h.4, h'.5.trans h.5⟩

theorem SameLedger.sameRights {s' : B20AssetStorage} (h : SameLedger s' t) (h' : SameRights s s') :
    SameRights s t :=
  h'.trans ⟨h.roles, h.roleAdmins, h.adminCount, h.supplyCap, h.policyIds⟩

theorem sameRights_spent (s : B20AssetStorage) (owner spender : Address) (amount : U256) :
    SameRights s (s.spent owner spender amount) := by
  unfold spent
  split_ifs <;> exact ⟨rfl, rfl, rfl, rfl, rfl⟩

theorem sameRights_of_mintSteps (h : Relation.ReflTransGen MintStep s t) : SameRights s t := by
  induction h with
  | refl => exact ⟨rfl, rfl, rfl, rfl, rfl⟩
  | tail _ hstep ih =>
    obtain ⟨_, _, _, hsame⟩ := hstep
    exact ih.trans (hsame.sameRights ⟨rfl, rfl, rfl, rfl, rfl⟩)

namespace B20Operation

/-- Operations on the rights of others and on the limits of the token. -/
def isAdministrative : B20Operation → Bool
  | grantRole _ _ | revokeRole _ _ | setRoleAdmin _ _ | updateSupplyCap _ | updatePolicy _ _ => true
  | _ => false

end B20Operation

theorem FundsStep.sameRights (h : FundsStep env ctx privileged s o t) : SameRights s t := by
  cases h with
  | transferFrom _ _ _ _ =>
    exact .trans (t := s.moved _ _ _) ⟨rfl, rfl, rfl, rfl, rfl⟩ (sameRights_spent _ _ _ _)
  | mint _ _ hsteps => exact sameRights_of_mintSteps hsteps
  | transfer _ _ _ | burn _ _ _ _ | burnBlocked _ _ _ _ _ | seizeWithMemo _ _ _ _ | approve
  | permit _ _ => exact ⟨rfl, rfl, rfl, rfl, rfl⟩

theorem FundsStep.isAdministrative (h : FundsStep env ctx privileged s o t) :
    o.isAdministrative = false := by
  cases h with
  | transfer ho _ _ | transferFrom ho _ _ _ | mint ho _ _ | burn ho _ _ _ =>
    cases o <;> first | rfl | cases ho
  | burnBlocked _ _ _ _ _ | seizeWithMemo _ _ _ _ | approve | permit _ _ => rfl

/-! ## The counter -/

theorem setRole_roles_self (role : B256) (account : Address) (b : Bool) :
    (s.setRole role account b).roles role = update (s.roles role) account b :=
  update_self role _ s.roles

variable {role : B256} {step : TokenStep}

theorem setRole_roles_of_ne {role' : B256} (h : role' ≠ role) (account : Address) (b : Bool) :
    (s.setRole role account b).roles role' = s.roles role' :=
  update_of_ne h _ s.roles

theorem roleMemberCount_admin : s.roleMemberCount defaultAdmin.id = s.adminCount := if_pos rfl

theorem setRoleMemberCount_admin (n : U256) :
    s.setRoleMemberCount defaultAdmin.id n = { s with adminCount := n } := if_pos rfl

namespace B20AssetStorage.AdminsCounted

section

variable (h : s.AdminsCounted)

include h

theorem congr (hroles : t.roles = s.roles)
    (hcount : t.adminCount = s.adminCount) : t.AdminsCounted := by
  show t.adminCount.toNat = count (t.roles _)
  rwa [hroles, hcount]

/-- There are fewer accounts than a counter can count. -/
theorem adminCount_lt : s.adminCount.toNat + 1 < 2 ^ 256 := by
  have hcount : s.adminCount.toNat = count (s.roles defaultAdmin.id) := h
  have hle : count (s.roles defaultAdmin.id) ≤ Fintype.card Address := Finset.card_filter_le _ _
  have hcard : Fintype.card Address ≤ 256 ^ 20 := FixedBytes.card_le 20
  omega

theorem eq_zero_iff : s.adminCount = 0 ↔ ∀ a, s.roles defaultAdmin.id a = false := by
  have hcount : s.adminCount.toNat = count (s.roles defaultAdmin.id) := h
  rw [← count_eq_zero_iff, ← hcount]
  exact toNat_eq

theorem one_le {a : Address} (ha : s.roles defaultAdmin.id a = true) : 1 ≤ s.adminCount := by
  have hne : s.adminCount ≠ 0 := by
    intro hzero
    rw [h.eq_zero_iff.mp hzero a] at ha
    cases ha
  have hpos : s.adminCount.toNat ≠ 0 := fun hzero => hne (toNat_eq.mpr hzero)
  exact Nat.one_le_iff_ne_zero.mpr hpos

theorem granted (role : B256) (account : Address) : (s.granted role account).AdminsCounted := by
  unfold B20AssetStorage.granted
  split_ifs with hheld
  · exact h
  · by_cases hadmin : role = defaultAdmin.id
    · subst hadmin
      rw [setRoleMemberCount_admin]
      unfold AdminsCounted
      rw [setRole_roles_self, count_set (Bool.eq_false_iff.mpr hheld),
        toNat_add_of_lt h.adminCount_lt]
      exact congrArg (· + 1) h
    · rw [setRoleMemberCount_of_ne hadmin]
      unfold AdminsCounted
      rwa [setRole_roles_of_ne (Ne.symm hadmin)]

theorem revoked (role : B256) (account : Address) : (s.revoked role account).AdminsCounted := by
  unfold B20AssetStorage.revoked
  split_ifs with hheld
  · by_cases hadmin : role = defaultAdmin.id
    · subst hadmin
      have hclear := count_clear hheld
      have hcount : s.adminCount.toNat = count (s.roles defaultAdmin.id) := h
      rw [roleMemberCount_admin, setRoleMemberCount_admin]
      unfold AdminsCounted
      rw [setRole_roles_self, toNat_sub_of_le (h.one_le hheld)]
      show s.adminCount.toNat - 1 = _
      omega
    · rw [setRoleMemberCount_of_ne hadmin]
      unfold AdminsCounted
      rwa [setRole_roles_of_ne (Ne.symm hadmin)]
  · exact h

end

end B20AssetStorage.AdminsCounted

theorem SameLedger.adminsCounted (h : SameLedger s t) (hs : s.AdminsCounted) : t.AdminsCounted :=
  hs.congr h.roles h.adminCount

theorem RightsStep.adminsCounted (h : RightsStep ctx privileged s o t) (hs : s.AdminsCounted) :
    t.AdminsCounted := by
  cases h with
  | setRoleAdmin _ | updatePolicy _ => exact hs
  | grantRole _ => exact hs.granted _ _
  | revokeRole _ _ | renounceRole _ | renounceLastAdmin _ _ => exact hs.revoked _ _

theorem Effect.adminsCounted (h : Effect env ctx privileged s o t) (hs : s.AdminsCounted) :
    t.AdminsCounted := by
  cases h with
  | quiet _ hsame _ | updateSupplyCap _ _ _ _ hsame => exact hs.congr hsame.roles hsame.adminCount
  | funds hstep hsame =>
    exact hsame.adminsCounted (hs.congr hstep.sameRights.roles hstep.sameRights.adminCount)
  | rights hstep hsame => exact hsame.adminsCounted (hstep.adminsCounted hs)

/-! ## The end of administration -/

/-- A revocation that is not of the last admin leaves one. -/
theorem revoked_adminCount_ne_zero {account : Address}
    (hpos : s.adminCount ≠ 0) (hlast : s.NotLastAdmin role account) :
    (s.revoked role account).adminCount ≠ 0 := by
  unfold revoked
  split_ifs with hheld
  · by_cases hadmin : role = defaultAdmin.id
    · have hone := hlast hadmin hheld
      subst hadmin
      intro hzero
      exact hone (BitVec.sub_eq_iff_eq_add.mp hzero |>.trans (BitVec.zero_add 1))
    · rwa [setRoleMemberCount_of_ne hadmin]
  · exact hpos

theorem granted_adminCount_ne_zero {account : Address} (hs : s.AdminsCounted)
    (hpos : s.adminCount ≠ 0) : (s.granted role account).adminCount ≠ 0 := by
  unfold granted
  split_ifs with hheld
  · exact hpos
  · by_cases hadmin : role = defaultAdmin.id
    · subst hadmin
      show s.adminCount + 1 ≠ 0
      intro hzero
      have hsum : (s.adminCount + 1).toNat = s.adminCount.toNat + 1 :=
        toNat_add_of_lt hs.adminCount_lt
      have hnat := toNat_eq.mp hzero
      have hnone : (0 : U256).toNat = 0 := rfl
      omega
    · rwa [setRoleMemberCount_of_ne hadmin]

/-- The last admin leaves by their own act only. -/
theorem Effect.lost (h : Effect env ctx privileged s o t) (hs : s.AdminsCounted)
    (hpos : s.adminCount ≠ 0) (hzero : t.adminCount = 0) :
    o = .renounceLastAdmin ∧ s.adminCount = 1 ∧
      ∀ a, s.roles defaultAdmin.id a = true ↔ a = ctx.caller := by
  cases h with
  | quiet _ hsame _ | updateSupplyCap _ _ _ _ hsame =>
    exact absurd (hsame.adminCount.symm.trans hzero) hpos
  | funds hstep hsame =>
    exact absurd ((hsame.adminCount.trans hstep.sameRights.adminCount).symm.trans hzero) hpos
  | rights hstep hsame =>
    rw [hsame.adminCount] at hzero
    cases hstep with
    | setRoleAdmin _ | updatePolicy _ => exact absurd hzero hpos
    | grantRole _ => exact absurd hzero (granted_adminCount_ne_zero hs hpos)
    | revokeRole _ hlast | renounceRole hlast =>
      exact absurd hzero (revoked_adminCount_ne_zero hpos hlast)
    | renounceLastAdmin hrole hone =>
      refine ⟨rfl, hone, fun a => ⟨fun ha => ?_, fun ha => ha ▸ hrole⟩⟩
      have hcount : count (s.roles defaultAdmin.id) = 1 :=
        hs.symm.trans (congrArg BitVec.toNat hone)
      exact eq_of_count_eq_one hcount ha hrole

/-- What a step may do to the rights of a token without admins. -/
structure FrozenRights (ctx : CallContext) (step : TokenStep) (s t : B20AssetStorage) : Prop where
  adminCount : t.roleMemberCount defaultAdmin.id = 0
  refused : ∀ o, step = .operation o → o.isAdministrative = false
  roleAdmins : t.roleAdmins = s.roleAdmins
  supplyCap : t.supplyCap = s.supplyCap
  policyIds : t.policyIds = s.policyIds
  /-- A role changes hands only by the renunciation of its holder. -/
  roles : ∀ role a, t.roles role a ≠ s.roles role a →
    step = .operation (.renounceRole role ctx.caller) ∧ a = ctx.caller ∧
      s.roles role a = true ∧ t.roles role a = false

theorem SameRights.frozen (h : SameRights s t) (hzero : s.adminCount = 0)
    (hstep : ∀ o, step = .operation o → o.isAdministrative = false) :
    FrozenRights ctx step s t where
  adminCount := roleMemberCount_admin.trans (h.adminCount.trans hzero)
  refused := hstep
  roleAdmins := h.roleAdmins
  supplyCap := h.supplyCap
  policyIds := h.policyIds
  roles role a hne := absurd (congrFun (congrFun h.roles role) a) hne

theorem frozen_renounceRole (hzero : s.adminCount = 0) (hnone : ∀ a, s.roles defaultAdmin.id a = false)
    (hsame : SameSlots (s.revoked role ctx.caller) t) :
    FrozenRights ctx (.operation (.renounceRole role ctx.caller)) s t := by
  have hother : ∀ o, TokenStep.operation (.renounceRole role ctx.caller) = .operation o →
      o.isAdministrative = false := by
    intro o ho
    cases ho
    rfl
  unfold revoked at hsame
  split_ifs at hsame with hheld
  · have hadmin : role ≠ defaultAdmin.id := by
      rintro rfl
      rw [hnone ctx.caller] at hheld
      cases hheld
    rw [setRoleMemberCount_of_ne hadmin] at hsame
    refine ⟨roleMemberCount_admin.trans (hsame.adminCount.trans hzero), hother, hsame.roleAdmins,
      hsame.supplyCap, hsame.policyIds, fun role' a hne => ?_⟩
    rw [hsame.roles] at hne ⊢
    by_cases hrole : role' = role
    · subst hrole
      rw [setRole_roles_self] at hne ⊢
      by_cases ha : a = ctx.caller
      · subst ha
        rw [update_self]
        exact ⟨rfl, rfl, hheld, rfl⟩
      · rw [update_of_ne ha] at hne
        exact absurd rfl hne
    · rw [setRole_roles_of_ne hrole] at hne
      exact absurd rfl hne
  · exact SameRights.frozen (hsame.sameRights ⟨rfl, rfl, rfl, rfl, rfl⟩) hzero hother

theorem Effect.frozen (h : Effect env ctx false s o t) (hs : s.AdminsCounted)
    (hzero : s.adminCount = 0) : FrozenRights ctx (.operation o) s t := by
  have hnone := hs.eq_zero_iff.mp hzero
  have hnot : ¬s.roles defaultAdmin.id ctx.caller = true := by
    rw [hnone ctx.caller]
    decide
  cases h with
  | quiet ho hsame _ =>
    refine (hsame.sameRights ⟨rfl, rfl, rfl, rfl, rfl⟩).frozen hzero ?_
    rintro o' ⟨⟩
    cases o <;> first | rfl | cases ho
  | funds hstep hsame =>
    refine (hsame.sameRights hstep.sameRights).frozen hzero ?_
    rintro o' ⟨⟩
    exact hstep.isAdministrative
  | updateSupplyCap _ hadmin _ _ _ => exact absurd (hadmin rfl) hnot
  | rights hstep hsame =>
    cases hstep with
    | updatePolicy hadmin => exact absurd (hadmin rfl) hnot
    | grantRole hmay | revokeRole hmay _ | setRoleAdmin hmay => exact absurd hzero (hmay rfl).1
    | renounceRole _ => exact frozen_renounceRole hzero hnone hsame
    | renounceLastAdmin hrole _ => exact absurd hrole hnot

theorem StepEffect.frozen (h : StepEffect env ctx false s step t)
    (hs : s.AdminsCounted) (hzero : s.adminCount = 0) : FrozenRights ctx step s t := by
  cases step with
  | operation o => exact Effect.frozen h hs hzero
  | beginAnnounce _ _ _ | endAnnounce _ =>
    exact SameRights.frozen (SameLedger.sameRights (SameSlots.toSameLedger h) ⟨rfl, rfl, rfl, rfl, rfl⟩) hzero
      nofun

/-! ## Runs -/

theorem adminsCounted_fresh (address : Address) (params : B20AssetCreateParams) :
    (adminStorage address params).AdminsCounted := by
  have hempty : (freshStorage address params).AdminsCounted :=
    (count_eq_zero_iff.mpr fun _ => rfl).symm
  unfold adminStorage
  split_ifs
  · exact hempty.granted _ _
  · exact hempty

theorem adminsCounted_step {u : Unit}
    (h : step.perform env ctx privileged s = .ok u t) (hs : s.AdminsCounted) : t.AdminsCounted :=
  perform_keeps (fun _ _ => SameLedger.adminsCounted)
    (fun _ _ _ heffect => heffect.adminsCounted) h hs

/-- The token had no admin, and its rights have only shrunk since. -/
structure Ended (s t : B20AssetStorage) : Prop where
  counted : t.AdminsCounted
  adminCount : t.adminCount = 0
  roleAdmins : t.roleAdmins = s.roleAdmins
  supplyCap : t.supplyCap = s.supplyCap
  policyIds : t.policyIds = s.policyIds
  roles : ∀ role a, t.roles role a = true → s.roles role a = true

theorem Ended.trans {u : B20AssetStorage} (h : Ended s t) (h' : Ended t u) : Ended s u where
  counted := h'.counted
  adminCount := h'.adminCount
  roleAdmins := h'.roleAdmins.trans h.roleAdmins
  supplyCap := h'.supplyCap.trans h.supplyCap
  policyIds := h'.policyIds.trans h.policyIds
  roles role a ha := h.roles role a (h'.roles role a ha)

theorem FrozenRights.ended (h : FrozenRights ctx step s t) (ht : t.AdminsCounted) : Ended s t where
  counted := ht
  adminCount := roleMemberCount_admin.symm.trans h.adminCount
  roleAdmins := h.roleAdmins
  supplyCap := h.supplyCap
  policyIds := h.policyIds
  roles role a ha := by
    by_contra hs
    exact hs (h.roles role a (fun heq => hs (heq ▸ ha))).2.2.1

/-- Once there is no admin, nothing is administered any more. -/
theorem ended_run {calls : List TokenCall} (hs : s.AdminsCounted) (hzero : s.adminCount = 0) :
    Ended s (runCalls env abi depth calls s) ∧
      ∀ w ∈ history env abi depth calls s, FrozenRights w.ctx w.step w.pre w.post := by
  have hself : Ended s s := ⟨hs, hzero, rfl, rfl, rfl, fun _ _ ha => ha⟩
  have hkept : Ended s (runCalls env abi depth calls s) ∧
      ∀ w ∈ history env abi depth calls s, Ended s w.pre ∧ Ended s w.post := by
    refine history_invariant (Ended s) (fun _ _ step r t hstep hr => hr.trans ?_) hself
    exact ((perform_ok hstep).frozen hr.counted hr.adminCount).ended
      (adminsCounted_step hstep hr.counted)
  refine ⟨hkept.1, fun w hw => ?_⟩
  have hpre := (hkept.2 w hw).1
  exact (perform_ok (perform_of_mem_history hw)).frozen hpre.counted hpre.adminCount

/-- The life of the admin role, for every created token and every run of calls: the counter is the
number of holders, it falls to zero only by the renunciation of the sole holder, and from that step
on, also inside an announcement, no rights are given, taken or administered. -/
theorem admin_lifecycle {params : B20AssetCreateParams} {initCalls : List Bytes} {address : Address}
    {s₀ : B20AssetStorage}
    (hcreated : createB20Asset env abi ctx depth params initCalls (.empty address) = .ok () s₀)
    (calls : List TokenCall) :
    (∀ r, r = runCalls env abi depth calls s₀ ∨
        (∃ w ∈ history env abi depth calls s₀, r = w.pre ∨ r = w.post) →
      (r.roleMemberCount defaultAdmin.id).toNat = count (r.roles defaultAdmin.id)) ∧
    (∀ w ∈ history env abi depth calls s₀, w.pre.roleMemberCount defaultAdmin.id ≠ 0 →
      w.post.roleMemberCount defaultAdmin.id = 0 →
      w.step = .operation .renounceLastAdmin ∧ w.pre.roleMemberCount defaultAdmin.id = 1 ∧
        ∀ a, w.pre.roles defaultAdmin.id a = true ↔ a = w.ctx.caller) ∧
    (∀ w ∈ history env abi depth calls s₀, w.pre.roleMemberCount defaultAdmin.id = 0 →
      FrozenRights w.ctx w.step w.pre w.post) ∧
    ∀ later, (runCalls env abi depth calls s₀).roleMemberCount defaultAdmin.id = 0 →
      (∀ w ∈ history env abi depth later (runCalls env abi depth calls s₀),
        FrozenRights w.ctx w.step w.pre w.post) ∧
      Ended (runCalls env abi depth calls s₀)
        (runCalls env abi depth later (runCalls env abi depth calls s₀)) := by
  have hstart : s₀.AdminsCounted :=
    created_invariant (fun _ _ => SameLedger.adminsCounted)
      (fun _ _ _ heffect => heffect.adminsCounted) (adminsCounted_fresh address params)
      hcreated
  have hkept : (runCalls env abi depth calls s₀).AdminsCounted ∧
      ∀ w ∈ history env abi depth calls s₀, w.pre.AdminsCounted ∧ w.post.AdminsCounted :=
    history_invariant _ (fun _ _ _ _ _ => adminsCounted_step) hstart
  obtain ⟨hlast, hmem⟩ := hkept
  refine ⟨?_, fun w hw hpos hzero => ?_, fun w hw hzero => ?_, fun later hzero => ?_⟩
  · intro r hr
    rcases hr with rfl | ⟨w, hw, rfl | rfl⟩
    · exact hlast
    · exact (hmem w hw).1
    · exact (hmem w hw).2
  · have heffect := perform_ok (perform_of_mem_history hw)
    cases hstep : w.step with rw [hstep] at heffect
    | operation o =>
      obtain ⟨rfl, hone, hsole⟩ := Effect.lost heffect (hmem w hw).1 hpos hzero
      exact ⟨rfl, hone, hsole⟩
    | beginAnnounce _ _ _ | endAnnounce _ =>
      exact absurd ((SameLedger.adminCount (SameSlots.toSameLedger heffect)).symm.trans hzero) hpos
  · exact (perform_ok (perform_of_mem_history hw)).frozen (hmem w hw).1 hzero
  · exact (ended_run hlast hzero).symm

/-- The only function of the ABI that the run below calls. -/
def renounceAbi : AssetAbi where
  decode _ calldata :=
    -- the selector of `renounceLastAdmin()`
    if calldata = [0x6f, 0x79, 0xe3, 0xd7] then .ok (.operation .renounceLastAdmin)
    else .error .unknownFunctionSelector

/-- The calls of an account to a token without policies. -/
def CallContext.plain (caller : Address) (version : AssetVersion) : CallContext :=
  ⟨caller, 0, 8453, 0, version, .empty, fun _ => 0⟩

/-- A token with one admin, who renounces. -/
theorem admin_lifecycle_renounced : let env : B20Env := ⟨fun _ => B256.zero, fun _ _ _ _ => none, 1⟩
    let admin : Address := ⟨List.replicate 20 1, by decide⟩
    let params : B20AssetCreateParams := ⟨1, "Asset", "AST", admin, 6⟩
    let calls : List TokenCall := [⟨.plain admin .v2, [0x6f, 0x79, 0xe3, 0xd7]⟩]
    ∃ s₀, createB20Asset env renounceAbi (.plain admin .v2) 1 params []
        (.empty factoryAddress) = .ok () s₀ ∧ s₀.adminCount = 1 ∧
      ∀ later, Ended (runCalls env renounceAbi 1 calls s₀)
        (runCalls env renounceAbi 1 later (runCalls env renounceAbi 1 calls s₀)) := by
  intro env admin params calls
  have hcreated : createB20Asset env renounceAbi (.plain admin .v2) 1 params []
      (.empty factoryAddress) = .ok () _ := rfl
  refine ⟨_, hcreated, rfl, fun later => ?_⟩
  exact ((admin_lifecycle hcreated calls).2.2.2 later (by decide +kernel)).2

end NodeReth
