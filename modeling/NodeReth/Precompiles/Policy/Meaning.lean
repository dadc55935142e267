import NodeReth.Precompiles.Policy.Registry

/-!
# Runs of the policy registry

Every call that is accepted changes the abstract registry as recorded, every call that fails changes
nothing, and so the storage after any calls of V1 followed by any calls of V2 answers as the
policies that were issued say.
-/

namespace NodeReth

open Effects List PolicyRegistry PolicyRegistryV1

namespace Registry

variable {r : Registry} {s t : PolicyRegistryStorage} {version : PolicyVersion} {caller : Address}
  {admin : Address} {policyType : PolicyType} {accounts : List Address} {u : Unit}

/-! ## Accepted calls -/

theorem Describes.children_eq_nil (hd : r.Describes s) {id : UInt64} (hid : id ∉ r.ids) :
    s.children id = [] := by
  rw [hd.children]
  exact hd.leaf id fun u hu => absurd (mem_map_of_mem hu) hid

theorem Describes.issue_simple (hd : r.Describes s) {id : UInt64} (hsimple : policyType.isSimple = true)
    (h : Created s admin policyType accounts (s.children id) id t) :
    (r.issue id policyType accounts.toFinset []).Describes t := by
  rw [hd.children_eq_nil (hd.fresh h)] at h
  exact hd.issue h (fun _ => rfl) fun hc => by rw [hsimple] at hc; cases hc

theorem Describes.execute (hd : r.Describes s) {call : PolicyCall} {id : Option UInt64}
    (h : version.execute caller call s = .ok id t) : (r.record call id).Describes t := by
  cases call with obtain ⟨_, hcall, rfl⟩ := bind_return_ok h
  | createPolicy admin policyType =>
    obtain ⟨hsimple, hcreated⟩ := createPolicy_ok hcall
    exact hd.issue_simple hsimple hcreated
  | createPolicyWithAccounts admin policyType accounts =>
    obtain ⟨hsimple, hcreated⟩ := createPolicyWithAccounts_ok hcall
    exact hd.issue_simple hsimple hcreated
  | createCompositePolicy admin policyType cs =>
    obtain ⟨hkind, hcs, hcreated⟩ := createCompositePolicy_ok hcall
    exact hd.issue hcreated (fun hc => by rw [hkind] at hc; cases hc) fun _ => hd.children_ok hcs
  | updateComposite policyId cs =>
    obtain ⟨hadmin, hkind, hcs, _, rfl⟩ := updateComposite_ok hcall
    exact (hd.setChildren hadmin.written hkind (hd.children_ok hcs)).rewrite rfl rfl rfl fun _ => rfl
  | stageUpdateAdmin policyId newAdmin =>
    obtain ⟨-, _, rfl⟩ := stageUpdateAdmin_ok hcall
    exact hd.rewrite rfl rfl rfl fun _ => rfl
  | finalizeUpdateAdmin policyId =>
    obtain ⟨hwritten, -, _, rfl⟩ := finalizeUpdateAdmin_ok hcall
    exact hd.rewrite rfl rfl rfl (isWritten_update (PackedPolicy.isWritten_new caller) hwritten)
  | renounceAdmin policyId =>
    obtain ⟨hadmin, _, rfl⟩ := renounceAdmin_ok hcall
    exact hd.rewrite rfl rfl rfl
      (isWritten_update (PackedPolicy.isWritten_new Address.zero) hadmin.written)
  | updateAllowlist policyId add accounts | updateBlocklist policyId add accounts =>
    obtain ⟨_, _, hmembership, hevent⟩ := bind_ok_iff.mp hcall
    obtain ⟨hadmin, rfl⟩ := updateMembership_ok hmembership
    rw [modify_ok_iff.mp hevent]
    exact (hd.updateMembers hadmin.written).rewrite rfl rfl rfl fun _ => rfl

/-! ## Failed calls -/

/-- The arm after the writes that reports an unsupported type is not reached. -/
theorem atomic_createPolicyWithAccounts :
    Atomic (createPolicyWithAccounts version caller admin policyType accounts) := by
  intro s e t h
  rcases bind_error_iff.mp h with hvalid | ⟨_, s₁, hvalid, hrest⟩
  · exact Frames.reads.2 _ _ _ hvalid
  · obtain ⟨rfl, hsimple⟩ := validateCreatePolicyInputs_ok hvalid
    have hevent (id : UInt64) : Sure (membersEvent policyType id caller accounts) := by
      cases policyType with
      | allowlist | blocklist => exact inferInstanceAs (Sure (modify _))
      | union | intersect => cases hsimple
    exact Clean.atomic (x := do
      requireAccountBatchSize accounts
      let policyId ← createPolicyInner caller admin policyType
      accounts.forM fun account => modify (writeMember policyId true account)
      membersEvent policyType policyId caller accounts
      return policyId) _ _ _ hrest

set_option synthInstance.maxSize 1000 in
instance (cs : List UInt64) : Clean (createCompositePolicy version caller admin policyType cs) := by
  cases version with
  | v1 => exact inferInstanceAs (Clean (throw _))
  | v2 => exact inferInstanceAs (Clean (_ >>= _))

instance (id : UInt64) (cs : List UInt64) : Clean (updateComposite version caller id cs) := by
  cases version with
  | v1 => exact inferInstanceAs (Clean (throw _))
  | v2 => exact inferInstanceAs (Clean (_ >>= _))

instance (id : UInt64) (expected : UInt8) (add : Bool) :
    Clean (updateMembership caller id expected add accounts) := by
  unfold updateMembership
  infer_instance

theorem atomic_execute (version : PolicyVersion) (caller : Address) (call : PolicyCall) :
    Atomic (version.execute caller call) := by
  have hclean : Clean (version.execute caller call) := by
    cases call with
    | createPolicyWithAccounts admin policyType accounts =>
      exact ⟨atomic_createPolicyWithAccounts.before_succeeds fun _ => succeeds_pure _⟩
    | _ =>
      simp only [PolicyVersion.execute, PolicyRegistry.createPolicy, stageUpdateAdmin,
        finalizeUpdateAdmin, renounceAdmin, updateAllowlist, updateBlocklist]
      infer_instance
  exact hclean.atomic

/-! ## Runs -/

theorem Describes.run (hd : r.Describes s) (calls : List (Address × PolicyCall)) :
    (version.run (s, r) calls).2.Describes (version.run (s, r) calls).1 := by
  induction calls generalizing s r with
  | nil => exact hd
  | cons call calls ih =>
    unfold PolicyVersion.run
    rw [foldl_cons]
    cases hexec : version.execute call.1 call.2 s with
    | ok id t => exact ih (hd.execute hexec)
    | error e t => exact ih (atomic_execute _ _ _ _ _ _ hexec ▸ hd)

/-- V1 issues policies of the simple types only. -/
theorem isSimple_of_v1 {call : PolicyCall} {id : Option UInt64}
    (h : PolicyVersion.v1.execute caller call s = .ok id t)
    (hr : ∀ p ∈ r.issued, p.2.isSimple = true) :
    ∀ p ∈ (r.record call id).issued, p.2.isSimple = true := by
  cases call with
  | createPolicy admin policyType =>
    obtain ⟨_, hcall, rfl⟩ := bind_return_ok h
    exact forall_mem_cons.mpr ⟨(createPolicy_ok hcall).1, hr⟩
  | createPolicyWithAccounts admin policyType accounts =>
    obtain ⟨_, hcall, rfl⟩ := bind_return_ok h
    exact forall_mem_cons.mpr ⟨(createPolicyWithAccounts_ok hcall).1, hr⟩
  | createCompositePolicy admin policyType cs => cases h
  | _ => exact hr

theorem isSimple_of_run_v1 (hr : ∀ p ∈ r.issued, p.2.isSimple = true)
    (calls : List (Address × PolicyCall)) :
    ∀ p ∈ (PolicyVersion.v1.run (s, r) calls).2.issued, p.2.isSimple = true := by
  induction calls generalizing s r with
  | nil => exact hr
  | cons call calls ih =>
    unfold PolicyVersion.run
    rw [foldl_cons]
    cases hexec : PolicyVersion.v1.execute call.1 call.2 s with
    | ok id t => exact ih (isSimple_of_v1 hexec hr)
    | error e t => exact ih hr

end Registry

/-! ## Answers -/

section

variable {s : PolicyRegistryStorage} {id : UInt64} {account : Address}

theorem le_intersect_iff {t : UInt8} : t ≤ PolicyType.intersect.asDiscriminant ↔
    ∃ u : PolicyType, t = u.asDiscriminant := by
  constructor
  · intro h
    have hle : t.toNat ≤ 3 := UInt8.le_iff_toNat_le.mp h
    have hcases : t.toNat = 0 ∨ t.toNat = 1 ∨ t.toNat = 2 ∨ t.toNat = 3 := by omega
    rcases hcases with h | h | h | h
    · exact ⟨.blocklist, UInt8.toNat_inj.mp h⟩
    · exact ⟨.allowlist, UInt8.toNat_inj.mp h⟩
    · exact ⟨.union, UInt8.toNat_inj.mp h⟩
    · exact ⟨.intersect, UInt8.toNat_inj.mp h⟩
  · rintro ⟨u, rfl⟩
    cases u <;> decide

theorem ne_of_isBuiltin_eq_false (h : isBuiltin id = false) :
    id ≠ alwaysAllowId ∧ id ≠ alwaysBlockId := by
  simpa [isBuiltin] using h

def leafValue (s : PolicyRegistryStorage) (policyType : PolicyType) (id : UInt64)
    (account : Address) : Bool :=
  if policyType = .allowlist then s.members id account else !(s.members id account)

namespace PolicyRegistryV1

theorem isAuthorized_builtin (h : isBuiltin id = true) :
    isAuthorized s id account = .ok (id = alwaysAllowId) := by
  rcases Bool.or_eq_true_iff.mp h with h | h
  all_goals
    rw [of_decide_eq_true h]
    rfl

theorem isAuthorized_leaf (hbuiltin : isBuiltin id = false) {u : PolicyType}
    (htype : policyIdType id = u.asDiscriminant) (hu : u.isSimple = true) :
    isAuthorized s id account = .ok (leafValue s u id account) := by
  obtain ⟨hallow, hblock⟩ := ne_of_isBuiltin_eq_false hbuiltin
  unfold isAuthorized
  rw [if_neg hallow, if_neg hblock, htype]
  cases u with
  | allowlist | blocklist => rfl
  | union | intersect => cases hu

/-- An identifier of another type is rejected before the match on its type. -/
theorem isAuthorized_returns : ∃ b, isAuthorized s id account = .ok b := by
  by_cases hbuiltin : isBuiltin id = true
  · exact ⟨_, isAuthorized_builtin hbuiltin⟩
  · by_cases htype : policyIdType id > PolicyType.allowlist.asDiscriminant
    · exact ⟨false, if_pos htype⟩
    · rw [Bool.not_eq_true] at hbuiltin
      obtain ⟨u, hu⟩ := le_intersect_iff.mp (UInt8.le_trans (UInt8.not_lt.mp htype) (by decide))
      rw [hu] at htype
      cases u with
      | allowlist | blocklist => exact ⟨_, isAuthorized_leaf hbuiltin hu rfl⟩
      | union | intersect => exact absurd (by decide) htype

end PolicyRegistryV1

namespace PolicyRegistryV2

variable {depth : ℕ}

theorem isAuthorized_builtin (h : isBuiltin id = true) :
    isAuthorized depth s id account = .ok (id = alwaysAllowId) := by
  rcases Bool.or_eq_true_iff.mp h with h | h
  all_goals
    rw [of_decide_eq_true h]
    unfold isAuthorized
    rfl

theorem isAuthorized_malformed (hbuiltin : isBuiltin id = false) (h : isWellFormed id = false) :
    isAuthorized depth s id account = .ok false := by
  obtain ⟨hallow, hblock⟩ := ne_of_isBuiltin_eq_false hbuiltin
  unfold isAuthorized
  rw [if_neg hallow, if_neg hblock, h]
  rfl

theorem isWellFormed_of_type {u : PolicyType} (htype : policyIdType id = u.asDiscriminant) :
    isWellFormed id = true := by
  unfold isWellFormed
  rw [htype]
  cases u <;> rfl

theorem isAuthorized_leaf (hbuiltin : isBuiltin id = false) {u : PolicyType}
    (htype : policyIdType id = u.asDiscriminant) (hu : u.isSimple = true) :
    isAuthorized depth s id account = .ok (leafValue s u id account) := by
  obtain ⟨hallow, hblock⟩ := ne_of_isBuiltin_eq_false hbuiltin
  unfold isAuthorized
  rw [if_neg hallow, if_neg hblock, isWellFormed_of_type htype, htype]
  cases u with
  | allowlist | blocklist => rfl
  | union | intersect => cases hu

end PolicyRegistryV2

end

theorem anyM_ok {α ε : Type} {f : α → Except ε Bool} {g : α → Bool} {l : List α}
    (h : ∀ x ∈ l, f x = .ok (g x)) : l.anyM f = .ok (l.any g) := by
  induction l with
  | nil => rfl
  | cons x l ih =>
    obtain ⟨hx, hl⟩ := forall_mem_cons.mp h
    rw [any_cons]
    unfold anyM
    rw [hx, ih hl]
    cases g x <;> rfl

theorem allM_ok {α ε : Type} {f : α → Except ε Bool} {g : α → Bool} {l : List α}
    (h : ∀ x ∈ l, f x = .ok (g x)) : l.allM f = .ok (l.all g) := by
  induction l with
  | nil => rfl
  | cons x l ih =>
    obtain ⟨hx, hl⟩ := forall_mem_cons.mp h
    rw [all_cons]
    unfold allM
    rw [hx, ih hl]
    cases g x <;> rfl

namespace Registry

variable {r : Registry} {s : PolicyRegistryStorage} {id : UInt64} {u : PolicyType}

theorem Describes.exists_issued_of_mem (h : id ∈ r.ids) : ∃ u, (id, u) ∈ r.issued := by
  obtain ⟨⟨j, u⟩, hmem, rfl⟩ := mem_map.mp h
  exact ⟨u, hmem⟩

section

variable (hd : r.Describes s)

include hd

theorem Describes.not_builtin (h : (id, u) ∈ r.issued) : isBuiltin id = false := by
  obtain ⟨c, hc, hlt, rfl⟩ := hd.issued id u h
  refine makeId_ne_builtin hc ?_
  have hmax := UInt64.le_iff_toNat_le.mp hd.counter_le
  have := UInt64.lt_iff_toNat_lt.mp hlt
  rw [UInt64.lt_iff_toNat_lt]
  omega

/-- The value of an issued policy of a simple type, read from the abstract registry. -/
theorem Describes.leafValue_eq (h : (id, u) ∈ r.issued) (account : Address) :
    leafValue s u id account =
      if u = .allowlist then decide (account ∈ r.members id) else decide (account ∉ r.members id) := by
  unfold leafValue
  rw [hd.members id (hd.not_builtin h) account, decide_not]

namespace Describes

/-- The current children of an identifier are evaluated without further recursion. -/
theorem child_leaf {child : UInt64} (h : child ∈ s.children id) :
    ∃ u, (child, u) ∈ r.issued ∧ u.isSimple = true := by
  rw [hd.children] at h
  by_cases hleaf : ∀ t, (id, t) ∈ r.issued → t.isSimple = true
  · rw [hd.leaf id hleaf] at h
    cases h
  · push Not at hleaf
    obtain ⟨t, ht, hsimple⟩ := hleaf
    exact (hd.composite id t ht (by simpa using hsimple)).2.2 child h

theorem sound_v1 (hsimple : ∀ p ∈ r.issued, p.2.isSimple = true) :
    r.Sound (policyExists s) (isAuthorized s) := by
  refine ⟨hd.nodup, fun id hid => ?_, fun id => ?_, hd.composite,
    fun _ _ => isAuthorized_returns, fun id a h => ?_, fun id a h => ?_,
    fun id a h => ?_, fun id a h => ?_⟩
  · obtain ⟨u, hu⟩ := Describes.exists_issued_of_mem hid
    exact hd.not_builtin hu
  · unfold policyExists
    by_cases hbuiltin : isBuiltin id = true
    · have hids : id = alwaysAllowId ∨ id = alwaysBlockId := by simpa [isBuiltin] using hbuiltin
      rcases hids with rfl | rfl <;> simp [hbuiltin] <;> decide
    · rw [Bool.not_eq_true] at hbuiltin
      have hids : ¬(id = alwaysAllowId ∨ id = alwaysBlockId) := by simpa [isBuiltin] using hbuiltin
      rw [hbuiltin]
      split_ifs with htype
      · -- a type that V1 does not know was not issued
        simp only [false_or, false_iff]
        intro hmem
        obtain ⟨u, hu⟩ := Describes.exists_issued_of_mem hmem
        rw [hd.policyIdType_eq hu] at htype
        have := hsimple _ hu
        cases u with
        | allowlist | blocklist => exact absurd htype (by decide)
        | union | intersect => cases this
      · rw [hd.written id hbuiltin]
        simp
  · rw [isAuthorized_leaf (hd.not_builtin h) (hd.policyIdType_eq h) rfl, hd.leafValue_eq h]
    simp
  · rw [isAuthorized_leaf (hd.not_builtin h) (hd.policyIdType_eq h) rfl, hd.leafValue_eq h]
    simp
  · cases hsimple _ h
  · cases hsimple _ h

theorem isAuthorized_issued_leaf
    (h : (id, u) ∈ r.issued) (hu : u.isSimple = true) (depth : ℕ) (account : Address) :
    PolicyRegistryV2.isAuthorized depth s id account = .ok (leafValue s u id account) :=
  PolicyRegistryV2.isAuthorized_leaf (hd.not_builtin h) (hd.policyIdType_eq h) hu

/-- Children give an answer, and the same one at every depth. -/
theorem child_eq (depth : ℕ) (account : Address) :
    ∀ child ∈ s.children id, PolicyRegistryV2.isAuthorized depth s child account =
      .ok (decide (PolicyRegistryV2.isAuthorized (depth + 1) s child account = .ok true)) := by
  intro child hchild
  obtain ⟨u, hu, hsimple⟩ := hd.child_leaf hchild
  rw [hd.isAuthorized_issued_leaf hu hsimple, hd.isAuthorized_issued_leaf hu hsimple]
  simp

theorem isAuthorized_union (depth : ℕ) (account : Address) (hbuiltin : isBuiltin id = false)
    (htype : policyIdType id = PolicyType.union.asDiscriminant) :
    PolicyRegistryV2.isAuthorized (depth + 1) s id account = .ok ((s.children id).any fun child =>
      PolicyRegistryV2.isAuthorized (depth + 1) s child account = .ok true) := by
  obtain ⟨hallow, hblock⟩ := ne_of_isBuiltin_eq_false hbuiltin
  rw [PolicyRegistryV2.isAuthorized, if_neg hallow, if_neg hblock,
    PolicyRegistryV2.isWellFormed_of_type htype, if_neg nofun, if_pos htype,
    anyM_ok (hd.child_eq depth account)]

theorem isAuthorized_intersect (depth : ℕ)
    (account : Address) (hbuiltin : isBuiltin id = false)
    (htype : policyIdType id = PolicyType.intersect.asDiscriminant) :
    PolicyRegistryV2.isAuthorized (depth + 1) s id account = .ok ((s.children id).all fun child =>
      PolicyRegistryV2.isAuthorized (depth + 1) s child account = .ok true) := by
  obtain ⟨hallow, hblock⟩ := ne_of_isBuiltin_eq_false hbuiltin
  rw [PolicyRegistryV2.isAuthorized, if_neg hallow, if_neg hblock,
    PolicyRegistryV2.isWellFormed_of_type htype, if_neg nofun, htype, if_neg nofun, if_pos rfl,
    allM_ok (hd.child_eq depth account)]

/-- One level of recursion is enough for every identifier. -/
theorem isAuthorized_returns (depth : ℕ) (id : UInt64)
    (account : Address) : ∃ b, PolicyRegistryV2.isAuthorized (depth + 1) s id account = .ok b := by
  by_cases hbuiltin : isBuiltin id = true
  · exact ⟨_, PolicyRegistryV2.isAuthorized_builtin hbuiltin⟩
  · rw [Bool.not_eq_true] at hbuiltin
    by_cases hformed : isWellFormed id = true
    · obtain ⟨u, hu⟩ := le_intersect_iff.mp (of_decide_eq_true hformed)
      cases u with
      | allowlist | blocklist => exact ⟨_, PolicyRegistryV2.isAuthorized_leaf hbuiltin hu rfl⟩
      | union => exact ⟨_, hd.isAuthorized_union depth account hbuiltin hu⟩
      | intersect => exact ⟨_, hd.isAuthorized_intersect depth account hbuiltin hu⟩
    · exact ⟨false, PolicyRegistryV2.isAuthorized_malformed hbuiltin (by simpa using hformed)⟩

theorem sound_v2 (depth : ℕ) :
    r.Sound (PolicyRegistryV2.policyExists s) (PolicyRegistryV2.isAuthorized (depth + 1) s) := by
  refine ⟨hd.nodup, fun id hid => ?_, fun id => ?_, hd.composite, hd.isAuthorized_returns depth,
    fun id a h => ?_, fun id a h => ?_, fun id a h => ?_, fun id a h => ?_⟩
  · obtain ⟨u, hu⟩ := Describes.exists_issued_of_mem hid
    exact hd.not_builtin hu
  · unfold PolicyRegistryV2.policyExists
    by_cases hbuiltin : isBuiltin id = true
    · rw [if_pos (by simpa [isBuiltin] using hbuiltin)]
      simp [hbuiltin]
    · rw [Bool.not_eq_true] at hbuiltin
      rw [if_neg (by simpa [isBuiltin] using hbuiltin), hbuiltin]
      split_ifs with hformed
      · simp only [false_or, false_iff]
        intro hmem
        obtain ⟨u, hu⟩ := Describes.exists_issued_of_mem hmem
        rw [PolicyRegistryV2.isWellFormed_of_type (hd.policyIdType_eq hu)] at hformed
        cases hformed
      · rw [hd.written id hbuiltin]
        simp
  · rw [hd.isAuthorized_issued_leaf h rfl, hd.leafValue_eq h]
    simp
  · rw [hd.isAuthorized_issued_leaf h rfl, hd.leafValue_eq h]
    simp
  · rw [hd.isAuthorized_union depth a (hd.not_builtin h) (hd.policyIdType_eq h), hd.children]
    simp
  · rw [hd.isAuthorized_intersect depth a (hd.not_builtin h) (hd.policyIdType_eq h), hd.children]
    simp

end Describes

end

end Registry

/-- After any calls of V1 the registry answers as the policies it issued say, and so it does after
any calls of V2 that follow; V2 never recurses more than one level. -/
theorem policy_registry_sound (v1Calls v2Calls : List (Address × PolicyCall)) (depth : ℕ) :
    let first := PolicyVersion.v1.run (PolicyRegistryStorage.empty, Registry.empty) v1Calls
    let last := PolicyVersion.v2.run first v2Calls
    first.2.Sound (policyExists first.1) (isAuthorized first.1) ∧
      last.2.Sound (PolicyRegistryV2.policyExists last.1)
        (PolicyRegistryV2.isAuthorized (depth + 1) last.1) := by
  intro first last
  have hfirst : first.2.Describes first.1 := Registry.describes_empty.run v1Calls
  have hsimple : ∀ p ∈ first.2.issued, p.2.isSimple = true :=
    Registry.isSimple_of_run_v1 (fun p hp => (by cases hp)) v1Calls
  exact ⟨hfirst.sound_v1 hsimple, (hfirst.run v2Calls).sound_v2 depth⟩

/-- The switch to V2 changes no answer of the registry, except that identifiers of the intersect
type, of which V1 issues none, authorize every account. -/
theorem upgrade_keeps_answers (calls : List (Address × PolicyCall)) (depth : ℕ) (id : UInt64)
    (account : Address) :
    let s := (PolicyVersion.v1.run (PolicyRegistryStorage.empty, Registry.empty) calls).1
    PolicyRegistryV2.policyExists s id = policyExists s id ∧
      PolicyRegistryV2.isAuthorized (depth + 1) s id account =
        if policyIdType id = PolicyType.intersect.asDiscriminant then .ok true
        else isAuthorized s id account := by
  intro s
  have hd : Registry.Describes _ s := Registry.describes_empty.run calls
  have hsimple := Registry.isSimple_of_run_v1 (s := .empty) (r := .empty)
    (fun p hp => by cases hp) calls
  have hchildren : s.children id = [] := by
    rw [hd.children, hd.leaf id fun t ht => hsimple _ ht]
  refine ⟨Bool.eq_iff_iff.mpr (((hd.sound_v2 0).exists_iff id).trans
    ((hd.sound_v1 hsimple).exists_iff id).symm), ?_⟩
  by_cases hbuiltin : isBuiltin id = true
  · rw [PolicyRegistryV2.isAuthorized_builtin hbuiltin, isAuthorized_builtin hbuiltin, if_neg]
    rcases Bool.or_eq_true_iff.mp hbuiltin with h | h <;> rw [of_decide_eq_true h] <;> decide
  rw [Bool.not_eq_true] at hbuiltin
  by_cases hformed : isWellFormed id = true
  · obtain ⟨u, hu⟩ := le_intersect_iff.mp (of_decide_eq_true hformed)
    cases u with
    | allowlist | blocklist =>
      rw [PolicyRegistryV2.isAuthorized_leaf hbuiltin hu rfl, isAuthorized_leaf hbuiltin hu rfl, hu]
      rfl
    | union =>
      rw [hd.isAuthorized_union depth account hbuiltin hu, hchildren, isAuthorized, hu]
      rfl
    | intersect =>
      rw [hd.isAuthorized_intersect depth account hbuiltin hu, hchildren, if_pos hu]
      rfl
  · have hover : PolicyType.intersect.asDiscriminant < policyIdType id := by
      simpa [isWellFormed] using hformed
    rw [PolicyRegistryV2.isAuthorized_malformed hbuiltin (by simpa using hformed),
      if_neg (UInt8.ne_of_lt hover).symm, isAuthorized, if_pos (UInt8.lt_trans (by decide) hover)]

end NodeReth
