import NodeReth.Precompiles.Policy.Logic
import Mathlib.Data.Fintype.Basic

/-!
# What the policy registry means

An abstract registry lists the policies that were issued and the members or children each has now,
as the accepted calls say. `Describes` relates it to the storage, every call keeps the relation, and
the reads of the storage are then those of the abstract registry.
-/

namespace NodeReth

open Effects Function List PackedPolicy PolicyRegistry UInt64

inductive PolicyCall
  | createPolicy (admin : Address) (policyType : PolicyType)
  | createPolicyWithAccounts (admin : Address) (policyType : PolicyType) (accounts : List Address)
  | createCompositePolicy (admin : Address) (policyType : PolicyType)
      (childPolicyIds : List UInt64)
  | updateComposite (policyId : UInt64) (childPolicyIds : List UInt64)
  | stageUpdateAdmin (policyId : UInt64) (newAdmin : Address)
  | finalizeUpdateAdmin (policyId : UInt64)
  | renounceAdmin (policyId : UInt64)
  | updateAllowlist (policyId : UInt64) (allowed : Bool) (accounts : List Address)
  | updateBlocklist (policyId : UInt64) (blocked : Bool) (accounts : List Address)

/-- Executes a call; a call that creates a policy returns its identifier. -/
def PolicyVersion.execute (version : PolicyVersion) (caller : Address) :
    PolicyCall → RegistryM (Option UInt64)
  | .createPolicy admin policyType => do
    return some (← createPolicy version caller admin policyType)
  | .createPolicyWithAccounts admin policyType accounts => do
    return some (← createPolicyWithAccounts version caller admin policyType accounts)
  | .createCompositePolicy admin policyType childPolicyIds => do
    return some (← createCompositePolicy version caller admin policyType childPolicyIds)
  | .updateComposite policyId childPolicyIds => do
    updateComposite version caller policyId childPolicyIds
    return none
  | .stageUpdateAdmin policyId newAdmin => do
    stageUpdateAdmin caller policyId newAdmin
    return none
  | .finalizeUpdateAdmin policyId => do
    finalizeUpdateAdmin caller policyId
    return none
  | .renounceAdmin policyId => do
    renounceAdmin caller policyId
    return none
  | .updateAllowlist policyId allowed accounts => do
    updateAllowlist caller policyId allowed accounts
    return none
  | .updateBlocklist policyId blocked accounts => do
    updateBlocklist caller policyId blocked accounts
    return none

/-! ## The abstract registry -/

/-- The policies issued so far with their types, newest first, and what each consists of now. -/
structure Registry where
  issued : List (UInt64 × PolicyType)
  members : UInt64 → Finset Address
  children : UInt64 → List UInt64

namespace Registry

def empty : Registry := ⟨[], fun _ => ∅, fun _ => []⟩

def ids (r : Registry) : List UInt64 := r.issued.map Prod.fst

def issue (r : Registry) (id : UInt64) (policyType : PolicyType) (members : Finset Address)
    (children : List UInt64) : Registry where
  issued := (id, policyType) :: r.issued
  members := update r.members id members
  children := update r.children id children

def updateMembers (r : Registry) (id : UInt64) (add : Bool) (accounts : List Address) : Registry :=
  { r with
    members := update r.members id
      (if add then r.members id ∪ accounts.toFinset else r.members id \ accounts.toFinset) }

def setChildren (r : Registry) (id : UInt64) (children : List UInt64) : Registry :=
  { r with children := update r.children id children }

/-- What an accepted call, with the identifier it returned, changes. -/
def record (r : Registry) : PolicyCall → Option UInt64 → Registry
  | .createPolicy _ policyType, some id => r.issue id policyType ∅ []
  | .createPolicyWithAccounts _ policyType accounts, some id =>
    r.issue id policyType accounts.toFinset []
  | .createCompositePolicy _ policyType children, some id => r.issue id policyType ∅ children
  | .updateComposite id children, _ => r.setChildren id children
  | .updateAllowlist id add accounts, _ => r.updateMembers id add accounts
  | .updateBlocklist id add accounts, _ => r.updateMembers id add accounts
  | _, _ => r

/-- The answers of a registry are those of the policies it issued. -/
structure Sound (r : Registry) (policyExists : UInt64 → Bool)
    (isAuthorized : UInt64 → Address → Except EvaluationError Bool) : Prop where
  nodup : r.ids.Nodup
  not_builtin : ∀ id ∈ r.ids, isBuiltin id = false
  exists_iff : ∀ id, policyExists id = true ↔ isBuiltin id = true ∨ id ∈ r.ids
  composite : ∀ id policyType, (id, policyType) ∈ r.issued → policyType.isSimple = false →
    2 ≤ (r.children id).length ∧ (r.children id).length ≤ 4 ∧
      ∀ child ∈ r.children id, ∃ t, (child, t) ∈ r.issued ∧ t.isSimple = true
  returns : ∀ id account, ∃ b, isAuthorized id account = .ok b
  allowlist : ∀ id account, (id, .allowlist) ∈ r.issued →
    (isAuthorized id account = .ok true ↔ account ∈ r.members id)
  blocklist : ∀ id account, (id, .blocklist) ∈ r.issued →
    (isAuthorized id account = .ok true ↔ account ∉ r.members id)
  union : ∀ id account, (id, .union) ∈ r.issued →
    (isAuthorized id account = .ok true ↔ ∃ child ∈ r.children id,
      isAuthorized child account = .ok true)
  intersect : ∀ id account, (id, .intersect) ∈ r.issued →
    (isAuthorized id account = .ok true ↔ ∀ child ∈ r.children id,
      isAuthorized child account = .ok true)

end Registry

/-- The storage and the abstract registry after calls of one version. -/
def PolicyVersion.run (version : PolicyVersion) (start : PolicyRegistryStorage × Registry)
    (calls : List (Address × PolicyCall)) : PolicyRegistryStorage × Registry :=
  calls.foldl (fun sr call => match version.execute call.1 call.2 sr.1 with
    | .ok id s => (s, sr.2.record call.2 id)
    | .error _ s => (s, sr.2)) start

/-! ## The relation -/

/-- Children that a composite policy may have. -/
def Registry.Composed (issued : List (UInt64 × PolicyType)) (cs : List UInt64) : Prop :=
  2 ≤ cs.length ∧ cs.length ≤ 4 ∧ ∀ child ∈ cs, ∃ t, (child, t) ∈ issued ∧ t.isSimple = true

/-- The storage holds what the abstract registry says. -/
structure Registry.Describes (r : Registry) (s : PolicyRegistryStorage) : Prop where
  counter : s.nextCounter = 0 ∨ builtinPolicyCount ≤ s.nextCounter
  counter_le : s.nextCounter ≤ counterMask
  issued : ∀ id t, (id, t) ∈ r.issued →
    ∃ c, builtinPolicyCount ≤ c ∧ c < s.nextCounter ∧ id = makeId t.asDiscriminant c
  nodup : r.ids.Nodup
  written : ∀ id, isBuiltin id = false → ((fromRaw (s.policies id)).isWritten = true ↔ id ∈ r.ids)
  members : ∀ id, isBuiltin id = false → ∀ a, s.members id a = decide (a ∈ r.members id)
  unissued : ∀ id, isBuiltin id = false → id ∉ r.ids → r.members id = ∅
  children : s.children = r.children
  composite : ∀ id t, (id, t) ∈ r.issued → t.isSimple = false → Composed r.issued (r.children id)
  leaf : ∀ id, (∀ t, (id, t) ∈ r.issued → t.isSimple = true) → r.children id = []

theorem Registry.describes_empty : Registry.empty.Describes PolicyRegistryStorage.empty where
  counter := Or.inl rfl
  counter_le := by decide
  issued _ _ h := by cases h
  nodup := nodup_nil
  written _ _ := by simp [PolicyRegistryStorage.empty, Registry.empty, Registry.ids]
  members _ _ _ := rfl
  unissued _ _ _ := rfl
  children := rfl
  composite _ _ h := by cases h
  leaf _ _ := rfl

/-! ## A new policy -/

section

variable {r : Registry} {s t : PolicyRegistryStorage} {admin : Address} {policyType : PolicyType}
  {id : UInt64} {accounts : List Address} {cs : List UInt64}

theorem seeded_policies {j : UInt64} (hj : isBuiltin j = false) :
    (seeded s).policies j = s.policies j := by
  obtain ⟨hallow, hblock⟩ : j ≠ alwaysAllowId ∧ j ≠ alwaysBlockId := by
    simpa [isBuiltin] using hj
  unfold seeded
  split_ifs with h
  · rfl
  · show update (update s.policies alwaysAllowId _) alwaysBlockId _ j = _
    rw [update_of_ne hblock, update_of_ne hallow]

theorem two_le_seeded : builtinPolicyCount ≤ (seeded s).nextCounter := by
  unfold seeded
  split_ifs with h
  · exact h
  · exact UInt64.le_refl builtinPolicyCount

theorem Registry.Describes.counter_lt (hd : r.Describes s) {c : UInt64} (hc : c < s.nextCounter) :
    c < (seeded s).nextCounter := by
  unfold seeded
  split_ifs with h
  · exact hc
  · rcases hd.counter with hzero | hle
    · rw [hzero] at hc
      exact absurd hc (UInt64.not_lt_zero)
    · exact absurd hle h

theorem counter_lt_succ {a b c : UInt64} (hc : b < c) (h : a ≤ b) : a < b + 1 := by
  have hbc := lt_iff_toNat_lt.mp hc
  have hlt := c.toNat_lt
  rw [UInt64.lt_iff_toNat_lt, UInt64.toNat_add, UInt64.toNat_one]
  have := le_iff_toNat_le.mp h
  omega

namespace Registry.Describes

variable (hd : r.Describes s)

include hd

theorem fresh (h : Created s admin policyType accounts cs id t) : id ∉ r.ids := by
  obtain ⟨hlt, rfl, -⟩ := h
  intro hmem
  obtain ⟨⟨j, u⟩, hj, hjid⟩ := mem_map.mp hmem
  obtain ⟨c, -, hc, rfl⟩ := hd.issued j u hj
  have hcs := hd.counter_lt hc
  exact makeId_ne (UInt64.lt_trans hcs hlt) hlt (UInt64.ne_of_lt hcs) hjid

theorem issue (h : Created s admin policyType accounts cs id t)
    (hsimple : policyType.isSimple = true → cs = [])
    (hcomposite : policyType.isSimple = false → Composed r.issued cs) :
    (r.issue id policyType accounts.toFinset cs).Describes t := by
  have hfresh := hd.fresh h
  obtain ⟨hlt, hid, hnext, hword, hmembers, hchildren, -⟩ := h
  have hne : ∀ j u, (j, u) ∈ r.issued → j ≠ id := fun j u hj heq =>
    hfresh (heq ▸ mem_map_of_mem hj)
  refine ⟨Or.inr ?_, ?_, ?_, ?_, ?_, ?_, ?_, ?_, ?_, ?_⟩
  · rw [hnext]
    exact UInt64.le_of_lt (counter_lt_succ hlt two_le_seeded)
  · rw [hnext, UInt64.le_iff_toNat_le]
    have := lt_iff_toNat_lt.mp hlt
    exact le_trans (Nat.mod_le _ _) this
  · intro j u hj
    rw [hnext]
    rcases mem_cons.mp hj with heq | hj
    · cases heq
      exact ⟨_, two_le_seeded, counter_lt_succ hlt (UInt64.le_refl _), hid⟩
    · obtain ⟨c, hc, hcs, hjc⟩ := hd.issued j u hj
      exact ⟨c, hc, counter_lt_succ hlt (UInt64.le_of_lt (hd.counter_lt hcs)), hjc⟩
  · exact nodup_cons.mpr ⟨hfresh, hd.nodup⟩
  · intro j hj
    rw [hword]
    show _ ↔ j ∈ id :: r.ids
    by_cases hji : j = id
    · subst hji
      simp
    · rw [update_of_ne hji, seeded_policies hj, hd.written j hj]
      simp [hji]
  · intro j hj a
    show _ = decide (a ∈ update r.members id accounts.toFinset j)
    rw [hmembers]
    show (if j = id ∧ a ∈ accounts then true else s.members j a) = _
    rw [hd.members j hj a]
    by_cases hji : j = id
    · subst hji
      rw [hd.unissued j hj hfresh]
      simp
    · simp [hji]
  · intro j hj hmem
    obtain ⟨hji, hmem⟩ : j ≠ id ∧ j ∉ r.ids := not_or.mp (mt mem_cons.mpr hmem)
    show update r.members id accounts.toFinset j = ∅
    rw [update_of_ne hji, hd.unissued j hj hmem]
  · rw [hchildren, hd.children]
    rfl
  · intro j u hj hu
    obtain ⟨hmin, hmax, hall⟩ : Composed r.issued (update r.children id cs j) := by
      rcases mem_cons.mp hj with heq | hj
      · cases heq
        rw [update_self]
        exact hcomposite hu
      · rw [update_of_ne (hne j u hj)]
        exact hd.composite j u hj hu
    exact ⟨hmin, hmax, fun child hchild =>
      (hall child hchild).imp fun _ hu => ⟨mem_cons_of_mem _ hu.1, hu.2⟩⟩
  · intro j hj
    show update r.children id cs j = []
    by_cases hji : j = id
    · subst hji
      rw [update_self]
      exact hsimple (hj policyType mem_cons_self)
    · rw [update_of_ne hji]
      exact hd.leaf j fun u hu => hj u (mem_cons_of_mem _ hu)

/-! ## Changes to a policy -/

/-- The type of an issued policy is in its identifier. -/
theorem policyIdType_eq {u : PolicyType}
    (h : (id, u) ∈ r.issued) : policyIdType id = u.asDiscriminant := by
  obtain ⟨-, -, -, rfl⟩ := hd.issued id u h
  exact policyIdType_makeId _ _

theorem isComposite_eq {u : PolicyType}
    (h : (id, u) ∈ r.issued) : isComposite id = !u.isSimple := by
  unfold isComposite
  rw [hd.policyIdType_eq h]
  cases u <;> rfl

theorem exists_issued (hbuiltin : isBuiltin id = false)
    (hwritten : (fromRaw (s.policies id)).isWritten = true) : ∃ u, (id, u) ∈ r.issued := by
  obtain ⟨⟨j, u⟩, hmem, rfl⟩ := mem_map.mp ((hd.written id hbuiltin).mp hwritten)
  exact ⟨u, hmem⟩

/-- Children that pass the checks are issued policies of a simple type. -/
theorem children_ok (h : ValidChildren s cs) : Composed r.issued cs := by
  refine ⟨h.two_le, h.le_four, fun child hchild => ?_⟩
  obtain ⟨hwritten, hbuiltin, hkind⟩ := h.child child hchild
  obtain ⟨w, hw⟩ := hd.exists_issued hbuiltin hwritten
  rw [hd.isComposite_eq hw] at hkind
  exact ⟨w, hw, by simpa using hkind⟩

theorem rewrite (hcounter : t.nextCounter = s.nextCounter)
    (hmembers : t.members = s.members) (hchildren : t.children = s.children)
    (hwritten : ∀ j, (fromRaw (t.policies j)).isWritten =
      (fromRaw (s.policies j)).isWritten) : r.Describes t where
  counter := hcounter ▸ hd.counter
  counter_le := hcounter ▸ hd.counter_le
  issued := hcounter ▸ hd.issued
  nodup := hd.nodup
  written j hj := (hwritten j).symm ▸ hd.written j hj
  members := hmembers ▸ hd.members
  unissued := hd.unissued
  children := hchildren.trans hd.children
  composite := hd.composite
  leaf := hd.leaf

end Registry.Describes

theorem isWritten_update {p : PackedPolicy} (hp : p.isWritten = true)
    (hid : (fromRaw (s.policies id)).isWritten = true) (j : UInt64) :
    (fromRaw (update s.policies id p.intoU256 j)).isWritten = (fromRaw (s.policies j)).isWritten := by
  by_cases hji : j = id
  · subst hji
    rw [update_self, fromRaw_intoU256, hp, hid]
  · rw [update_of_ne hji]

theorem Registry.Describes.setChildren (hd : r.Describes s)
    (hwritten : (fromRaw (s.policies id)).isWritten = true) (hkind : isComposite id = true)
    (hcs : Composed r.issued cs) :
    (r.setChildren id cs).Describes { s with children := update s.children id cs } := by
  have hbuiltin : isBuiltin id = false := by
    by_contra hb
    rw [Bool.not_eq_false] at hb
    rcases Bool.or_eq_true_iff.mp hb with h | h
    all_goals
      rw [of_decide_eq_true h] at hkind
      exact absurd hkind (by decide)
  obtain ⟨w, hw⟩ := hd.exists_issued hbuiltin hwritten
  have hsimple : w.isSimple = false := by
    rw [hd.isComposite_eq hw] at hkind
    simpa using hkind
  refine ⟨hd.counter, hd.counter_le, hd.issued, hd.nodup, hd.written, hd.members, hd.unissued,
    ?_, ?_, ?_⟩
  · show update s.children id cs = update r.children id cs
    rw [hd.children]
  · intro j u hj hu
    show Composed r.issued (update r.children id cs j)
    by_cases hji : j = id
    · subst hji
      rwa [update_self]
    · rw [update_of_ne hji]
      exact hd.composite j u hj hu
  · intro j hj
    show update r.children id cs j = []
    by_cases hji : j = id
    · subst hji
      rw [hj w hw] at hsimple
      cases hsimple
    · rw [update_of_ne hji]
      exact hd.leaf j hj

theorem Registry.Describes.updateMembers (hd : r.Describes s) {add : Bool}
    (hwritten : (fromRaw (s.policies id)).isWritten = true) :
    (r.updateMembers id add accounts).Describes
      { s with
        members := fun j a => if j = id ∧ a ∈ accounts then add else s.members j a } := by
  refine ⟨hd.counter, hd.counter_le, hd.issued, hd.nodup, hd.written, ?_, ?_, hd.children,
    hd.composite, hd.leaf⟩
  · intro j hj a
    show (if j = id ∧ a ∈ accounts then add else s.members j a) = decide (a ∈ update r.members id _ j)
    rw [hd.members j hj a]
    by_cases hji : j = id
    · subst hji
      cases add <;> by_cases ha : a ∈ accounts <;> simp [ha]
    · simp [hji]
  · intro j hj hmem
    show update r.members id _ j = ∅
    by_cases hji : j = id
    · subst hji
      exact absurd ((hd.written j hj).mp hwritten) hmem
    · rw [update_of_ne hji]
      exact hd.unissued j hj hmem

end

end NodeReth
