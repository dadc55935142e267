import NodeReth.Precompiles.B20.Runs

/-!
# Funds

The part of an operation's effect that concerns balances, allowances, nonces and the supply, and
how the updates of the ledger change them.
-/

namespace NodeReth

open B20AssetStorage B20Guards BitVec Bytes Checked Effects Function

variable {env : B20Env} {ctx : CallContext} {privileged : Bool}
variable {s t : B20AssetStorage} {o : B20Operation}

/-- The two storages agree on what the accounts own and owe. -/
structure SameFunds (s t : B20AssetStorage) : Prop where
  balances : t.balances = s.balances
  totalSupply : t.totalSupply = s.totalSupply
  supplyCap : t.supplyCap = s.supplyCap
  allowances : t.allowances = s.allowances
  nonces : t.nonces = s.nonces

theorem SameFunds.trans {u : B20AssetStorage} (h : SameFunds s t) (h' : SameFunds t u) :
    SameFunds s u :=
  ⟨h'.1.trans h.1, h'.2.trans h.2, h'.3.trans h.3, h'.4.trans h.4, h'.5.trans h.5⟩

theorem SameLedger.sameFunds (h : SameLedger s t) : SameFunds s t :=
  ⟨h.balances, h.totalSupply, h.supplyCap, h.allowances, h.nonces⟩

theorem sameFunds_setRoleMemberCount (role : B256) (n : U256) :
    SameFunds s (s.setRoleMemberCount role n) := by
  unfold setRoleMemberCount
  split_ifs <;> exact ⟨rfl, rfl, rfl, rfl, rfl⟩

theorem sameFunds_granted (role : B256) (account : Address) : SameFunds s (s.granted role account) := by
  unfold granted
  split_ifs
  · exact ⟨rfl, rfl, rfl, rfl, rfl⟩
  · exact .trans (t := s.setRole role account true) ⟨rfl, rfl, rfl, rfl, rfl⟩
      (sameFunds_setRoleMemberCount _ _)

theorem sameFunds_revoked (role : B256) (account : Address) : SameFunds s (s.revoked role account) := by
  unfold revoked
  split_ifs
  · exact .trans (t := s.setRole role account false) ⟨rfl, rfl, rfl, rfl, rfl⟩
      (sameFunds_setRoleMemberCount _ _)
  · exact ⟨rfl, rfl, rfl, rfl, rfl⟩

theorem RightsStep.sameFunds (h : RightsStep ctx privileged s o t) : SameFunds s t := by
  cases h with
  | updatePolicy _ | setRoleAdmin _ => exact ⟨rfl, rfl, rfl, rfl, rfl⟩
  | grantRole _ => exact sameFunds_granted _ _
  | revokeRole _ _ | renounceRole _ | renounceLastAdmin _ _ => exact sameFunds_revoked _ _

/-- A successful operation touches no balance, or it belongs to a feature that is not paused. -/
theorem Effect.feature (h : Effect env ctx privileged s o t) :
    (o.feature = none ∧ t.balances = s.balances) ∨
      ∃ f, o.feature = some f ∧ s.paused &&& f.mask = 0 := by
  cases h with
  | quiet ho hsame _ => exact .inl ⟨by cases o <;> cases ho <;> rfl, hsame.balances⟩
  | rights hstep hsame =>
    exact .inl ⟨by cases hstep <;> rfl, hsame.balances.trans hstep.sameFunds.balances⟩
  | updateSupplyCap ho _ _ _ hsame => exact .inl ⟨by rw [ho]; rfl, hsame.balances⟩
  | funds hstep hsame =>
    cases hstep with
    | approve | permit _ _ => exact .inl ⟨rfl, hsame.balances⟩
    | transfer ho hpaused _ | transferFrom ho hpaused _ _ =>
      exact .inr ⟨.transfer, by cases o <;> cases ho <;> rfl, hpaused⟩
    | mint ho hpaused _ => exact .inr ⟨_, ho, hpaused⟩
    | burn ho hpaused _ _ => exact .inr ⟨.burn, by cases o <;> cases ho <;> rfl, hpaused⟩
    | burnBlocked hpaused _ _ _ _ | seizeWithMemo hpaused _ _ _ => exact .inr ⟨_, rfl, hpaused⟩

/-! ## Updates of balances and allowances -/

variable {amount : U256} {sender receiver a owner spender : Address}

theorem eq_of_moved_balances_lt (hcan : s.CanMove sender receiver amount)
    (h : (s.moved sender receiver amount).balances a < s.balances a) : a = sender := by
  by_contra hne
  have hroom := hcan.room
  have hmoved : (s.moved sender receiver amount).balances =
      update (update s.balances sender (s.balances sender - amount)) receiver
        (update s.balances sender (s.balances sender - amount) receiver + amount) := rfl
  rw [hmoved] at h
  by_cases hreceiver : a = receiver
  · subst hreceiver
    rw [update_of_ne hne] at hroom
    rw [update_self, update_of_ne hne, lt_def, toNat_add_of_lt hroom] at h
    omega
  · rw [update_of_ne hreceiver, update_of_ne hne] at h
    exact absurd h (BitVec.lt_irrefl _)

theorem eq_of_burned_balances_lt
    (h : (s.burned sender amount).balances a < s.balances a) : a = sender := by
  by_contra hne
  have hburned : (s.burned sender amount).balances a = s.balances a := update_of_ne hne _ _
  rw [hburned] at h
  exact absurd h (BitVec.lt_irrefl _)

theorem balances_le_minted (hcan : s.CanMint receiver amount)
    (a : Address) : s.balances a ≤ (s.minted receiver amount).balances a := by
  have hminted : (s.minted receiver amount).balances =
      update s.balances receiver (s.balances receiver + amount) := rfl
  rw [hminted, le_def]
  by_cases ha : a = receiver
  · subst ha
    rw [update_self, toNat_add_of_lt hcan.room]
    omega
  · rw [update_of_ne ha]

theorem balances_le_of_mintSteps (h : Relation.ReflTransGen MintStep s t) (a : Address) :
    s.balances a ≤ t.balances a := by
  induction h with
  | refl => exact BitVec.le_refl _
  | tail _ hstep ih =>
    obtain ⟨_, _, hcan, hsame⟩ := hstep
    rw [hsame.balances]
    exact BitVec.le_trans ih (balances_le_minted hcan a)

theorem allowances_of_mintSteps (h : Relation.ReflTransGen MintStep s t) :
    t.allowances = s.allowances ∧ t.nonces = s.nonces := by
  induction h with
  | refl => exact ⟨rfl, rfl⟩
  | tail _ hstep ih =>
    obtain ⟨_, _, _, hsame⟩ := hstep
    exact ⟨hsame.allowances.trans ih.1, hsame.nonces.trans ih.2⟩

theorem eq_of_setAllowance_lt {b : Address}
    (h : s.allowances a b < (s.setAllowance owner spender amount).allowances a b) :
    a = owner ∧ b = spender := by
  have hset : (s.setAllowance owner spender amount).allowances = update s.allowances owner
      (update (s.allowances owner) spender amount) := rfl
  rw [hset] at h
  by_contra hne
  by_cases ha : a = owner
  · subst ha
    have hb : b ≠ spender := fun hb => hne ⟨rfl, hb⟩
    rw [update_self, update_of_ne hb] at h
    exact absurd h (BitVec.lt_irrefl _)
  · rw [update_of_ne ha] at h
    exact absurd h (BitVec.lt_irrefl _)

theorem setAllowance_self :
    (s.setAllowance owner spender amount).allowances owner spender = amount := by
  show update s.allowances owner _ owner spender = amount
  rw [update_self, update_self]

theorem spent_balances : (s.spent owner spender amount).balances = s.balances := by
  unfold spent
  split_ifs <;> rfl

theorem spent_nonces : (s.spent owner spender amount).nonces = s.nonces := by
  unfold spent
  split_ifs <;> rfl

theorem spent_allowances_le (hle : amount ≤ s.allowances owner spender) (a b : Address) :
    ¬s.allowances a b < (s.spent owner spender amount).allowances a b := by
  unfold spent
  split_ifs with hinfinite
  · exact BitVec.lt_irrefl _
  · intro h
    obtain ⟨rfl, rfl⟩ := eq_of_setAllowance_lt h
    rw [setAllowance_self, lt_def, toNat_sub_of_le hle] at h
    omega

theorem spent_infinite (hinfinite : s.allowances owner spender = allOnes 256) :
    (s.spent owner spender amount).allowances owner spender = allOnes 256 := by
  rwa [spent, if_pos hinfinite]

/-- Who is within a finite allowance uses up exactly the amount. -/
theorem spent_finite (hle : amount ≤ s.allowances owner spender)
    (hfinite : s.allowances owner spender ≠ allOnes 256) :
    ((s.spent owner spender amount).allowances owner spender).toNat + amount.toNat =
      (s.allowances owner spender).toNat := by
  have hnat := le_def.mp hle
  rw [spent, if_neg hfinite, setAllowance_self, toNat_sub_of_le hle]
  omega

theorem nonces_le_setNonce (h : (s.nonces owner).toNat + 1 < 2 ^ 256)
    (a : Address) : s.nonces a ≤ (s.setNonce owner (s.nonces owner + 1)).nonces a := by
  show s.nonces a ≤ update s.nonces owner (s.nonces owner + 1) a
  by_cases ha : a = owner
  · subst ha
    rw [update_self, le_def, toNat_add_of_lt h]
    omega
  · rw [update_of_ne ha]
    exact BitVec.le_refl _

theorem setNonce_next (h : (s.nonces owner).toNat + 1 < 2 ^ 256) :
    ((s.setNonce owner (s.nonces owner + 1)).nonces owner).toNat = (s.nonces owner).toNat + 1 := by
  show (update s.nonces owner (s.nonces owner + 1) owner).toNat = _
  rw [update_self]
  exact toNat_add_of_lt h

end NodeReth
