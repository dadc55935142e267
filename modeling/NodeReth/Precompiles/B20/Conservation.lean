import NodeReth.Precompiles.B20.Funds

/-!
# Conservation

The balances of a token sum up to its supply, the supply is within the cap, and the cap within its
bound, in every storage that a token passes through. So the checked arithmetic of the operations
that move funds never fails, except for the supply that an absurd mint would lead to.
-/

namespace NodeReth

open AssetV2 B20AssetStorage B20Guards BitVec Bytes Checked Effects Function List

variable {env : B20Env} {abi : AssetAbi} {ctx : CallContext} {privileged : Bool} {depth : ℕ}
variable {s t : B20AssetStorage} {o : B20Operation}
  {amount : U256} {receiver sender : Address} {v : AbiValue}

structure B20AssetStorage.Solvent (s : B20AssetStorage) : Prop where
  conserved : total s.balances = s.totalSupply.toNat
  capped : s.totalSupply ≤ s.supplyCap
  bounded : s.supplyCap ≤ b20MaxSupplyCap

namespace B20AssetStorage.Solvent

section

variable (h : s.Solvent)

include h

theorem congr (hsame : SameFunds s t) : t.Solvent where
  conserved := by
    rw [hsame.balances, hsame.totalSupply]
    exact h.conserved
  capped := by
    rw [hsame.supplyCap, hsame.totalSupply]
    exact h.capped
  bounded := by
    rw [hsame.supplyCap]
    exact h.bounded

theorem supply_lt : s.totalSupply.toNat < 2 ^ 128 := by
  have hcap := le_def.mp h.capped
  have hmax := le_def.mp h.bounded
  have hvalue : b20MaxSupplyCap.toNat = 2 ^ 128 - 1 := by decide
  omega

theorem balance_le (a : Address) : (s.balances a).toNat ≤ s.totalSupply.toNat :=
  (toNat_le_total s.balances a).trans_eq h.conserved

theorem moved (hcan : s.CanMove sender receiver amount) :
    (s.moved sender receiver amount).Solvent where
  conserved := (total_move hcan.covered hcan.room).trans h.conserved
  capped := h.capped
  bounded := h.bounded

theorem spent (owner spender : Address) (amount : U256) : (s.spent owner spender amount).Solvent := by
  unfold B20AssetStorage.spent
  split_ifs
  · exact h
  · exact ⟨h.conserved, h.capped, h.bounded⟩

theorem minted (hcan : s.CanMint receiver amount) :
    (s.minted receiver amount).Solvent where
  conserved := by
    have hupdate := total_update s.balances receiver (s.balances receiver + amount)
    have hsupply := toNat_add_of_lt hcan.supplyRoom
    have hconserved := h.conserved
    rw [toNat_add_of_lt hcan.room] at hupdate
    show total (update s.balances receiver _) = (s.totalSupply + amount).toNat
    omega
  capped := hcan.capped
  bounded := h.bounded

theorem burned (hcovered : amount ≤ s.balances sender) (hsupply : amount ≤ s.totalSupply) :
    (s.burned sender amount).Solvent where
  conserved := by
    have hupdate := total_update s.balances sender (s.balances sender - amount)
    have hconserved := h.conserved
    have hle := le_def.mp hcovered
    have hburned := toNat_sub_of_le hsupply
    rw [toNat_sub_of_le hcovered] at hupdate
    show total (update s.balances sender _) = (s.totalSupply - amount).toNat
    omega
  capped := by
    refine BitVec.le_trans ?_ h.capped
    show s.totalSupply - amount ≤ s.totalSupply
    rw [le_def, toNat_sub_of_le hsupply]
    omega
  bounded := h.bounded

theorem setSupplyCap {cap : U256} (hsupply : s.totalSupply ≤ cap)
    (hmax : cap ≤ b20MaxSupplyCap) : (s.setSupplyCap cap).Solvent :=
  ⟨h.conserved, hsupply, hmax⟩

theorem of_mintSteps (hsteps : Relation.ReflTransGen MintStep s t) : t.Solvent := by
  induction hsteps with
  | refl => exact h
  | tail _ hstep ih =>
    obtain ⟨_, _, hcan, hsame⟩ := hstep
    exact (ih.minted hcan).congr hsame.sameFunds

end

end B20AssetStorage.Solvent

theorem FundsStep.solvent (h : FundsStep env ctx privileged s o t) (hs : s.Solvent) :
    t.Solvent := by
  cases h with
  | transfer _ _ hcan | seizeWithMemo _ _ _ hcan => exact hs.moved hcan
  | transferFrom _ _ _ hcan => exact (hs.moved hcan).spent _ _ _
  | mint _ _ hsteps => exact hs.of_mintSteps hsteps
  | burn _ _ hcovered hsupply | burnBlocked _ _ _ hcovered hsupply =>
    exact hs.burned hcovered hsupply
  | approve | permit _ _ => exact ⟨hs.conserved, hs.capped, hs.bounded⟩

theorem Effect.solvent (h : Effect env ctx privileged s o t) (hs : s.Solvent) : t.Solvent := by
  cases h with
  | quiet _ hsame _ => exact hs.congr hsame.sameFunds
  | funds hstep hsame => exact (hstep.solvent hs).congr hsame.sameFunds
  | rights hstep hsame => exact hs.congr (hstep.sameFunds.trans hsame.sameFunds)
  | updateSupplyCap _ _ hsupply hmax hsame =>
    exact (hs.setSupplyCap hsupply hmax).congr hsame.sameFunds

/-! ## Guards do not overflow -/

theorem avoids_orUnderOverflow {o : Option U256} (h : o ≠ none) :
    Avoids .underOverflow (orUnderOverflow o) s := by
  intro t herr
  exact h (orUnderOverflow_error_iff.mp herr).1

instance {check : TokenM Unit} [h : Check .underOverflow check] :
    Check .underOverflow (unlessPrivileged privileged check) := by
  unfold unlessPrivileged
  split_ifs
  · exact ⟨reads_pure _, fun _ => (succeeds_pure _).avoids⟩
  · exact h

instance (caller : Address) (role : B256) : Check .underOverflow (ensureRole caller role) :=
  ⟨reads_ensureRole _ _, fun _ => .get_bind (avoids_ensure (by nofun))⟩

instance (feature : PausableFeature) : Check .underOverflow (ensureNotPaused feature) :=
  ⟨reads_ensureNotPaused _, fun _ => .get_bind (avoids_ensure (by nofun))⟩

theorem avoids_isAuthorized (id : UInt64) (account : Address) :
    Avoids .underOverflow (isAuthorized env ctx id account) s := by
  intro t herr
  unfold isAuthorized at herr
  cases h : ctx.isAuthorized env id account with simp only [h] at herr
  | ok authorized | error e => cases herr

instance (scope : B256) (id : UInt64) (account : Address) :
    Check .underOverflow (ensureAuthorizedById env ctx scope id account) :=
  ⟨reads_ensureAuthorizedById _ _ _, fun _ =>
    (avoids_isAuthorized id account).bind fun _ _ _ => avoids_ensure (by nofun)⟩

instance (policyType : B20PolicyType) (account : Address) :
    Check .underOverflow (ensurePolicyType env ctx policyType account) := by
  refine ⟨reads_ensurePolicyType _ _, fun s t => ?_⟩
  rw [ensurePolicyType_eq]
  exact Check.avoids s t

theorem avoids_ensureNotAuthorized (policyType : B20PolicyType) (account : Address)
    {e : B20Error} (he : e ≠ .underOverflow) :
    Avoids .underOverflow (ensureNotAuthorized env ctx policyType account e) s := by
  have hid : Avoids .underOverflow (policyId policyType.id) s := by
    intro t
    rw [policyId_id]
    nofun
  exact hid.bind fun _ _ _ => (avoids_isAuthorized _ _).bind fun _ _ _ => avoids_ensure he

instance (account : Address) : Check .underOverflow (ensureBlocked env ctx account) :=
  ⟨reads_ensureNotAuthorized _ _ _, fun _ => avoids_ensureNotAuthorized _ _ (by nofun)⟩

instance (account : Address) : Check .underOverflow (ensureSeizable env ctx account) :=
  ⟨reads_ensureNotAuthorized _ _ _, fun _ => avoids_ensureNotAuthorized _ _ (by nofun)⟩

/-! ## Operations do not overflow -/

theorem succeeds_spend (c : Prop) [Decidable c] (f : B20AssetStorage → B20AssetStorage) :
    Succeeds (if c then pure () else modify f : TokenM PUnit) := by
  split_ifs
  · exact succeeds_pure _
  · exact succeeds_modify _

section

variable (hs : s.Solvent)

include hs

/-- The receiver of a transfer has room, also when it is the sender. -/
theorem B20AssetStorage.Solvent.room (hle : amount ≤ s.balances sender) :
    (update s.balances sender (s.balances sender - amount) receiver).toNat +
      amount.toNat < 2 ^ 256 := by
  have hsupply := hs.supply_lt
  have hsender := hs.balance_le sender
  have hreceiver := hs.balance_le receiver
  have hnat := le_def.mp hle
  by_cases h : receiver = sender
  · subst h
    rw [update_self, toNat_sub_of_le hle]
    omega
  · rw [update_of_ne h]
    omega

theorem avoids_moveBalance (sender receiver : Address) (amount : U256) :
    Avoids .underOverflow (moveBalance sender receiver amount) s := by
  refine .get_bind (.ensure_bind (fun hle => ?_) (by nofun))
  refine (avoids_orUnderOverflow ?_).bind fun _ u hsub => ?_
  · rw [Ne, checkedSub_eq_none_iff]
    exact BitVec.not_lt.mpr hle
  · obtain ⟨hsub, rfl⟩ := orUnderOverflow_ok_iff.mp hsub
    obtain ⟨-, rfl⟩ := checkedSub_eq_some_iff.mp hsub
    refine .modify_bind (.get_bind ((avoids_orUnderOverflow ?_).bind fun _ _ _ => ?_))
    · rw [Ne, checkedAdd_eq_none_iff, not_le]
      exact hs.room hle
    · exact ((succeeds_modify _).bind fun _ => succeeds_modify _).avoids

theorem avoids_burnInner (sender : Address) (amount : U256) :
    Avoids .underOverflow (burnInner sender amount) s := by
  refine .get_bind (.ensure_bind (fun hle => ?_) (by nofun))
  refine .modify_bind (.get_bind ((avoids_orUnderOverflow ?_).bind fun _ _ _ => ?_))
  · rw [Ne, checkedSub_eq_none_iff, BitVec.not_lt]
    exact le_def.mpr ((le_def.mp hle).trans (hs.balance_le sender))
  · exact ((succeeds_modify _).bind fun _ => succeeds_modify _).avoids

theorem AssetV1.avoids_transferInner (sender receiver : Address) (amount : U256) :
    Avoids .underOverflow (AssetV1.transferInner env ctx sender receiver amount privileged) s := by
  refine .ensure_bind (fun _ => ?_) (by nofun)
  refine .ensure_bind (fun _ => ?_) (by nofun)
  exact .check fun _ => avoids_moveBalance hs _ _ _

theorem avoids_transfer (receiver : Address) (amount : U256) :
    Avoids .underOverflow (transfer env ctx receiver amount privileged) s := by
  rw [transfer_eq_v1]
  exact .check fun _ => AssetV1.avoids_transferInner hs _ _ _

theorem avoids_transferFrom (sender receiver : Address) (amount : U256) :
    Avoids .underOverflow (transferFrom env ctx sender receiver amount privileged) s := by
  rw [transferFrom_eq_v1]
  refine .check fun _ => .ensure_bind (fun _ => ?_) (by nofun)
  refine .ensure_bind (fun _ => ?_) (by nofun)
  refine .get_bind (.ensure_bind (fun _ => .check fun _ => ?_) (by nofun))
  refine (AssetV1.avoids_transferInner hs _ _ _).bind fun _ _ _ => ?_
  exact (succeeds_spend _ _).avoids

theorem avoids_burn (amount : U256) : Avoids .underOverflow (burn ctx amount) s := by
  unfold burn ensureTokenRole
  exact .check fun _ => .check fun _ => avoids_burnInner hs _ _

theorem avoids_burnBlocked (sender : Address) (amount : U256) :
    Avoids .underOverflow (burnBlocked env ctx sender amount privileged) s := by
  unfold burnBlocked ensureTokenRole
  refine .check fun _ => .check fun _ => .check fun _ => ?_
  exact (avoids_burnInner hs _ _).bind fun _ _ _ => (succeeds_modify _).avoids

theorem avoids_seizeWithMemo (sender receiver : Address) (amount : U256) (memo : B256) :
    Avoids .underOverflow (seizeWithMemo env ctx sender receiver amount memo) s := by
  unfold seizeWithMemo ensureTokenRole
  cases ctx.version with
  | v1 => nofun
  | v2 =>
    refine .check fun _ => .check fun _ => .ensure_bind (fun _ => ?_) (by nofun)
    refine .ensure_bind (fun _ => .ensure_bind (fun _ => ?_) (by nofun)) (by nofun)
    refine .check fun _ => .check fun _ => ?_
    refine (avoids_moveBalance hs _ _ _).bind fun _ _ _ => ?_
    exact ((succeeds_modify _).bind fun _ => succeeds_modify _).avoids

/-- A mint overflows on the new supply only. -/
theorem avoids_mint (receiver : Address) (hlt : s.totalSupply.toNat + amount.toNat < 2 ^ 256) :
    Avoids .underOverflow (mint env ctx receiver amount privileged) s := by
  unfold mint ensureTokenRole
  refine .check fun _ => .check fun _ => .ensure_bind (fun _ => .check fun _ => ?_) (by nofun)
  refine .get_bind ((avoids_orUnderOverflow ?_).bind fun _ _ hadd => ?_)
  · rwa [Ne, checkedAdd_eq_none_iff, not_le]
  · obtain ⟨-, rfl⟩ := orUnderOverflow_ok_iff.mp hadd
    refine .ensure_bind (fun _ => ?_) (by nofun)
    refine .modify_bind (.get_bind ((avoids_orUnderOverflow ?_).bind fun _ _ _ => ?_))
    · rw [Ne, checkedAdd_eq_none_iff, not_le]
      exact (Nat.add_le_add_right (hs.balance_le receiver) _).trans_lt hlt
    · exact ((succeeds_modify _).bind fun _ => succeeds_modify _).avoids

/-- The mints of a batch, one after the other. -/
theorem avoids_mints {l : List (Address × U256)}
    (hlt : s.totalSupply.toNat + (l.map fun entry => entry.2.toNat).sum < 2 ^ 256) :
    Avoids .underOverflow (l.forM fun entry => mint env ctx entry.1 entry.2 true) s := by
  induction l generalizing s with
  | nil => exact (succeeds_pure _).avoids
  | cons entry l ih =>
    rw [map_cons, sum_cons] at hlt
    refine (avoids_mint hs entry.1 (by omega)).bind fun _ t hmint => ?_
    obtain ⟨-, hcan, hsame⟩ := mint_ok hmint
    refine ih ((hs.minted hcan).congr hsame.sameFunds) ?_
    have hsupply : (s.minted entry.1 entry.2).totalSupply.toNat =
        s.totalSupply.toNat + entry.2.toNat := toNat_add_of_lt hcan.supplyRoom
    rw [hsame.totalSupply]
    omega

theorem avoids_batchMint {recipients : List Address} {amounts : List U256}
    (hlt : s.totalSupply.toNat + (amounts.map BitVec.toNat).sum < 2 ^ 256) :
    Avoids .underOverflow (batchMint env ctx recipients amounts privileged) s := by
  unfold batchMint ensureTokenRole
  refine .check fun _ => .check fun _ => .ensure_bind (fun hlength => ?_) (by nofun)
  refine .ensure_bind (fun _ => ?_) (by nofun)
  refine avoids_mints hs ?_
  have hamounts : ((recipients.zip amounts).map fun entry => entry.2.toNat) =
      amounts.map BitVec.toNat := by
    have hsecond : (recipients.zip amounts).map Prod.snd = amounts := map_snd_zip hlength.ge
    have hwords := congrArg (map BitVec.toNat) hsecond
    rwa [map_map] at hwords
  rwa [hamounts]

end

namespace B20Operation

/-- What the operation asks to be added to the supply. -/
def mintedAmount : B20Operation → ℕ
  | mint _ amount | mintWithMemo _ amount _ => amount.toNat
  | batchMint _ amounts => (amounts.map BitVec.toNat).sum
  | _ => 0

end B20Operation

theorem avoids_then_return {x : TokenM Unit} {value : AbiValue} (h : Avoids .underOverflow x s) :
    Avoids .underOverflow (do x; return value) s :=
  h.bind fun _ _ _ => (succeeds_pure _).avoids

theorem avoids_then_memo {x : TokenM Unit} {memo : B256} {value : AbiValue}
    (h : Avoids .underOverflow x s) :
    Avoids .underOverflow (do x; emitMemo ctx memo; return value) s :=
  h.bind fun _ _ _ => ((succeeds_modify _).bind fun _ => succeeds_pure _).avoids

theorem avoids_handle (hs : s.Solvent) (ho : o.feature ≠ none)
    (hlt : s.totalSupply.toNat + o.mintedAmount < 2 ^ 256) :
    Avoids .underOverflow (handle env ctx privileged o) s := by
  cases o with
  | transfer receiver amount => exact avoids_then_return (avoids_transfer hs _ _)
  | transferWithMemo receiver amount memo => exact avoids_then_memo (avoids_transfer hs _ _)
  | transferFrom sender receiver amount => exact avoids_then_return (avoids_transferFrom hs _ _ _)
  | transferFromWithMemo sender receiver amount memo =>
    exact avoids_then_memo (avoids_transferFrom hs _ _ _)
  | mint receiver amount => exact avoids_then_return (avoids_mint hs _ hlt)
  | mintWithMemo receiver amount memo => exact avoids_then_memo (avoids_mint hs _ hlt)
  | batchMint recipients amounts => exact avoids_then_return (avoids_batchMint hs hlt)
  | burn amount => exact avoids_then_return (avoids_burn hs _)
  | burnWithMemo amount memo => exact avoids_then_memo (avoids_burn hs _)
  | burnBlocked sender amount => exact avoids_then_return (avoids_burnBlocked hs _ _)
  | seizeWithMemo sender receiver amount memo =>
    exact avoids_then_return (avoids_seizeWithMemo hs _ _ _ _)
  | _ => exact absurd rfl ho

/-! ## Plain subtractions do not wrap -/

/-- What a burn or the use of an allowance takes is exactly taken. -/
structure ExactlyTaken (ctx : CallContext) (o : B20Operation) (s t : B20AssetStorage) : Prop where
  burn : ∀ amount, o.asBurn = some amount →
    (t.balances ctx.caller).toNat + amount.toNat = (s.balances ctx.caller).toNat
  burnBlocked : ∀ sender amount, o = .burnBlocked sender amount →
    (t.balances sender).toNat + amount.toNat = (s.balances sender).toNat
  transferFrom : ∀ sender receiver amount, o.asTransferFrom = some (sender, receiver, amount) →
    s.allowances sender ctx.caller ≠ BitVec.allOnes 256 →
    (t.allowances sender ctx.caller).toNat + amount.toNat = (s.allowances sender ctx.caller).toNat

theorem burned_taken (hcovered : amount ≤ s.balances sender) :
    ((s.burned sender amount).balances sender).toNat + amount.toNat = (s.balances sender).toNat := by
  have hle := le_def.mp hcovered
  show (update s.balances sender _ sender).toNat + _ = _
  rw [update_self, toNat_sub_of_le hcovered]
  omega

theorem Effect.fundsStep (h : Effect env ctx privileged s o t) (ho : o.feature ≠ none) :
    ∃ r, FundsStep env ctx privileged s o r ∧ SameSlots r t := by
  cases h with
  | funds hstep hsame => exact ⟨_, hstep, hsame⟩
  | quiet hquiet _ _ => cases o <;> first | exact absurd rfl ho | cases hquiet
  | rights hstep _ => cases hstep <;> exact absurd rfl ho
  | updateSupplyCap hcap _ _ _ _ =>
    subst hcap
    exact absurd rfl ho

theorem handle_exactlyTaken (h : handle env ctx privileged o s = .ok v t) :
    ExactlyTaken ctx o s t where
  burn amount ho := by
    obtain ⟨r, hstep, hsame⟩ := (handle_ok h).fundsStep (by cases o <;> cases ho <;> nofun)
    rw [hsame.balances]
    cases hstep with
    | burn ho' _ hcovered _ =>
      cases ho.symm.trans ho'
      exact burned_taken hcovered
    | transfer ho' _ _ | transferFrom ho' _ _ _ | mint ho' _ _ => cases o <;> cases ho <;> cases ho'
    | burnBlocked _ _ _ _ _ | seizeWithMemo _ _ _ _ | approve | permit _ _ => cases ho
  burnBlocked sender amount ho := by
    subst ho
    obtain ⟨r, hstep, hsame⟩ := (handle_ok h).fundsStep nofun
    rw [hsame.balances]
    cases hstep with
    | burnBlocked _ _ _ hcovered _ => exact burned_taken hcovered
    | transfer ho _ _ | transferFrom ho _ _ _ | mint ho _ _ | burn ho _ _ _ => cases ho
  transferFrom sender receiver amount ho hfinite := by
    obtain ⟨r, hstep, hsame⟩ := (handle_ok h).fundsStep (by cases o <;> cases ho <;> nofun)
    rw [hsame.allowances]
    cases hstep with
    | transferFrom ho' _ hallowance _ =>
      cases ho.symm.trans ho'
      exact spent_finite (s := s.moved _ _ _) hallowance hfinite
    | transfer ho' _ _ | mint ho' _ _ | burn ho' _ _ _ => cases o <;> cases ho <;> cases ho'
    | burnBlocked _ _ _ _ _ | seizeWithMemo _ _ _ _ | approve | permit _ _ => cases ho

/-! ## Runs -/
/-! ## Runs -/

/-- The books are balanced, and no operation on funds can break its arithmetic. -/
structure Sound (env : B20Env) (s : B20AssetStorage) : Prop extends s.Solvent where
  /-- Only the new supply of a mint can be out of range. -/
  overflow : ∀ ctx privileged o t, o.feature ≠ none →
    handle env ctx privileged o s = .error .underOverflow t →
    o.feature = some .mint ∧ 2 ^ 256 ≤ s.totalSupply.toNat + o.mintedAmount
  exact : ∀ ctx privileged o v t, handle env ctx privileged o s = .ok v t → ExactlyTaken ctx o s t

theorem B20Operation.mintedAmount_eq_zero (ho : o.feature ≠ some .mint) : o.mintedAmount = 0 := by
  cases o <;> first | rfl | exact absurd rfl ho

theorem B20AssetStorage.Solvent.sound (hs : s.Solvent) : Sound env s where
  toSolvent := hs
  overflow ctx privileged o t ho herr := by
    have hout : 2 ^ 256 ≤ s.totalSupply.toNat + o.mintedAmount := by
      by_contra hlt
      exact avoids_handle hs ho (not_le.mp hlt) t herr
    refine ⟨?_, hout⟩
    by_contra hmint
    rw [B20Operation.mintedAmount_eq_zero hmint] at hout
    omega
  exact ctx privileged o v t h := handle_exactlyTaken h

theorem solvent_step {step : TokenStep} {u : Unit}
    (h : step.perform env ctx privileged s = .ok u t) (hs : s.Solvent) : t.Solvent :=
  perform_keeps (fun _ _ hsame hs => hs.congr hsame.sameFunds)
    (fun _ _ _ heffect => heffect.solvent) h hs

theorem solvent_performAll {steps : List TokenStep} {u : Unit}
    (h : performAll env ctx privileged steps s = .ok u t) (hs : s.Solvent) : t.Solvent :=
  forM_ok_related (fun s t => s.Solvent → t.Solvent) (fun _ hs => hs)
    (fun _ _ _ h h' hs => h' (h hs)) (fun _ _ _ hstep => solvent_step hstep) h hs

theorem solvent_fresh (address : Address) (params : B20AssetCreateParams) :
    (adminStorage address params).Solvent := by
  have hempty : (freshStorage address params).Solvent :=
    ⟨total_zero, BitVec.le_def.mpr (Nat.zero_le _), BitVec.le_refl _⟩
  unfold adminStorage
  split_ifs
  · exact hempty.congr (sameFunds_granted _ _)
  · exact hempty

theorem solvent_created {params : B20AssetCreateParams} {initCalls : List Bytes}
    {address : Address} {s₀ : B20AssetStorage}
    (hcreated : createB20Asset env abi ctx depth params initCalls (.empty address) = .ok () s₀) :
    s₀.Solvent :=
  created_invariant (fun _ _ hsame hs => hs.congr hsame.sameFunds)
    (fun _ _ _ heffect => heffect.solvent) (solvent_fresh address params) hcreated

/-- Every storage that a token passes through is sound: during its creation, at the end of every
run of calls, and after any steps that a further call takes, whether the call succeeds or not. -/
theorem token_conservation {params : B20AssetCreateParams} {initCalls : List Bytes}
    {address : Address} {s₀ : B20AssetStorage}
    (hcreated : createB20Asset env abi ctx depth params initCalls (.empty address) = .ok () s₀)
    (calls : List TokenCall) :
    (∀ r, r = runCalls env abi depth calls s₀ ∨
        (∃ w ∈ history env abi depth calls s₀, r = w.pre ∨ r = w.post) → Sound env r) ∧
    ∀ r ctx privileged steps t,
      SameLedger (adminStorage address params) r ∨ r = runCalls env abi depth calls s₀ →
      performAll env ctx privileged steps r = .ok () t → Sound env t := by
  have hkept : (runCalls env abi depth calls s₀).Solvent ∧
      ∀ w ∈ history env abi depth calls s₀, w.pre.Solvent ∧ w.post.Solvent :=
    history_invariant _ (fun _ _ _ _ _ => solvent_step) (solvent_created hcreated)
  obtain ⟨hlast, hmem⟩ := hkept
  constructor
  · rintro r (rfl | ⟨w, hw, rfl | rfl⟩)
    · exact hlast.sound
    · exact (hmem w hw).1.sound
    · exact (hmem w hw).2.sound
  · rintro r ctx privileged steps t (hfresh | rfl) hsteps
    · exact (solvent_performAll hsteps ((solvent_fresh address params).congr hfresh.sameFunds)).sound
    · exact (solvent_performAll hsteps hlast).sound

/-! ### A minter who asks for too much -/

namespace Minting

def minter : Address := ⟨replicate 20 1, by decide⟩

def params : B20AssetCreateParams := ⟨1, "Asset", "AST", minter, 6⟩

def grantData : Bytes :=
  [0x2f, 0x2f, 0xf1, 0x5d] ++ (B20TokenRole.mint.id.val ++ PermitArgs.abiAddress minter)

def mintData (amount : U256) : Bytes :=
  [0x40, 0xc1, 0x0f, 0x19] ++ (PermitArgs.abiAddress minter ++ PermitArgs.abiWord amount)

def mintAbi : AssetAbi where
  decode _ calldata :=
    if calldata = grantData then .ok (.operation (.grantRole B20TokenRole.mint.id minter))
    else if calldata = mintData 1 then .ok (.operation (.mint minter 1))
    else if calldata = mintData (BitVec.allOnes 256) then
      .ok (.operation (.mint minter (BitVec.allOnes 256)))
    else .error .unknownFunctionSelector

/-- Nothing is hashed or recovered. -/
def platform : B20Env := ⟨fun _ => B256.zero, fun _ _ _ _ => none, 1⟩

def context : CallContext := ⟨minter, 0, 8453, 0, .v2, .empty, fun _ => 0⟩

end Minting

open Minting

/-- With one unit minted, the sum of the supply and the largest amount is out of range. -/
theorem mint_underOverflow_reached :
    ∃ s₀ t, createB20Asset platform mintAbi context 1 params
        [grantData, mintData 1] (.empty factoryAddress) = .ok () s₀ ∧
      dispatch platform mintAbi context 1
        (mintData (BitVec.allOnes 256)) s₀ = .error .underOverflow t :=
  ⟨_, _, rfl, rfl⟩

theorem token_conservation_minted :
    ∃ s₀, createB20Asset platform mintAbi context 1 params
        [grantData, mintData 1] (.empty factoryAddress) = .ok () s₀ ∧
      s₀.totalSupply = 1 ∧
      Sound platform (runCalls platform mintAbi 1 [⟨context, mintData 1⟩] s₀) := by
  have hcreated : createB20Asset platform mintAbi context 1 params
      [grantData, mintData 1] (.empty factoryAddress) = .ok () _ := rfl
  exact ⟨_, hcreated, rfl, (token_conservation hcreated _).1 _ (.inl rfl)⟩

end NodeReth
