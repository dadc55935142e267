import NodeReth.Precompiles.B20.Conservation

/-!
# The multiplier

What the operations do to the slots of the multiplier, and what follows for whole runs. Under
`AssetV2` the effective multiplier follows a timeline, although a scheduled update that has taken
effect stays pending until another update folds it into the multiplier.
-/

namespace NodeReth

open AssetV2 B20AssetStorage B20Guards Bytes Checked Effects List

set_option synthInstance.maxSize 100000

variable {env : B20Env} {abi : AssetAbi} {ctx : CallContext} {privileged : Bool} {depth : ℕ}
variable {s t : B20AssetStorage} {o : B20Operation} {u : Unit} {m effectiveAt time : U256}

/-! ## Operations that leave the multiplier alone -/

def TokenStep.multiplierUpdate : TokenStep → Option MultiplierUpdate
  | operation o => o.multiplierUpdate
  | _ => none

theorem FundsStep.multiplierSlots (h : FundsStep env ctx privileged s o t) :
    t.multiplierSlots = s.multiplierSlots := by
  cases h with
  | transferFrom _ _ _ _ =>
    unfold spent
    split_ifs <;> rfl
  | mint _ _ hsteps =>
    induction hsteps with
    | refl => rfl
    | tail _ hstep ih =>
      obtain ⟨_, _, -, hsame⟩ := hstep
      exact hsame.multiplierSlots.trans ih
  | transfer _ _ _ | burn _ _ _ _ | burnBlocked _ _ _ _ _ | seizeWithMemo _ _ _ _ | approve
  | permit _ _ => rfl

theorem RightsStep.multiplierSlots (h : RightsStep ctx privileged s o t) :
    t.multiplierSlots = s.multiplierSlots := by
  cases h with
  | updatePolicy _ | setRoleAdmin _ => rfl
  | grantRole _ =>
    unfold granted setRoleMemberCount
    split_ifs <;> rfl
  | revokeRole _ _ | renounceRole _ | renounceLastAdmin _ _ =>
    unfold revoked setRoleMemberCount
    split_ifs <;> rfl

theorem Effect.multiplierSlots (h : Effect env ctx privileged s o t)
    (ho : o.multiplierUpdate = none) : t.multiplierSlots = s.multiplierSlots := by
  cases h with
  | quiet _ _ hslots => exact hslots ho
  | updateSupplyCap _ _ _ _ hsame => exact hsame.multiplierSlots
  | funds hstep hsame => exact hsame.multiplierSlots.trans hstep.multiplierSlots
  | rights hstep hsame => exact hsame.multiplierSlots.trans hstep.multiplierSlots

instance (event : B20Event) : Untouched multiplierSlots (emitEvent event) := ⟨fun _ => rfl⟩

/-! ## The effective multiplier -/

namespace B20AssetStorage

/-- A schedule is for a multiplier that is not zero. -/
def Scheduled (s : B20AssetStorage) : Prop := s.pendingEffectiveAt ≠ 0 → s.pendingMultiplier ≠ 0

theorem storedMultiplier_ne_zero (s : B20AssetStorage) : s.storedMultiplier ≠ 0 := by
  unfold storedMultiplier
  split_ifs with h
  · decide
  · exact h

theorem storedMultiplier_of_ne_zero (h : s.multiplier = m) (hm : m ≠ 0) : s.storedMultiplier = m := by
  unfold storedMultiplier
  rw [h, if_neg hm]

theorem multiplierAt_of_unscheduled (h : s.pendingEffectiveAt = 0) :
    s.multiplierAt time = s.storedMultiplier :=
  if_neg fun hpending => hpending.1 h

theorem multiplierAt_of_lt (h : time < s.pendingEffectiveAt.setWidth 256) :
    s.multiplierAt time = s.storedMultiplier :=
  if_neg fun hpending => absurd hpending.2 (BitVec.not_le.mpr h)

theorem setWidth_eq_zero_iff {v w : ℕ} (hw : v ≤ w) {p : BitVec v} : p.setWidth w = 0 ↔ p = 0 := by
  rw [← BitVec.toNat_inj, ← BitVec.toNat_inj, BitVec.toNat_setWidth_of_le hw]
  rfl

theorem Scheduled.multiplierAt_ne_zero (h : s.Scheduled) : s.multiplierAt time ≠ 0 := by
  unfold multiplierAt
  split_ifs with hpending
  · exact (setWidth_eq_zero_iff (by decide)).not.mpr (h hpending.1)
  · exact s.storedMultiplier_ne_zero

theorem multiplierAt_congr (h : t.multiplierSlots = s.multiplierSlots) :
    t.multiplierAt = s.multiplierAt ∧ (s.Scheduled → t.Scheduled) ∧
      t.storedMultiplier = s.storedMultiplier := by
  simp only [multiplierSlots, Prod.mk.injEq] at h
  obtain ⟨hmultiplier, hpending, hat⟩ := h
  refine ⟨funext fun time => ?_, fun hs => ?_, ?_⟩
  · simp [multiplierAt, storedMultiplier, hmultiplier, hpending, hat]
  · unfold Scheduled at hs ⊢
    rwa [hpending, hat]
  · simp [storedMultiplier, hmultiplier]

/-- Folding a schedule that has taken effect into the multiplier changes nothing. -/
theorem storedMultiplier_fold (h : t.multiplier =
      if s.pendingEffectiveAt ≠ 0 then s.pendingMultiplier.setWidth 256 else s.multiplier)
    (hs : s.Scheduled) (htime : s.pendingEffectiveAt.setWidth 256 ≤ time) :
    t.storedMultiplier = s.multiplierAt time := by
  by_cases hpending : s.pendingEffectiveAt = 0
  · rw [if_neg (not_not.mpr hpending)] at h
    rw [multiplierAt_of_unscheduled hpending]
    simp [storedMultiplier, h]
  · rw [if_pos hpending] at h
    rw [multiplierAt, if_pos ⟨hpending, htime⟩]
    exact storedMultiplier_of_ne_zero h ((setWidth_eq_zero_iff (by decide)).not.mpr (hs hpending))

end B20AssetStorage

/-! ## Operations on the multiplier -/

theorem ensureOperatorRole_ok (h : ensureOperatorRole ctx privileged s = .ok u t) : s = t :=
  ((reads_unlessPrivileged _ (reads_ensureRole _ _)).1 _ _ _ h).symm

theorem AssetV1.updateMultiplier_ok (h : AssetV1.updateMultiplier ctx m privileged s = .ok u t) :
    t.pendingMultiplier = s.pendingMultiplier ∧ t.pendingEffectiveAt = s.pendingEffectiveAt := by
  unfold AssetV1.updateMultiplier at h
  simp only [bind_ok_iff, ensure_ok_iff, modify_ok_iff] at h
  obtain ⟨_, _, hrole, _, _, ⟨-, rfl⟩, _, _, rfl, rfl⟩ := h
  obtain rfl := ensureOperatorRole_ok hrole
  exact ⟨rfl, rfl⟩

namespace AssetV2

theorem updateMultiplier_ok (h : updateMultiplier ctx m privileged s = .ok u t) :
    m ≠ 0 ∧ m ≤ maxUiMultiplier ∧ t.multiplier = m ∧ t.pendingEffectiveAt = 0 := by
  unfold updateMultiplier at h
  simp only [bind_ok_iff, ensure_ok_iff, modify_ok_iff, get_bind] at h
  obtain ⟨_, _, hrole, _, _, ⟨hm, hens⟩, _, _, rfl, h⟩ := h
  obtain rfl := ensureOperatorRole_ok hrole
  obtain rfl := hens.symm
  refine ⟨hm.1, hm.2, ?_⟩
  have hslots (r : B20AssetStorage) (events : TokenM Unit) [hevents : Frames multiplierSlots events]
      (h : events r = .ok u t) :
      t.multiplier = r.multiplier ∧ t.pendingEffectiveAt = r.pendingEffectiveAt := by
    have heq := hevents.keeps.1 r u t h
    simp only [multiplierSlots, Prod.mk.injEq] at heq
    exact ⟨heq.1, heq.2.2⟩
  by_cases hpending : s.pendingEffectiveAt = 0
  · rw [if_neg (not_not.mpr ((setWidth_eq_zero_iff (by decide)).mpr hpending))] at h
    obtain ⟨hmultiplier, hat⟩ := hslots _ _ h
    exact ⟨hmultiplier, hat.trans hpending⟩
  · rw [if_pos ((setWidth_eq_zero_iff (by decide)).not.mpr hpending)] at h
    obtain ⟨_, _, hwrite, h⟩ := bind_ok_iff.mp h
    obtain rfl := modify_ok_iff.mp hwrite
    exact hslots _ _ h

end AssetV2

theorem updateUiMultiplier_ok (h : updateUiMultiplier ctx m effectiveAt privileged s = .ok u t) :
    m ≠ 0 ∧ m ≤ maxUiMultiplier ∧ ctx.timestamp < effectiveAt ∧
      effectiveAt ≤ BitVec.ofNat 256 (2 ^ 64 - 1) ∧
      s.pendingEffectiveAt.setWidth 256 ≤ ctx.timestamp ∧
      t.multiplier = (if s.pendingEffectiveAt ≠ 0 then s.pendingMultiplier.setWidth 256
        else s.multiplier) ∧
      t.pendingMultiplier = m.setWidth 128 ∧ t.pendingEffectiveAt = effectiveAt.setWidth 64 := by
  unfold updateUiMultiplier at h
  cases hversion : ctx.version with
  | v1 => rw [hversion] at h; cases h
  | v2 =>
  rw [hversion] at h
  unfold AssetV2.updateUiMultiplier at h
  simp only [bind_ok_iff, ensure_ok_iff, get_bind] at h
  obtain ⟨_, _, hrole, _, _, ⟨hm, rfl⟩, _, _, ⟨hfuture, rfl⟩, _, _, ⟨hnear, rfl⟩, _, _,
    ⟨hidle, rfl⟩, h⟩ := h
  obtain rfl := ensureOperatorRole_ok hrole
  refine ⟨hm.1, hm.2, hfuture, hnear, hidle, ?_⟩
  split_ifs at h ⊢ with hpending
  · obtain ⟨_, _, rfl, _, _, rfl, rfl⟩ := h
    exact ⟨rfl, rfl, rfl⟩
  · obtain ⟨_, _, rfl, rfl⟩ := h
    exact ⟨rfl, rfl, rfl⟩

theorem cancelUiMultiplierUpdate_ok (h : cancelUiMultiplierUpdate ctx privileged s = .ok u t) :
    ctx.timestamp < s.pendingEffectiveAt.setWidth 256 ∧ t.multiplier = s.multiplier ∧
      t.pendingEffectiveAt = 0 := by
  unfold cancelUiMultiplierUpdate at h
  cases hversion : ctx.version with
  | v1 => rw [hversion] at h; cases h
  | v2 =>
  rw [hversion] at h
  unfold AssetV2.cancelUiMultiplierUpdate at h
  simp only [bind_ok_iff, ensure_ok_iff, modify_ok_iff, get_bind] at h
  obtain ⟨_, _, hrole, _, _, ⟨hlive, rfl⟩, _, _, rfl, rfl⟩ := h
  obtain rfl := ensureOperatorRole_ok hrole
  exact ⟨hlive, rfl, rfl⟩

/-- What a step does to the slots of the multiplier. -/
inductive MultiplierEffect (ctx : CallContext) (s t : B20AssetStorage) (step : TokenStep) : Prop
  | spared (hstep : step.multiplierUpdate = none) (hslots : t.multiplierSlots = s.multiplierSlots)
  | setV1 {m : U256} (hstep : step.multiplierUpdate = some (.set m)) (hversion : ctx.version = .v1)
      (hpending : t.pendingMultiplier = s.pendingMultiplier)
      (hat : t.pendingEffectiveAt = s.pendingEffectiveAt)
  | set {m : U256} (hstep : step.multiplierUpdate = some (.set m)) (hm : m ≠ 0)
      (hmax : m ≤ maxUiMultiplier) (hmultiplier : t.multiplier = m)
      (hat : t.pendingEffectiveAt = 0)
  | schedule {m effectiveAt : U256}
      (hstep : step.multiplierUpdate = some (.schedule m effectiveAt))
      (hm : m ≠ 0) (hmax : m ≤ maxUiMultiplier) (hfuture : ctx.timestamp < effectiveAt)
      (hnear : effectiveAt ≤ BitVec.ofNat 256 (2 ^ 64 - 1))
      (hidle : s.pendingEffectiveAt.setWidth 256 ≤ ctx.timestamp)
      (hmultiplier : t.multiplier =
        if s.pendingEffectiveAt ≠ 0 then s.pendingMultiplier.setWidth 256 else s.multiplier)
      (hpending : t.pendingMultiplier = m.setWidth 128)
      (hat : t.pendingEffectiveAt = effectiveAt.setWidth 64)
  | cancel (hstep : step.multiplierUpdate = some .cancel)
      (hlive : ctx.timestamp < s.pendingEffectiveAt.setWidth 256)
      (hmultiplier : t.multiplier = s.multiplier) (hat : t.pendingEffectiveAt = 0)

theorem perform_multiplier {step : TokenStep} (h : step.perform env ctx privileged s = .ok u t) :
    MultiplierEffect ctx s t step := by
  cases step with
  | beginAnnounce _ _ _ | endAnnounce _ => exact .spared rfl (perform_ok h).multiplierSlots
  | operation o =>
    obtain ⟨v, _, hhandle, hreturn⟩ := bind_ok_iff.mp h
    obtain rfl := (pure_ok_iff.mp hreturn).2.symm
    cases o with
    | updateMultiplier m =>
      have hupdate := then_return_ok hhandle
      unfold updateMultiplier at hupdate
      cases hversion : ctx.version with rw [hversion] at hupdate
      | v1 =>
        obtain ⟨hpending, hat⟩ := AssetV1.updateMultiplier_ok hupdate
        exact .setV1 rfl hversion hpending hat
      | v2 =>
        obtain ⟨hm, hmax, hmultiplier, hat⟩ := updateMultiplier_ok hupdate
        exact .set rfl hm hmax hmultiplier hat
    | updateUIMultiplier m effectiveAt =>
      obtain ⟨hm, hmax, hfuture, hnear, hidle, hmultiplier, hpending, hat⟩ :=
        updateUiMultiplier_ok (then_return_ok hhandle)
      exact .schedule rfl hm hmax hfuture hnear hidle hmultiplier hpending hat
    | cancelUIMultiplierUpdate =>
      obtain ⟨hlive, hmultiplier, hat⟩ := cancelUiMultiplierUpdate_ok (then_return_ok hhandle)
      exact .cancel rfl hlive hmultiplier hat
    | _ => exact .spared rfl ((handle_ok hhandle).multiplierSlots rfl)

/-! ## The timeline -/

/-- The multipliers of all times, behind an update at a time: an immediate one counts from then on,
a scheduled one from its own time on, and a cancellation keeps what is in effect. -/
def MultiplierUpdate.record (now : U256) (f : U256 → U256) (time : U256) : MultiplierUpdate → U256
  | set m => if now ≤ time then m else f time
  | schedule m effectiveAt => if effectiveAt ≤ time then m else f time
  | cancel => if now ≤ time then f now else f time

def TokenStep.record (now : U256) (f : U256 → U256) (step : TokenStep) (time : U256) : U256 :=
  match step.multiplierUpdate with
  | none => f time
  | some update => update.record now f time

/-- The multipliers of all times behind the steps of a run. -/
def timeline (visits : List Visit) (f : U256 → U256) : U256 → U256 :=
  visits.foldl (fun f w => w.step.record w.ctx.timestamp f) f

/-- The times before a step do not matter for those after it. -/
theorem TokenStep.record_congr {f g : U256 → U256} {now : U256} (step : TokenStep)
    (h : ∀ time, now ≤ time → f time = g time) (htime : now ≤ time) :
    step.record now f time = step.record now g time := by
  unfold TokenStep.record
  cases step.multiplierUpdate with
  | none => exact h time htime
  | some update =>
    cases update with
    | set m | schedule m effectiveAt => simp [MultiplierUpdate.record, h time htime]
    | cancel => simp [MultiplierUpdate.record, h time htime, h now (BitVec.le_refl _)]

theorem setWidth_setWidth_of_le {v w : ℕ} (hw : v ≤ w) {x : BitVec w} (h : x.toNat < 2 ^ v) :
    (x.setWidth v).setWidth w = x := by
  apply BitVec.eq_of_toNat_eq
  rw [BitVec.toNat_setWidth_of_le hw, BitVec.toNat_setWidth, Nat.mod_eq_of_lt h]

theorem le_maxUiMultiplier_iff : m ≤ maxUiMultiplier ↔ m.toNat < 2 ^ 128 := by
  have hvalue : maxUiMultiplier.toNat = 2 ^ 128 - 1 := by decide
  rw [BitVec.le_def]
  omega

theorem setWidth_narrow_multiplier (hmax : m ≤ maxUiMultiplier) : (m.setWidth 128).setWidth 256 = m :=
  setWidth_setWidth_of_le (by decide) (le_maxUiMultiplier_iff.mp hmax)

theorem setWidth_narrow_time (hnear : effectiveAt ≤ BitVec.ofNat 256 (2 ^ 64 - 1)) :
    (effectiveAt.setWidth 64).setWidth 256 = effectiveAt := by
  have hle := BitVec.le_def.mp hnear
  have hvalue : (BitVec.ofNat 256 (2 ^ 64 - 1)).toNat = 2 ^ 64 - 1 := by decide
  exact setWidth_setWidth_of_le (by decide) (by omega)

variable {step : TokenStep}

namespace MultiplierEffect

theorem scheduled (h : MultiplierEffect ctx s t step) (hs : s.Scheduled) : t.Scheduled := by
  cases h with
  | spared _ hslots => exact (multiplierAt_congr hslots).2.1 hs
  | setV1 _ _ hpending hat =>
    unfold Scheduled at hs ⊢
    rwa [hpending, hat]
  | set _ _ _ _ hat | cancel _ _ _ hat => exact fun hne => absurd hat hne
  | schedule _ hm hmax _ _ _ _ hpending =>
    intro _ hzero
    rw [hpending] at hzero
    exact hm (by rw [← setWidth_narrow_multiplier hmax, hzero]; rfl)

/-- Under `AssetV2` a step does to the effective multiplier what the timeline records. -/
theorem multiplierAt_eq (h : MultiplierEffect ctx s t step) (hversion : ctx.version = .v2)
    (hs : s.Scheduled) (htime : ctx.timestamp ≤ time) :
    t.multiplierAt time = step.record ctx.timestamp s.multiplierAt time := by
  unfold TokenStep.record
  cases h with
  | spared hstep hslots => rw [hstep, (multiplierAt_congr hslots).1]
  | setV1 _ hv1 => rw [hversion] at hv1; cases hv1
  | set hstep hm _ hmultiplier hat =>
    rw [hstep, multiplierAt_of_unscheduled hat, storedMultiplier_of_ne_zero hmultiplier hm]
    exact (if_pos htime).symm
  | schedule hstep hm hmax hfuture hnear hidle hmultiplier hpending hat =>
    have hnarrow := setWidth_narrow_time hnear
    have hset : t.pendingEffectiveAt ≠ 0 := by
      intro hzero
      rw [← hnarrow, ← hat, hzero] at hfuture
      exact absurd (BitVec.lt_def.mp hfuture) (Nat.not_lt_zero _)
    rw [hstep, multiplierAt, hat, hnarrow, hpending, setWidth_narrow_multiplier hmax, ← hat,
      storedMultiplier_fold hmultiplier hs (BitVec.le_trans hidle htime)]
    simp only [hset, ne_eq, not_false_eq_true, true_and, MultiplierUpdate.record]
  | cancel hstep hlive hmultiplier hat =>
    have hstored : t.storedMultiplier = s.storedMultiplier := by
      simp [storedMultiplier, hmultiplier]
    rw [hstep, multiplierAt_of_unscheduled hat, hstored, ← multiplierAt_of_lt hlive]
    exact (if_pos htime).symm

end MultiplierEffect

/-! ## Runs -/

variable {calls : List TokenCall} {f : U256 → U256}

theorem visits_timeline (hversion : ctx.version = .v2) {steps : List TokenStep}
    (h : performAll env ctx false steps s = .ok () t) (hs : s.Scheduled)
    (hf : ∀ time, ctx.timestamp ≤ time → f time = s.multiplierAt time)
    (htime : ctx.timestamp ≤ time) :
    timeline (visits env ctx false steps s) f time = t.multiplierAt time := by
  induction steps generalizing s f with
  | nil =>
    rw [(pure_ok_iff.mp h).2]
    exact hf time htime
  | cons step steps ih =>
    obtain ⟨s₁, hperform, hrest⟩ := performAll_cons.mp h
    have heffect := perform_multiplier hperform
    unfold visits
    simp only [hperform]
    refine ih hrest (heffect.scheduled hs) fun time htime => ?_
    rw [heffect.multiplierAt_eq hversion hs htime]
    exact step.record_congr hf htime

theorem scheduled_runCalls (hs : s.Scheduled) : (runCalls env abi depth calls s).Scheduled :=
  (history_invariant _ (fun _ _ _ _ _ h => (perform_multiplier h).scheduled) hs).1

theorem history_timeline {start : U256} (hversion : ∀ c ∈ calls, c.ctx.version = .v2)
    (hsorted : (start :: calls.map fun c => c.ctx.timestamp).Pairwise (· ≤ ·)) (hs : s.Scheduled)
    (hf : ∀ time, start ≤ time → f time = s.multiplierAt time) (hstart : start ≤ time)
    (htime : ∀ c ∈ calls, c.ctx.timestamp ≤ time) :
    timeline (history env abi depth calls s) f time =
      (runCalls env abi depth calls s).multiplierAt time := by
  induction calls generalizing s f start with
  | nil => exact hf time hstart
  | cons c calls ih =>
    rw [pairwise_cons] at hsorted
    obtain ⟨hfirst, hsorted⟩ := hsorted
    obtain ⟨hv2, hversion⟩ := forall_mem_cons.mp hversion
    obtain ⟨hnow, htime⟩ := forall_mem_cons.mp htime
    rw [history, timeline, foldl_append]
    have hs' : (runCalls env abi depth [c] s).Scheduled := scheduled_runCalls hs
    refine ih hversion hsorted hs' (fun time htime => ?_) hnow htime
    have hlate : ∀ time, c.ctx.timestamp ≤ time → f time = s.multiplierAt time := fun time htime =>
      hf time (BitVec.le_trans (hfirst _ mem_cons_self) htime)
    unfold TokenCall.visits TokenCall.execute
    cases hdispatch : dispatch env abi c.ctx depth c.calldata s with
    | error e r => exact hlate time htime
    | ok v r => exact visits_timeline hv2 (dispatch_ok hdispatch) hs hlate htime

section Created

variable {params : B20AssetCreateParams} {initCalls : List Bytes} {address : Address}
  {s₀ : B20AssetStorage}

theorem scheduled_created
    (h : createB20Asset env abi ctx depth params initCalls (.empty address) = .ok () s₀) :
    s₀.Scheduled := by
  obtain ⟨s, hs, hsteps⟩ := createB20Asset_ok h
  clear h
  induction hsteps with
  | refl =>
    refine (multiplierAt_congr hs.multiplierSlots).2.1 fun hne => absurd ?_ hne
    unfold adminStorage granted
    split_ifs <;> rfl
  | tail _ hstep ih =>
    obtain ⟨step, hstep⟩ := hstep
    exact (perform_multiplier hstep).scheduled ih

/-- Under `AssetV2` the effective multiplier of every token is that of a timeline, and never zero;
a live schedule stops another one, and one that has taken effect is not cancelled. -/
theorem multiplier_timeline
    (hcreated : createB20Asset env abi ctx depth params initCalls (.empty address) = .ok () s₀)
    (earlier calls : List TokenCall) (hversion : ∀ c ∈ calls, c.ctx.version = .v2)
    (hsorted : calls.Pairwise fun c c' => c.ctx.timestamp ≤ c'.ctx.timestamp) :
    let s := runCalls env abi depth earlier s₀
    let t := runCalls env abi depth calls s
    (∀ now : CallContext, (∀ c ∈ calls, c.ctx.timestamp ≤ now.timestamp) →
      effectiveMultiplier now t =
        timeline (history env abi depth calls s) s.multiplierAt now.timestamp) ∧
    (∀ now, effectiveMultiplier now t ≠ 0) ∧
    (∀ now privileged m effectiveAt v r, now.timestamp < t.pendingEffectiveAt.setWidth 256 →
      handle env now privileged (.updateUIMultiplier m effectiveAt) t ≠ .ok v r) ∧
    ∀ now privileged v r, t.pendingEffectiveAt.setWidth 256 ≤ now.timestamp →
      handle env now privileged .cancelUIMultiplierUpdate t ≠ .ok v r := by
  intro s t
  have hs : s.Scheduled := scheduled_runCalls (scheduled_created hcreated)
  refine ⟨fun now hnow => ?_, fun now => ?_, fun now privileged m effectiveAt v r hlive h => ?_,
    fun now privileged v r hpast h => ?_⟩
  · have hzero (v : U256) : 0 ≤ v := BitVec.le_def.mpr (Nat.zero_le _)
    exact (history_timeline hversion (pairwise_cons.mpr ⟨fun _ _ => hzero _,
      pairwise_map.mpr hsorted⟩) hs (fun _ _ => rfl) (hzero _) hnow).symm
  · exact (scheduled_runCalls hs).multiplierAt_ne_zero
  · obtain ⟨-, -, -, -, hidle, -⟩ := updateUiMultiplier_ok (then_return_ok h)
    exact absurd hidle (BitVec.not_le.mpr hlive)
  · exact absurd hpast (BitVec.not_le.mpr (cancelUiMultiplierUpdate_ok (then_return_ok h)).1)

end Created

namespace Operating

open Minting

def callAt (timestamp : U256) (version : AssetVersion) : CallContext :=
  ⟨minter, 0, 8453, timestamp, version, .empty, fun _ => 0⟩

def grantOperator : Bytes :=
  [0x2f, 0x2f, 0xf1, 0x5d] ++ (operatorRole.val ++ PermitArgs.abiAddress minter)

def updateData : Bytes := [0x5f, 0xfe, 0x61, 0x46] ++ PermitArgs.abiWord (BitVec.allOnes 256)

def scheduleData : Bytes :=
  [0x62, 0x8e, 0x60, 0x0f] ++ (PermitArgs.abiWord 5 ++ PermitArgs.abiWord 100)

def operatorAbi : AssetAbi where
  decode _ calldata :=
    if calldata = grantOperator then .ok (.operation (.grantRole operatorRole minter))
    else if calldata = mintData 2 then .ok (.operation (.mint minter 2))
    else if calldata = updateData then .ok (.operation (.updateMultiplier (BitVec.allOnes 256)))
    else if calldata = scheduleData then .ok (.operation (.updateUIMultiplier 5 100))
    else .error .unknownFunctionSelector

end Operating

section Scheduling

open Minting Operating

/-- A multiplier of five is scheduled at time 10 for time 100. -/
theorem multiplier_timeline_scheduled :
    ∃ s₀, createB20Asset platform operatorAbi (callAt 0 .v2) 1 params
        [grantOperator] (.empty factoryAddress) = .ok () s₀ ∧
      let t := runCalls platform operatorAbi 1 [⟨callAt 10 .v2, scheduleData⟩] s₀
      let f := timeline (history platform operatorAbi 1
        [⟨callAt 10 .v2, scheduleData⟩] s₀) s₀.multiplierAt
      effectiveMultiplier (callAt 99 .v2) t = f 99 ∧ f 99 = wad ∧
        effectiveMultiplier (callAt 100 .v2) t = f 100 ∧ f 100 = 5 := by
  have hcreated : createB20Asset platform operatorAbi (callAt 0 .v2) 1 params
      [grantOperator] (.empty factoryAddress) = .ok () _ := rfl
  obtain ⟨htimeline, -⟩ := multiplier_timeline hcreated [] [⟨callAt 10 .v2, scheduleData⟩]
    (by simp [callAt]) (pairwise_singleton _ _)
  refine ⟨_, hcreated, htimeline (callAt 99 .v2) (by decide), ?_,
    htimeline (callAt 100 .v2) (by decide), ?_⟩
  · decide +kernel
  · decide +kernel

end Scheduling

/-! ## Conversions of balances -/

/-- The reads that are derived from balances return under `AssetV2`. -/
def ConversionsReturn (env : B20Env) (s : B20AssetStorage) : Prop :=
  ∀ ctx : CallContext, ctx.version = .v2 →
    (∀ account, ∃ v, (AssetRead.scaledBalanceOf account).value env ctx s = .ok v) ∧
    (∀ account, ∃ v, (AssetRead.balanceOfUI account).value env ctx s = .ok v) ∧
    (∃ v, AssetRead.totalSupplyUI.value env ctx s = .ok v) ∧
    ∀ balance ≤ s.totalSupply, ∃ v, (AssetRead.toScaledBalance balance).value env ctx s = .ok v

theorem setWidth_le_maxUiMultiplier (p : BitVec 128) : p.setWidth 256 ≤ maxUiMultiplier := by
  rw [le_maxUiMultiplier_iff]
  exact p.isLt

theorem storedMultiplier_le (h : s.multiplier ≤ maxUiMultiplier) :
    s.storedMultiplier ≤ maxUiMultiplier := by
  unfold storedMultiplier
  split_ifs
  · decide
  · exact h

theorem MultiplierEffect.multiplier_le (h : MultiplierEffect ctx s t step)
    (hversion : ctx.version = .v2) (hs : s.multiplier ≤ maxUiMultiplier) :
    t.multiplier ≤ maxUiMultiplier := by
  cases h with
  | spared _ hslots =>
    have hmultiplier : t.multiplier = s.multiplier := congrArg Prod.fst hslots
    exact hmultiplier ▸ hs
  | setV1 _ hv1 => rw [hversion] at hv1; cases hv1
  | set _ _ hmax hmultiplier => exact hmultiplier ▸ hmax
  | schedule _ _ _ _ _ _ hmultiplier =>
    rw [hmultiplier]
    split_ifs
    · exact setWidth_le_maxUiMultiplier _
    · exact hs
  | cancel _ _ hmultiplier => exact hmultiplier ▸ hs

theorem checkedMulDiv_ok {balance c : U256} (hbalance : balance.toNat < 2 ^ 128)
    (hm : m ≤ maxUiMultiplier) : ∃ v, checkedMulDiv balance m c = .ok v := by
  refine ⟨_, if_neg ?_⟩
  have hmul : balance.toNat * m.toNat < 2 ^ 256 :=
    calc balance.toNat * m.toNat < 2 ^ 128 * 2 ^ 128 :=
          Nat.mul_lt_mul'' hbalance (le_maxUiMultiplier_iff.mp hm)
      _ = 2 ^ 256 := by norm_num
  simpa [BitVec.umulOverflow] using hmul

theorem B20AssetStorage.Solvent.conversionsReturn (hs : s.Solvent)
    (hm : s.multiplier ≤ maxUiMultiplier) : ConversionsReturn env s := by
  intro ctx hversion
  have hcurrent : currentMultiplier ctx s ≤ maxUiMultiplier := by
    unfold currentMultiplier effectiveMultiplier multiplierAt
    rw [hversion]
    split_ifs
    · exact setWidth_le_maxUiMultiplier _
    · exact storedMultiplier_le hm
  have hlt {balance : U256} (h : balance ≤ s.totalSupply) : balance.toNat < 2 ^ 128 :=
    (BitVec.le_def.mp h).trans_lt hs.supply_lt
  have hheld (a : Address) : s.balances a ≤ s.totalSupply := BitVec.le_def.mpr (hs.balance_le a)
  simp only [AssetRead.value, sinceV2, hversion]
  exact ⟨fun a => checkedMulDiv_ok (hlt (hheld a)) hcurrent,
    fun a => checkedMulDiv_ok (hlt (hheld a)) hcurrent,
    checkedMulDiv_ok (hlt (BitVec.le_refl _)) hcurrent,
    fun _ h => checkedMulDiv_ok (hlt h) hcurrent⟩

section Created

variable {params : B20AssetCreateParams} {initCalls : List Bytes} {address : Address}
  {s₀ : B20AssetStorage}

/-- As long as the multiplier that `AssetV2` finds is one that it would accept, the conversions of
balances return in every storage that a token passes through from then on. -/
theorem conversions_return
    (hcreated : createB20Asset env abi ctx depth params initCalls (.empty address) = .ok () s₀)
    (earlier calls : List TokenCall)
    (hswitch : (runCalls env abi depth earlier s₀).multiplier ≤ maxUiMultiplier)
    (hversion : ∀ c ∈ calls, c.ctx.version = .v2) :
    let s := runCalls env abi depth earlier s₀
    ConversionsReturn env (runCalls env abi depth calls s) ∧
      ∀ w ∈ history env abi depth calls s,
        ConversionsReturn env w.pre ∧ ConversionsReturn env w.post := by
  intro s
  have hsolvent : s.Solvent :=
    (history_invariant _ (fun _ _ _ _ _ => solvent_step) (solvent_created hcreated)).1
  obtain ⟨hlast, hmem⟩ := history_invariant (fun s => s.Solvent ∧ s.multiplier ≤ maxUiMultiplier)
    (fun c hc _ _ _ h hs => ⟨solvent_step h hs.1,
      (perform_multiplier h).multiplier_le (hversion c hc) hs.2⟩) ⟨hsolvent, hswitch⟩
  exact ⟨hlast.1.conversionsReturn hlast.2, fun w hw =>
    ⟨(hmem w hw).1.1.conversionsReturn (hmem w hw).1.2,
      (hmem w hw).2.1.conversionsReturn (hmem w hw).2.2⟩⟩

end Created

open Minting Operating

/-- `AssetV1` lets an operator set any multiplier, and `AssetV2` converts balances by it. -/
theorem conversions_overflow :
    ∃ s₀, createB20Asset platform operatorAbi (callAt 0 .v1) 1 params
        [grantOperator, mintData 2] (.empty factoryAddress) = .ok () s₀ ∧
      let s := runCalls platform operatorAbi 1 [⟨callAt 1 .v1, updateData⟩] s₀
      s.multiplier = BitVec.allOnes 256 ∧
      (AssetRead.scaledBalanceOf minter).value platform (callAt 2 .v2) s = .error .underOverflow :=
  ⟨_, rfl, by decide +kernel, by decide +kernel⟩

theorem conversions_return_minted :
    ∃ s₀, createB20Asset platform operatorAbi (callAt 0 .v1) 1 params
        [grantOperator, mintData 2] (.empty factoryAddress) = .ok () s₀ ∧
      s₀.totalSupply = 2 ∧ s₀.multiplier ≤ maxUiMultiplier ∧
      ConversionsReturn platform (runCalls platform operatorAbi 1
        [⟨callAt 10 .v2, scheduleData⟩] s₀) := by
  have hcreated : createB20Asset platform operatorAbi (callAt 0 .v1) 1 params
      [grantOperator, mintData 2] (.empty factoryAddress) = .ok () _ := rfl
  refine ⟨_, hcreated, rfl, by decide, ?_⟩
  exact (conversions_return hcreated [] [⟨callAt 10 .v2, scheduleData⟩] (by decide)
    (by simp [callAt])).1

end NodeReth
