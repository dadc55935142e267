import NodeReth.Eip8130.Transaction

/-!
# What account changes do

One lemma for each function that writes: which slots it touches, what it installs there, and how it
moves the counters of the account. `BatchEffect` says so for the operations of a batch, in a form
that composes, and `Consumed` for the sequence word of the batch.
-/

namespace NodeReth.Eip8130

open AccountChangeApplier AccountConfigurationStorage AccountState ConfigChangeAuthorizer Fallible
  Function

variable {config : ActorConfig} {id : B256} {policyData payload : Bytes}
  {change : SignedAccountChanges} {entry : CreateEntry}

/-! ## Frames -/

/-- Only slots of one account differ. -/
structure OnlyAccount (account : Address) (s t : AccountConfigurationStorage) : Prop where
  actors : ∀ id a, a ≠ account → t.actors id a = s.actors id a
  policyManager : ∀ id a, a ≠ account → t.policyManager id a = s.policyManager id a
  policyCommitment : ∀ id a, a ≠ account → t.policyCommitment id a = s.policyCommitment id a
  accountState : ∀ a, a ≠ account → t.accountState a = s.accountState a

theorem update_update_apply {γ : Type} (f : B256 → Address → γ) (id id' : B256) (a a' : Address)
    (v : γ) : update f id (update (f id) a v) id' a' =
      if id' = id ∧ a' = a then v else f id' a' := by
  by_cases hid : id' = id
  · subst hid
    by_cases ha : a' = a
    · subst ha
      simp
    · simp [ha]
  · simp [hid]

variable {now : UInt64} {b : Batch} {cc : SignedAccountChanges} {account : Address}
  {state : AccountState} {Q : ActorConfig → Prop}

namespace OnlyAccount

variable {manager : Address} {commitment : B256} {event : Event}
  {s t u : AccountConfigurationStorage}

theorem refl (account : Address) (s : AccountConfigurationStorage) : OnlyAccount account s s :=
  ⟨fun _ _ _ => rfl, fun _ _ _ => rfl, fun _ _ _ => rfl, fun _ _ => rfl⟩

theorem trans (h : OnlyAccount account s t) (h' : OnlyAccount account t u) :
    OnlyAccount account s u where
  actors id a ha := (h'.actors id a ha).trans (h.actors id a ha)
  policyManager id a ha := (h'.policyManager id a ha).trans (h.policyManager id a ha)
  policyCommitment id a ha := (h'.policyCommitment id a ha).trans (h.policyCommitment id a ha)
  accountState a ha := (h'.accountState a ha).trans (h.accountState a ha)

theorem setActorConfig : OnlyAccount account s (s.setActorConfig account id config) where
  actors _ _ ha := (update_update_apply s.actors ..).trans (if_neg fun h => ha h.2)
  policyManager _ _ _ := rfl
  policyCommitment _ _ _ := rfl
  accountState _ _ := rfl

theorem setPolicy : OnlyAccount account s (s.setPolicy account id manager commitment) where
  actors _ _ _ := rfl
  policyManager _ _ ha := (update_update_apply s.policyManager ..).trans (if_neg fun h => ha h.2)
  policyCommitment _ _ ha :=
    (update_update_apply s.policyCommitment ..).trans (if_neg fun h => ha h.2)
  accountState _ _ := rfl

theorem setAccountState : OnlyAccount account s (s.setAccountState account state) where
  actors _ _ _ := rfl
  policyManager _ _ _ := rfl
  policyCommitment _ _ _ := rfl
  accountState _ ha := update_of_ne ha _ _

theorem emitEvent : OnlyAccount account s (s.emitEvent event) :=
  ⟨fun _ _ _ => rfl, fun _ _ _ => rfl, fun _ _ _ => rfl, fun _ _ => rfl⟩

theorem getAccountState (h : OnlyAccount account s t) {a : Address} (ha : a ≠ account) :
    t.getAccountState a = s.getAccountState a :=
  congrArg fromWord (h.accountState a ha)

end OnlyAccount

/-! ## Counters -/

/-- Epoch and sequence number of the local channel, in lexicographic order. -/
def AccountState.localWord (s : AccountState) : ℕ ×ₗ ℕ :=
  toLex (s.localEpoch.toNat, s.localSequence.toNat)

variable {s t : AccountState} {env : Env} {u : Unit}

theorem AccountState.localEpoch_le (h : s.localWord ≤ t.localWord) :
    s.localEpoch.toNat ≤ t.localEpoch.toNat := by
  rcases Prod.Lex.le_iff.mp h with hlt | ⟨heq, -⟩
  · exact hlt.le
  · exact heq.le

theorem getAccountState_fits (s : AccountConfigurationStorage) (account : Address) :
    (s.getAccountState account).Fits where
  localSequence := toNat_ofNat_fieldAt_lt _ 20 (by norm_num)
  localEpoch := toNat_ofNat_fieldAt_lt _ 16 (by norm_num)
  lockUnion := toNat_ofNat_fieldAt_lt _ 9 (by norm_num)
  defaultEoaExpiry := toNat_ofNat_fieldAt_lt _ 3 (by norm_num)

theorem getAccountState_setAccountState (h : state.Fits)
    (s : AccountConfigurationStorage) (account : Address) :
    (s.setAccountState account state).getAccountState account = state := by
  have hword : (s.setAccountState account state).accountState account = state.toWord :=
    update_self ..
  unfold getAccountState
  rw [hword, fromWord_toWord h]

/-! ## The operations of a batch -/

/-- What the operations of a batch do. New configurations fit their slot and satisfy `Q`; the
account state is not written back yet. -/
structure BatchEffect (account : Address) (Q : ActorConfig → Prop) (b c : Batch) : Prop where
  frame : OnlyAccount account b.storage c.storage
  stateWord : c.storage.accountState = b.storage.accountState
  entries : ∀ id, c.storage.actors id account = b.storage.actors id account ∨
    ∃ x : ActorConfig, x.Fits ∧ Q x ∧ c.storage.actors id account = x.toWord
  inline : (c.state.defaultEoaRevoked = b.state.defaultEoaRevoked ∧
      c.state.defaultEoaExpiry = b.state.defaultEoaExpiry ∧
      c.state.defaultEoaScope = b.state.defaultEoaScope) ∨
    ∃ x : ActorConfig, x.Fits ∧ Q x ∧ c.state.defaultEoaExpiry = x.expiry ∧
      c.state.defaultEoaScope = x.scope
  grows : b.state.Fits → c.state.Fits ∧ b.state.localWord ≤ c.state.localWord
  multichain : c.state.multichainSequence = b.state.multichainSequence

namespace BatchEffect

variable {c d : Batch}

theorem refl (b : Batch) : BatchEffect account Q b b where
  frame := .refl account b.storage
  stateWord := rfl
  entries _ := .inl rfl
  inline := .inl ⟨rfl, rfl, rfl⟩
  grows h := ⟨h, le_rfl⟩
  multichain := rfl

theorem trans (h : BatchEffect account Q b c) (h' : BatchEffect account Q c d) :
    BatchEffect account Q b d where
  frame := h.frame.trans h'.frame
  stateWord := h'.stateWord.trans h.stateWord
  entries id := by
    rcases h'.entries id with hsame | hnew
    · rw [hsame]
      exact h.entries id
    · exact .inr hnew
  inline := by
    rcases h'.inline with ⟨hrevoked, hexpiry, hscope⟩ | hnew
    · rw [hrevoked, hexpiry, hscope]
      exact h.inline
    · exact .inr hnew
  grows hfits := by
    obtain ⟨hc, hle⟩ := h.grows hfits
    obtain ⟨hd, hle'⟩ := h'.grows hc
    exact ⟨hd, hle.trans hle'⟩
  multichain := h'.multichain.trans h.multichain

end BatchEffect

theorem entry_written (s : AccountConfigurationStorage) (account : Address) (id : B256)
    (config : ActorConfig) (policy : Address × B256) (event : Event) :
    let t := ((s.setActorConfig account id config).setPolicy account id policy.1 policy.2).emitEvent
      event
    OnlyAccount account s t ∧ t.accountState = s.accountState ∧
      ∀ id', t.actors id' account = s.actors id' account ∨ t.actors id' account = config.toWord := by
  refine ⟨?_, rfl, fun id' => ?_⟩
  · exact (OnlyAccount.setActorConfig.trans .setPolicy).trans .emitEvent
  · by_cases hid : id' = id
    · exact .inr ((update_update_apply s.actors ..).trans (if_pos ⟨hid, rfl⟩))
    · exact .inl ((update_update_apply s.actors ..).trans (if_neg fun h => hid h.1))

/-- An account state in which only the inline key is new. -/
structure InlineOnly (Q : ActorConfig → Prop) (s t : AccountState) : Prop where
  localSequence : t.localSequence = s.localSequence
  localEpoch : t.localEpoch = s.localEpoch
  multichainSequence : t.multichainSequence = s.multichainSequence
  lockUnion : t.lockUnion = s.lockUnion
  inline : (t.defaultEoaRevoked = s.defaultEoaRevoked ∧ t.defaultEoaExpiry = s.defaultEoaExpiry ∧
      t.defaultEoaScope = s.defaultEoaScope) ∨
    ∃ x : ActorConfig, x.Fits ∧ Q x ∧ t.defaultEoaExpiry = x.expiry ∧ t.defaultEoaScope = x.scope

theorem InlineOnly.refl (s : AccountState) : InlineOnly Q s s :=
  ⟨rfl, rfl, rfl, rfl, .inl ⟨rfl, rfl, rfl⟩⟩

theorem InlineOnly.inlineSelf (hfits : config.Fits) (hQ : Q config)
    (s : AccountState) : InlineOnly Q s (inlineSelf s config) :=
  ⟨rfl, rfl, rfl, rfl, .inr ⟨config, hfits, hQ, rfl, rfl⟩⟩

theorem ActorConfig.empty_fits : ActorConfig.empty.Fits := by
  unfold ActorConfig.Fits
  decide

theorem InlineOnly.disableInlineSelf (hQ : Q .empty) (s : AccountState) :
    InlineOnly Q s (disableInlineSelf s) :=
  ⟨rfl, rfl, rfl, rfl, .inr ⟨.empty, ActorConfig.empty_fits, hQ, rfl, rfl⟩⟩

theorem InlineOnly.fits (h : InlineOnly Q s t) (hs : s.Fits) : t.Fits where
  localSequence := h.localSequence ▸ hs.localSequence
  localEpoch := h.localEpoch ▸ hs.localEpoch
  lockUnion := h.lockUnion ▸ hs.lockUnion
  defaultEoaExpiry := by
    rcases h.inline with ⟨-, hexpiry, -⟩ | ⟨x, hx, -, hexpiry, -⟩
    · exact hexpiry ▸ hs.defaultEoaExpiry
    · exact hexpiry ▸ hx

theorem InlineOnly.localWord (h : InlineOnly Q s t) : t.localWord = s.localWord := by
  unfold AccountState.localWord
  rw [h.localEpoch, h.localSequence]

section Operations

variable {s t : AccountConfigurationStorage} {slots : ℕ}

theorem BatchEffect.of_entry (hfits : config.Fits) (hQ : Q config) (id : B256)
    (policy : Address × B256) (event : Event)
    (ht : t = ((b.storage.setActorConfig account id config).setPolicy account id policy.1
      policy.2).emitEvent event)
    (hstate : InlineOnly Q b.state state) : BatchEffect account Q b ⟨t, state, slots⟩ := by
  subst ht
  obtain ⟨hframe, hword, hentries⟩ := entry_written b.storage account id config policy event
  refine ⟨hframe, hword, fun id' => ?_, hstate.inline, fun hb => ?_, hstate.multichainSequence⟩
  · rcases hentries id' with hsame | hnew
    · exact .inl hsame
    · exact .inr ⟨config, hfits, hQ, hnew⟩
  · exact ⟨hstate.fits hb, hstate.localWord.ge⟩

theorem authorizeNonSelfActor_ok
    (h : authorizeNonSelfActor s account id config policyData = .ok t) :
    ∃ (policy : Address × B256) (event : Event),
      t = ((s.setActorConfig account id config).setPolicy account id policy.1
        policy.2).emitEvent event := by
  obtain ⟨_, -, h⟩ := bind_ok_iff.mp h
  obtain ⟨_, -, h⟩ := bind_ok_iff.mp h
  obtain ⟨policy, -, h⟩ := bind_ok_iff.mp h
  exact ⟨policy, _, (pure_ok_iff.mp h).symm⟩

theorem authorizeActorWithAccountState_ok {old : AccountState} (hfits : config.Fits) (hQ : Q config)
    (hempty : Q .empty)
    (h : authorizeActorWithAccountState s account id config policyData old = .ok (t, state)) :
    ∃ (x : ActorConfig) (policy : Address × B256) (event : Event), x.Fits ∧ Q x ∧
      t = ((s.setActorConfig account id x).setPolicy account id policy.1 policy.2).emitEvent event ∧
      InlineOnly Q old state := by
  obtain ⟨_, -, h⟩ := bind_ok_iff.mp h
  split_ifs at h with hself hk1
  · obtain ⟨t', ht', ⟨⟩⟩ := bind_return_ok h
    obtain ⟨policy, event, ht'⟩ := authorizeNonSelfActor_ok ht'
    exact ⟨config, policy, event, hfits, hQ, ht', .refl _⟩
  · obtain ⟨policy, -, ⟨⟩⟩ := bind_return_ok h
    -- the entry of the account itself is cleared
    exact ⟨.empty, policy, _, ActorConfig.empty_fits, hempty, rfl, .inlineSelf hfits hQ _⟩
  · obtain ⟨policy, -, ⟨⟩⟩ := bind_return_ok h
    exact ⟨config, policy, _, hfits, hQ, rfl, .disableInlineSelf hempty _⟩

theorem authorizeActorWithAccountState_effect (hfits : config.Fits) (hQ : Q config) (hempty : Q .empty)
    (h : authorizeActorWithAccountState b.storage account id config policyData b.state =
      .ok (t, state)) : BatchEffect account Q b ⟨t, state, slots⟩ := by
  obtain ⟨x, policy, event, hx, hQx, ht, hstate⟩ :=
    authorizeActorWithAccountState_ok hfits hQ hempty h
  exact .of_entry hx hQx id policy event ht hstate

theorem revokeActorWithAccountState_effect (hempty : Q .empty) (id : B256) {n : ℕ}
    (h : revokeActorWithAccountState b.storage account id b.state = (t, state, n)) :
    BatchEffect account Q b ⟨t, state, slots⟩ := by
  dsimp only [revokeActorWithAccountState] at h
  by_cases hentry : (b.storage.actorConfigSlot account id).authenticator ≠ FixedBytes.zero 20
  · rw [if_pos hentry] at h
    cases h
    unfold revokeExplicitActor
    rw [if_neg hentry]
    refine .of_entry ActorConfig.empty_fits hempty id (FixedBytes.zero 20, FixedBytes.zero 32) _ rfl ?_
    split_ifs
    · exact .disableInlineSelf hempty _
    · exact .refl _
  rw [if_neg hentry] at h
  by_cases habsent : ¬id = selfActorId account ∨ b.state.defaultEoaRevoked = true
  · rw [if_pos habsent] at h
    cases h
    exact ⟨.refl _ _, rfl, fun _ => .inl rfl, .inl ⟨rfl, rfl, rfl⟩, fun hb => ⟨hb, le_rfl⟩, rfl⟩
  · rw [if_neg habsent] at h
    cases h
    exact .of_entry ActorConfig.empty_fits hempty id (FixedBytes.zero 20, FixedBytes.zero 32) _ rfl
      (.disableInlineSelf hempty _)

end Operations

theorem decodeAuthorize_fits
    (h : decodeAuthorize env payload = .ok (id, config, policyData)) : config.Fits := by
  obtain ⟨⟨id', abi, policyData'⟩, -, ⟨⟩⟩ := bind_return_ok h
  show (UInt64.ofNat abi.expiry.toNat).toNat < 2 ^ 48
  rw [UInt64.toNat_ofNat']
  omega

theorem applyIncrementLocalEpoch_ok (h : applyIncrementLocalEpoch payload s = .ok t) :
    s.localEpoch ≠ 0xffffffff ∧ t = { s with localEpoch := s.localEpoch + 1, localSequence := 0 } := by
  obtain ⟨_, -, h⟩ := bind_ok_iff.mp h
  obtain ⟨_, hepoch, h⟩ := bind_ok_iff.mp h
  exact ⟨failIf_ok_iff.mp hepoch, (pure_ok_iff.mp h).symm⟩

theorem toNat_succ_epoch {epoch : UInt64} (hfits : epoch.toNat < 2 ^ 32)
    (hmax : epoch ≠ 0xffffffff) : (epoch + 1).toNat = epoch.toNat + 1 ∧ epoch.toNat + 1 < 2 ^ 32 := by
  have hne : epoch.toNat ≠ 4294967295 := fun h => hmax (UInt64.toNat_inj.mp h)
  have hadd : (epoch + 1).toNat = (epoch.toNat + 1) % 2 ^ 64 := UInt64.toNat_add epoch 1
  omega

theorem applyIncrementLocalEpoch_grows (h : applyIncrementLocalEpoch payload s = .ok t) (hs : s.Fits) :
    t.Fits ∧ s.localEpoch.toNat < t.localEpoch.toNat := by
  obtain ⟨hmax, rfl⟩ := applyIncrementLocalEpoch_ok h
  obtain ⟨hsucc, hlt⟩ := toNat_succ_epoch hs.localEpoch hmax
  have hzero : (0 : UInt64).toNat < 2 ^ 32 := by decide
  refine ⟨⟨hzero, ?_, hs.lockUnion, hs.defaultEoaExpiry⟩, ?_⟩
  · exact hsucc ▸ hlt
  · show s.localEpoch.toNat < (s.localEpoch + 1).toNat
    omega

/-- What a batch may install: anything, unless it can be replayed. -/
def Installable (isUnsequenced : Bool) (now : UInt64) (config : ActorConfig) : Prop :=
  isUnsequenced = true → config.isExpired now = false

theorem installable_empty (isUnsequenced : Bool) (now : UInt64) :
    Installable isUnsequenced now .empty := fun _ => rfl

theorem applyChange_effect {isUnsequenced locked : Bool} {c : Batch} {change : SignedChange}
    (h : applyChange env account isUnsequenced locked now b change = .ok c) :
    BatchEffect account (Installable isUnsequenced now) b c := by
  unfold applyChange at h
  cases hkind : change.changeType with simp only [hkind] at h
  | authorizeActor =>
    obtain ⟨⟨id, config, policyData⟩, hdecode, h⟩ := bind_ok_iff.mp h
    split_ifs at h with hskip hlocked
    · cases pure_ok_iff.mp h
      exact .refl b
    all_goals
      have hlasting : Installable isUnsequenced now config := fun hun =>
        Bool.eq_false_of_not_eq_true fun hexp => hskip ⟨hun, hexp⟩
    -- a locked account has its rules checked first
    case' pos => obtain ⟨_, -, h⟩ := bind_ok_iff.mp h
    all_goals
      obtain ⟨⟨t, state⟩, hwrite, ⟨⟩⟩ := bind_return_ok h
      exact authorizeActorWithAccountState_effect (decodeAuthorize_fits hdecode) hlasting
        (installable_empty _ _) hwrite
  | revokeActor =>
    obtain ⟨_, -, h⟩ := bind_ok_iff.mp h
    obtain ⟨id, -, ⟨⟩⟩ := bind_return_ok h
    exact revokeActorWithAccountState_effect (installable_empty _ _) id rfl
  | incrementLocalEpoch =>
    obtain ⟨state, hstate, ⟨⟩⟩ := bind_return_ok h
    have hgrows := applyIncrementLocalEpoch_grows hstate
    obtain ⟨-, rfl⟩ := applyIncrementLocalEpoch_ok hstate
    refine ⟨.refl _ _, rfl, fun _ => .inl rfl, .inl ⟨rfl, rfl, rfl⟩, fun hb => ?_, rfl⟩
    obtain ⟨hfits, hlt⟩ := hgrows hb
    exact ⟨hfits, Prod.Lex.le_iff.mpr (.inl hlt)⟩
  | lock | unlock => cases h

section Batches

variable {env : Env} {isUnsequenced locked : Bool} {c : Batch} {changes : List SignedChange}

theorem applyChanges_effect
    (h : changes.foldlM (applyChange env account isUnsequenced locked now) b = .ok c) :
    BatchEffect account (Installable isUnsequenced now) b c :=
  foldlM_related _ .refl (fun _ _ _ => .trans) (fun _ _ _ _ => applyChange_effect) h

theorem applyChanges_epoch
    (h : changes.foldlM (applyChange env account isUnsequenced locked now) b = .ok c)
    {op : SignedChange} (hop : op ∈ changes) (hkind : op.changeType = .incrementLocalEpoch)
    (hb : b.state.Fits) : b.state.localEpoch.toNat < c.state.localEpoch.toNat := by
  obtain ⟨l, r, rfl⟩ := List.append_of_mem hop
  obtain ⟨b₁, hl, h⟩ := foldlM_append_ok_iff.mp h
  obtain ⟨b₂, hstep, hr⟩ := foldlM_cons_ok_iff.mp h
  obtain ⟨hfits₁, hle₁⟩ := (applyChanges_effect hl).grows hb
  have hlt : b₁.state.localEpoch.toNat < b₂.state.localEpoch.toNat := by
    unfold applyChange at hstep
    simp only [hkind] at hstep
    obtain ⟨state, hstate, ⟨⟩⟩ := bind_return_ok hstep
    exact (applyIncrementLocalEpoch_grows hstate hfits₁).2
  obtain ⟨hfits₂, -⟩ := (applyChange_effect hstep).grows hfits₁
  obtain ⟨-, hle₂⟩ := (applyChanges_effect hr).grows hfits₂
  calc b.state.localEpoch.toNat ≤ b₁.state.localEpoch.toNat := localEpoch_le hle₁
    _ < b₂.state.localEpoch.toNat := hlt
    _ ≤ c.state.localEpoch.toNat := localEpoch_le hle₂

end Batches

/-! ## The sequence word of a batch -/

/-- A batch whose sequence word was due for `s` moves the account on to `t`. -/
structure Consumed (change : SignedAccountChanges) (s t : AccountState) : Prop where
  fits : t.Fits
  localWord_le : s.localWord ≤ t.localWord
  multichain_le : s.multichainSequence.toNat ≤ t.multichainSequence.toNat
  /-- A batch of the local channel carries the current epoch. -/
  epoch : change.channel = .localChain → change.epoch = s.localEpoch
  /-- A sequenced one also carries the current sequence number, and uses it up. -/
  sequenced : change.channel = .localChain → change.seq ≠ unsequenced →
    change.seq.toUInt64 = s.localSequence ∧ s.localWord < t.localWord
  multichain : change.channel = .multichain → change.sequence = s.multichainSequence ∧
    s.multichainSequence.toNat < t.multichainSequence.toNat
  /-- Only the counters move. -/
  rest : t.localEpoch = s.localEpoch ∧ t.defaultEoaRevoked = s.defaultEoaRevoked ∧
    t.defaultEoaExpiry = s.defaultEoaExpiry ∧ t.defaultEoaScope = s.defaultEoaScope

theorem checkChannelSequence_local (hchannel : change.channel = .localChain)
    (h : checkChannelSequence change s = .ok u) :
    change.epoch = s.localEpoch ∧ (change.seq ≠ unsequenced →
      change.seq.toUInt64 = s.localSequence ∧ change.seq < unsequenced - 1) := by
  unfold checkChannelSequence at h
  simp only [hchannel] at h
  obtain ⟨_, hepoch, h⟩ := bind_ok_iff.mp h
  refine ⟨not_not.mp (failIf_ok_iff.mp hepoch), fun hseq => ?_⟩
  rw [if_pos hseq] at h
  obtain ⟨_, hnumber, h⟩ := bind_ok_iff.mp h
  exact ⟨not_not.mp (failIf_ok_iff.mp hnumber), UInt32.not_le.mp (failIf_ok_iff.mp h)⟩

theorem checkChannelSequence_multichain (hchannel : change.channel = .multichain)
    (h : checkChannelSequence change s = .ok u) :
    change.sequence = s.multichainSequence ∧ change.sequence ≠ 0xffffffffffffffff := by
  unfold checkChannelSequence at h
  simp only [hchannel] at h
  obtain ⟨_, hnumber, h⟩ := bind_ok_iff.mp h
  exact ⟨not_not.mp (failIf_ok_iff.mp hnumber), failIf_ok_iff.mp h⟩

theorem AccountState.localWord_lt_of_sequence (hepoch : t.localEpoch = s.localEpoch)
    (hseq : s.localSequence.toNat < t.localSequence.toNat) : s.localWord < t.localWord :=
  Prod.Lex.lt_iff.mpr (.inr ⟨(congrArg UInt64.toNat hepoch).symm, hseq⟩)

theorem AccountState.localSequence_of_not_initialized (h : ¬s.isInitialized = true) :
    s.localSequence = 0 ∧ s.localEpoch = 0 ∧ s.multichainSequence = 0 := by
  have hzero : ∀ x : UInt64, ¬x > 0 → x = 0 := fun x hx =>
    UInt64.toNat_inj.mp (Nat.eq_zero_of_not_pos fun hpos => hx (UInt64.lt_iff_toNat_lt.mpr hpos))
  simp only [isInitialized, Bool.or_eq_true, decide_eq_true_eq, not_or] at h
  exact ⟨hzero _ h.1.1, hzero _ h.1.2, hzero _ h.2⟩

theorem advanceChannelSequence_consumed (hs : s.Fits) (hcheck : checkChannelSequence change s = .ok u)
    (h : advanceChannelSequence change.channel change.sequence s = .ok t) :
    Consumed change s t := by
  unfold advanceChannelSequence at h
  cases hchannel : change.channel with
  | localChain =>
    obtain ⟨hepoch, hsequenced⟩ := checkChannelSequence_local hchannel hcheck
    simp only [hchannel] at h
    have hother : change.channel = .multichain → False := by rw [hchannel]; nofun
    have hset : ∀ n : UInt64, s.localSequence.toNat < n.toNat → n.toNat < 2 ^ 32 →
        Consumed change s { s with localSequence := n } := by
      intro n hlt hbound
      have hword := localWord_lt_of_sequence (s := s) (t := { s with localSequence := n }) rfl hlt
      exact ⟨⟨hbound, hs.localEpoch, hs.lockUnion, hs.defaultEoaExpiry⟩, hword.le, le_rfl,
        fun _ => hepoch, fun _ hne => ⟨(hsequenced hne).1, hword⟩, fun hm => (hother hm).elim, rfl,
        rfl, rfl, rfl⟩
    by_cases hseq : change.sequence.toUInt32 ≠ unsequenced
    · -- the sequence number is used up
      rw [if_pos hseq] at h
      obtain ⟨_, -, ⟨⟩⟩ := bind_return_ok h
      obtain ⟨hnumber, hlt⟩ := hsequenced hseq
      have hbound : s.localSequence.toNat < 2 ^ 32 - 2 := by
        rw [← hnumber]
        exact UInt32.lt_iff_toNat_lt.mp hlt
      have hsucc : (change.sequence.toUInt32.toUInt64 + 1).toNat = s.localSequence.toNat + 1 := by
        have hnumber' : change.sequence.toUInt32.toUInt64 = s.localSequence := hnumber
        rw [hnumber', UInt64.toNat_add, Nat.mod_eq_of_lt]
        · rfl
        · show s.localSequence.toNat + 1 < 2 ^ 64
          omega
      exact hset _ (by omega) (by omega)
    · rw [if_neg hseq] at h
      by_cases hinit : ¬s.isInitialized = true
      · -- an account without state is marked as initialized
        rw [if_pos hinit] at h
        cases h
        exact hset 1 (by rw [(localSequence_of_not_initialized hinit).1]; decide) (by decide)
      · rw [if_neg hinit] at h
        cases h
        exact ⟨hs, le_rfl, le_rfl, fun _ => hepoch, fun _ hne => absurd hne hseq,
          fun hm => (hother hm).elim, rfl, rfl, rfl, rfl⟩
  | multichain =>
    obtain ⟨hnumber, hmax⟩ := checkChannelSequence_multichain hchannel hcheck
    simp only [hchannel] at h
    have hother : change.channel = .localChain → False := by rw [hchannel]; nofun
    obtain ⟨_, -, ⟨⟩⟩ := bind_return_ok h
    have hlt : s.multichainSequence.toNat < (s.multichainSequence + 1).toNat := by
      have hbound := s.multichainSequence.toNat_lt
      have hne : s.multichainSequence.toNat ≠ 18446744073709551615 := fun heq =>
        hmax (hnumber.trans (UInt64.toNat_inj.mp heq))
      have hadd : (s.multichainSequence + 1).toNat = (s.multichainSequence.toNat + 1) % 2 ^ 64 :=
        UInt64.toNat_add _ 1
      omega
    exact ⟨⟨hs.localSequence, hs.localEpoch, hs.lockUnion, hs.defaultEoaExpiry⟩, le_rfl, hlt.le,
      fun hl => (hother hl).elim, fun hl => (hother hl).elim, fun _ => ⟨hnumber, hlt⟩, rfl, rfl, rfl,
      rfl⟩

/-! ## Creation -/

variable {s t : AccountConfigurationStorage} {created : CreatedAccount}

theorem computeAddress_of_applyCreate (h : applyCreate env s entry = .ok (t, created)) :
    computeAddress env entry.userSalt entry.code entry.initialActors = .ok created.address ∧
    ¬(s.getAccountState created.address).isInitialized = true ∧
    ∃ u event, initializeActors (s.setAccountState created.address
        (createdState (s.getAccountState created.address))) created.address entry.initialActors =
      .ok u ∧ t = u.emitEvent event := by
  obtain ⟨_, -, h⟩ := bind_ok_iff.mp h
  obtain ⟨address, haddress, h⟩ := bind_ok_iff.mp h
  obtain ⟨_, hnew, h⟩ := bind_ok_iff.mp h
  obtain ⟨u, hu, ⟨⟩⟩ := bind_return_ok h
  exact ⟨haddress, failIf_ok_iff.mp hnew, u, _, hu, rfl⟩

/-- The account that is being created: its state word is packed from fields within their widths,
and the sequence number is 1. -/
structure Fresh (account : Address) (s t : AccountConfigurationStorage) : Prop where
  frame : OnlyAccount account s t
  written : ∃ state : AccountState, state.Fits ∧ t.accountState account = state.toWord ∧
    state.localSequence = 1 ∧ state.localEpoch = (s.getAccountState account).localEpoch ∧
    state.multichainSequence = (s.getAccountState account).multichainSequence

theorem authorizeActor_fresh {u : AccountConfigurationStorage}
    {authenticator : Address} {scope : UInt16} (hs : Fresh account s t)
    (h : authorizeActor t account id ⟨authenticator, 0, scope⟩ policyData = .ok u) :
    Fresh account s u := by
  have hfits : (⟨authenticator, 0, scope⟩ : ActorConfig).Fits := by
    show (0 : UInt64).toNat < 2 ^ 48
    decide
  obtain ⟨state, hstate, hword, hcounters⟩ := hs.written
  unfold authorizeActor at h
  split_ifs at h with hself
  · obtain ⟨⟨u', state'⟩, hwrite, ⟨⟩⟩ := bind_return_ok h
    have hread : t.getAccountState account = state := by
      unfold getAccountState
      rw [hword, fromWord_toWord hstate]
    rw [hread] at hwrite
    obtain ⟨x, policy, event, -, -, rfl, hinline⟩ :=
      authorizeActorWithAccountState_ok (Q := fun _ => True) hfits trivial trivial hwrite
    obtain ⟨hframe, -, -⟩ := entry_written t account id x policy event
    refine ⟨(hs.frame.trans hframe).trans .setAccountState, state', hinline.fits hstate,
      update_self .., ?_⟩
    rwa [hinline.localSequence, hinline.localEpoch, hinline.multichainSequence]
  · obtain ⟨policy, event, rfl⟩ := authorizeNonSelfActor_ok h
    obtain ⟨hframe, hsame, -⟩ := entry_written t account id ⟨authenticator, 0, scope⟩ policy event
    exact ⟨hs.frame.trans hframe, state, hstate, by rw [hsame, hword], hcounters⟩

theorem createdState_fits (h : state.Fits) : (createdState state).Fits := by
  have hone : (1 : UInt64).toNat < 2 ^ 32 := by decide
  exact ⟨hone, h.localEpoch, h.lockUnion, h.defaultEoaExpiry⟩

theorem applyCreate_fresh (h : applyCreate env s entry = .ok (t, created)) :
    Fresh created.address s t := by
  obtain ⟨-, -, u, -, hinit, rfl⟩ := computeAddress_of_applyCreate h
  have hstart : Fresh created.address s (s.setAccountState created.address
      (createdState (s.getAccountState created.address))) :=
    ⟨.setAccountState, _, createdState_fits (getAccountState_fits s _),
      update_self .., rfl, rfl, rfl⟩
  obtain ⟨_, -, hinit⟩ := bind_ok_iff.mp hinit
  obtain ⟨⟨last, u'⟩, hfold, ⟨⟩⟩ := bind_return_ok hinit
  -- every initial actor keeps a fresh account fresh
  have hfresh := foldlM_related
    (fun p q : B256 × AccountConfigurationStorage =>
      Fresh created.address s p.2 → Fresh created.address s q.2)
    (fun _ => id) (fun _ _ _ hpq hqr => hqr ∘ hpq) (fun actor _ p q hstep hp => ?_) hfold hstart
  · exact ⟨hfresh.frame.trans .emitEvent, hfresh.written⟩
  · obtain ⟨_, -, hstep⟩ := bind_ok_iff.mp hstep
    obtain ⟨v, hv, ⟨⟩⟩ := bind_return_ok hstep
    exact authorizeActor_fresh hp hv

/-! ## Transactions -/

namespace TransactionAuthorizer

variable {env : Env} {chainId : UInt64} {p q : Progress} {i : ℕ}

theorem step_create (h : step env account chainId now p (.create entry, i) = .ok q) :
    i = 0 ∧ ∃ created : CreatedAccount,
      applyCreate env p.storage entry = .ok (q.storage, created) ∧ created.address = account := by
  obtain ⟨_, -, h⟩ := bind_ok_iff.mp h
  obtain ⟨_, hposition, h⟩ := bind_ok_iff.mp h
  obtain ⟨⟨storage, created⟩, hcreate, h⟩ := bind_ok_iff.mp h
  obtain ⟨_, haddress, ⟨⟩⟩ := bind_return_ok h
  have hfirst := (not_or.mp (failIf_ok_iff.mp hposition)).1
  exact ⟨not_not.mp hfirst, created, mapError_ok_iff.mp hcreate, not_not.mp (failIf_ok_iff.mp haddress)⟩

theorem step_configChange (h : step env account chainId now p (.configChange cc, i) = .ok q) :
    ∃ resolved batch,
      authorizeWithAccountState env p.storage account chainId cc now
        (p.storage.getAccountState account) = .ok resolved ∧
      applyConfigChangeWithAccountState env p.storage account cc.changes cc.channel cc.sequence
        (p.storage.getAccountState account) now = .ok batch ∧
      q.storage = batch.storage.setAccountState account batch.state := by
  obtain ⟨resolved, hauthorize, h⟩ := bind_ok_iff.mp h
  obtain ⟨batch, happly, ⟨⟩⟩ := bind_return_ok h
  exact ⟨resolved, batch, hauthorize, mapError_ok_iff.mp happly, rfl⟩

theorem authorizeAndApply_ok {signed : Eip8130Signed} {result : AppliedTransaction}
    (h : authorizeAndApply env signed s chainId now = .ok (result, t)) :
    ∃ account recovered p, resolveSender env signed = .ok (account, recovered) ∧
      signed.tx.accountChanges.zipIdx.foldlM (step env account chainId now) (Progress.start s) = .ok p ∧
      ActorTxVerifier.verifyWithRecoveredSender env signed p.storage now recovered = .ok result.actors ∧
      (p.applied.delegation.isSome → authorizeDelegation p.storage now result.actors.sender = .ok ()) ∧
      result.applied = p.applied ∧ t = p.storage := by
  obtain ⟨⟨account, recovered⟩, hsender, h⟩ := bind_ok_iff.mp h
  obtain ⟨p, hfold, h⟩ := bind_ok_iff.mp h
  obtain ⟨actors, hactors, h⟩ := bind_ok_iff.mp h
  by_cases hdelegation : p.applied.delegation.isSome = true
  · rw [if_pos hdelegation] at h
    obtain ⟨⟨⟩, hauthorized, ⟨⟩⟩ := bind_return_ok h
    exact ⟨account, recovered, p, hsender, hfold, hactors, fun _ => hauthorized, rfl, rfl⟩
  · rw [if_neg hdelegation] at h
    cases pure_ok_iff.mp h
    exact ⟨account, recovered, p, hsender, hfold, hactors, fun hd => absurd hd hdelegation, rfl, rfl⟩

end TransactionAuthorizer

theorem authorizeWithAccountState_ok {chainId : UInt64} {resolved : ResolvedActor}
    (h : authorizeWithAccountState env s account chainId cc now state = .ok resolved) :
    checkChannelSequence cc state = .ok () ∧
    ActorAuthorizer.authenticateActorWithAccountState env s account
      (changesDigest env account chainId cc) cc.signature now (some state) =
      .ok resolved ∧ resolved.scope = 0 := by
  obtain ⟨⟨⟩, hcheck, h⟩ := bind_ok_iff.mp h
  obtain ⟨actor, hactor, h⟩ := bind_ok_iff.mp h
  obtain ⟨_, hadmin, ⟨⟩⟩ := bind_return_ok h
  have hgranted := Bool.eq_true_of_not_eq_false (failIf_ok_iff.mp hadmin)
  exact ⟨hcheck, mapError_ok_iff.mp hactor, of_decide_eq_true hgranted⟩

end NodeReth.Eip8130
