import NodeReth.Eip8130.Spec

/-!
# Replay protection of account changes

Runs of transactions, of which a rejected one leaves no writes, and the history of the account
changes that they applied. The sequence word of a batch is the value of a counter of the account
that the batch then moves on, and no change ever moves a counter back; so no word is used twice
(`change_replay_protection`).
-/

namespace NodeReth.Eip8130

open AccountChangeApplier AccountConfigurationStorage AccountState Fallible Runs
  TransactionAuthorizer

/-! ## Runs -/

structure Timed where
  signed : Eip8130Signed
  now : UInt64

/-- A change that was applied, with the storage before and after it. -/
structure AppliedChange where
  account : Address
  now : UInt64
  change : AccountChange
  before : AccountConfigurationStorage
  after : AccountConfigurationStorage

section Runs

variable (env : Env) (chainId : UInt64)

def process (s : AccountConfigurationStorage) (tx : Timed) : AccountConfigurationStorage :=
  match authorizeAndApply env tx.signed s chainId tx.now with
  | .ok (_, t) => t
  | .error _ => s

def run (s : AccountConfigurationStorage) (txs : List Timed) : AccountConfigurationStorage :=
  txs.foldl (process env chainId) s

def appliedChanges (s : AccountConfigurationStorage) (tx : Timed) : List AppliedChange :=
  match authorizeAndApply env tx.signed s chainId tx.now, resolveSender env tx.signed with
  | .ok _, .ok (account, _) =>
    (journal (step env account chainId tx.now) (Progress.start s)
      tx.signed.tx.accountChanges.zipIdx).map fun x =>
        ⟨account, tx.now, x.2.1.1, x.1.storage, x.2.2.storage⟩
  | _, _ => []

def history : AccountConfigurationStorage → List Timed → List AppliedChange
  | _, [] => []
  | s, tx :: txs => appliedChanges env chainId s tx ++ history (process env chainId s tx) txs

/-- The record of a step of the orchestrator. -/
def AppliedChange.Stepped (v : AppliedChange) : Prop :=
  ∃ p q i, step env v.account chainId v.now p (v.change, i) = .ok q ∧ p.storage = v.before ∧
    q.storage = v.after

end Runs

variable {s t : AccountConfigurationStorage} {v : AppliedChange} {cc : SignedAccountChanges}

section Journal

variable {env : Env} {chainId : UInt64}

theorem appliedChanges_linked (s : AccountConfigurationStorage) (tx : Timed) :
    Linked AppliedChange.before AppliedChange.after s (appliedChanges env chainId s tx)
      (process env chainId s tx) := by
  unfold appliedChanges process
  cases h : authorizeAndApply env tx.signed s chainId tx.now with
  | error e => exact .nil s
  | ok r =>
    obtain ⟨account, recovered, p, hsender, hfold, -, -, -, ht⟩ := authorizeAndApply_ok h
    simp only [hsender]
    rw [ht]
    exact Linked.map AppliedChange.before AppliedChange.after Progress.storage
      (fun x => ⟨account, tx.now, x.2.1.1, x.1.storage, x.2.2.storage⟩) (fun _ => rfl)
      (fun _ => rfl) (journal_linked hfold)

theorem appliedChanges_stepped {tx : Timed}
    (hv : v ∈ appliedChanges env chainId s tx) : v.Stepped env chainId := by
  unfold appliedChanges at hv
  split at hv
  · obtain ⟨⟨p, ⟨change, i⟩, q⟩, hx, rfl⟩ := List.mem_map.mp hv
    exact ⟨p, q, i, journal_step hx, rfl, rfl⟩
  · cases hv

theorem history_linked (s : AccountConfigurationStorage) (txs : List Timed) :
    Linked AppliedChange.before AppliedChange.after s (history env chainId s txs)
      (run env chainId s txs) := by
  induction txs generalizing s with
  | nil => exact .nil s
  | cons tx txs ih => exact (appliedChanges_linked s tx).append (ih (process env chainId s tx))

theorem history_stepped {txs : List Timed}
    (hv : v ∈ history env chainId s txs) : v.Stepped env chainId := by
  induction txs generalizing s with
  | nil => cases hv
  | cons tx txs ih =>
    rcases List.mem_append.mp hv with hv | hv
    · exact appliedChanges_stepped hv
    · exact ih hv

end Journal

/-! ## What a change does to the counters -/

structure Grows (s t : AccountConfigurationStorage) : Prop where
  localWord : ∀ a, (s.getAccountState a).localWord ≤ (t.getAccountState a).localWord
  multichain : ∀ a, (s.getAccountState a).multichainSequence.toNat ≤
    (t.getAccountState a).multichainSequence.toNat

theorem Grows.refl (s : AccountConfigurationStorage) : Grows s s := ⟨fun _ => le_rfl, fun _ => le_rfl⟩

variable {account : Address}

theorem Grows.trans {u : AccountConfigurationStorage} (h : Grows s t) (h' : Grows t u) : Grows s u :=
  ⟨fun a => (h.localWord a).trans (h'.localWord a), fun a => (h.multichain a).trans (h'.multichain a)⟩

/-- Where only one account changes, only its counters have to be looked at. -/
theorem Grows.of_onlyAccount (h : OnlyAccount account s t)
    (hword : (s.getAccountState account).localWord ≤ (t.getAccountState account).localWord)
    (hmulti : (s.getAccountState account).multichainSequence.toNat ≤
      (t.getAccountState account).multichainSequence.toNat) : Grows s t := by
  constructor
  · intro a
    by_cases ha : a = account
    · exact ha ▸ hword
    · rw [h.getAccountState ha]
  · intro a
    by_cases ha : a = account
    · exact ha ▸ hmulti
    · rw [h.getAccountState ha]

/-- What is known of a batch that was applied to the storage `s`. -/
structure BatchApplied (account : Address) (now : UInt64) (cc : SignedAccountChanges)
    (s t : AccountConfigurationStorage) (batch : Batch) : Prop where
  consumed : ∃ advanced, Consumed cc (s.getAccountState account) advanced ∧
    BatchEffect account
      (Installable (cc.channel = .localChain && cc.sequence.toUInt32 = unsequenced) now)
      ⟨s, advanced, 0⟩ batch ∧
    ∀ op ∈ cc.changes, op.changeType = .incrementLocalEpoch →
      advanced.localEpoch.toNat < batch.state.localEpoch.toNat
  fits : batch.state.Fits
  after : t = batch.storage.setAccountState account batch.state

theorem batchApplied_of_step {env : Env} {chainId now : UInt64} {p q : Progress} {i : ℕ}
    (h : step env account chainId now p (.configChange cc, i) = .ok q) :
    ∃ batch, applyConfigChangeWithAccountState env p.storage account cc.changes cc.channel
        cc.sequence (p.storage.getAccountState account) now = .ok batch ∧
      BatchApplied account now cc p.storage q.storage batch := by
  obtain ⟨resolved, batch, hauthorize, happly, hq⟩ := step_configChange h
  obtain ⟨hcheck, -, -⟩ := authorizeWithAccountState_ok hauthorize
  obtain ⟨_, -, hchecked⟩ := bind_ok_iff.mp happly
  obtain ⟨advanced, hadvance, hfold⟩ := bind_ok_iff.mp hchecked
  have hconsumed := advanceChannelSequence_consumed (getAccountState_fits _ _) hcheck hadvance
  have heffect := applyChanges_effect hfold
  refine ⟨batch, happly, ⟨advanced, hconsumed, heffect, fun op hop hkind => ?_⟩,
    (heffect.grows hconsumed.fits).1, hq⟩
  exact applyChanges_epoch hfold hop hkind hconsumed.fits

namespace BatchApplied

variable {account : Address} {now : UInt64} {batch : Batch}

section

variable (h : BatchApplied account now cc s t batch)

include h

theorem getAccountState : t.getAccountState account = batch.state := by
  rw [h.after]
  exact getAccountState_setAccountState h.fits _ _

theorem onlyAccount : OnlyAccount account s t := by
  obtain ⟨advanced, -, heffect, -⟩ := h.consumed
  rw [h.after]
  exact heffect.frame.trans .setAccountState

theorem grows : Grows s t := by
  obtain ⟨advanced, hconsumed, heffect, -⟩ := h.consumed
  have hread := h.getAccountState
  refine .of_onlyAccount h.onlyAccount ?_ ?_
  · rw [hread]
    exact hconsumed.localWord_le.trans (heffect.grows hconsumed.fits).2
  · rw [hread, heffect.multichain]
    exact hconsumed.multichain_le

theorem sequenced (hchannel : cc.channel = .localChain) (hseq : cc.seq ≠ unsequenced) :
    toLex (cc.epoch.toNat, cc.seq.toNat) = (s.getAccountState account).localWord ∧
      (s.getAccountState account).localWord < (t.getAccountState account).localWord := by
  obtain ⟨advanced, hconsumed, heffect, -⟩ := h.consumed
  obtain ⟨hnumber, hlt⟩ := hconsumed.sequenced hchannel hseq
  constructor
  · unfold AccountState.localWord
    rw [hconsumed.epoch hchannel, ← hnumber, UInt32.toNat_toUInt64]
  · rw [h.getAccountState]
    exact hlt.trans_le (heffect.grows hconsumed.fits).2

theorem multichain (hchannel : cc.channel = .multichain) :
    cc.sequence = (s.getAccountState account).multichainSequence ∧
      (s.getAccountState account).multichainSequence.toNat <
        (t.getAccountState account).multichainSequence.toNat := by
  obtain ⟨advanced, hconsumed, heffect, -⟩ := h.consumed
  obtain ⟨hnumber, hlt⟩ := hconsumed.multichain hchannel
  rw [h.getAccountState, heffect.multichain]
  exact ⟨hnumber, hlt⟩

theorem epoch (hchannel : cc.channel = .localChain) :
    cc.epoch = (s.getAccountState account).localEpoch := by
  obtain ⟨advanced, hconsumed, -, -⟩ := h.consumed
  exact hconsumed.epoch hchannel

theorem epoch_lt {op : SignedChange}
    (hop : op ∈ cc.changes) (hkind : op.changeType = .incrementLocalEpoch) :
    (s.getAccountState account).localEpoch.toNat < (t.getAccountState account).localEpoch.toNat := by
  obtain ⟨advanced, hconsumed, -, hincrement⟩ := h.consumed
  rw [h.getAccountState, ← hconsumed.rest.1]
  exact hincrement op hop hkind

/-- What a batch that can be replayed puts into a slot has not expired. -/
theorem actorConfigSlot (hchannel : cc.channel = .localChain) (hseq : cc.seq = unsequenced) {id : B256}
    (hnew : t.actorConfigSlot account id ≠ s.actorConfigSlot account id) :
    (t.actorConfigSlot account id).isExpired now = false := by
  obtain ⟨advanced, -, heffect, -⟩ := h.consumed
  have hunsequenced : (cc.channel = .localChain && cc.sequence.toUInt32 = unsequenced) = true := by
    rw [hchannel]
    exact decide_eq_true hseq
  have hslot : t.actors id account = batch.storage.actors id account := by rw [h.after]; rfl
  unfold AccountConfigurationStorage.actorConfigSlot at hnew ⊢
  rw [hslot] at hnew ⊢
  rcases heffect.entries id with hsame | ⟨x, hfits, hx, hword⟩
  · exact absurd (congrArg ActorConfig.fromWord hsame) hnew
  · rw [hword, ActorConfig.fromWord_toWord hfits]
    exact hx hunsequenced

theorem inline (hchannel : cc.channel = .localChain)
    (hseq : cc.seq = unsequenced) (hnew : ¬((t.getAccountState account).defaultEoaRevoked =
        (s.getAccountState account).defaultEoaRevoked ∧
      (t.getAccountState account).defaultEoaExpiry = (s.getAccountState account).defaultEoaExpiry ∧
      (t.getAccountState account).defaultEoaScope = (s.getAccountState account).defaultEoaScope)) :
    ¬((t.getAccountState account).defaultEoaExpiry ≠ 0 ∧
      now > (t.getAccountState account).defaultEoaExpiry) := by
  obtain ⟨advanced, hconsumed, heffect, -⟩ := h.consumed
  obtain ⟨-, hrest⟩ := hconsumed.rest
  have hunsequenced : (cc.channel = .localChain && cc.sequence.toUInt32 = unsequenced) = true := by
    rw [hchannel]
    exact decide_eq_true hseq
  rw [h.getAccountState] at hnew ⊢
  rcases heffect.inline with ⟨hrevoked, hexpiry, hscope⟩ | ⟨x, -, hx, hexpiry, -⟩
  · exact absurd ⟨hrevoked.trans hrest.1, hexpiry.trans hrest.2.1, hscope.trans hrest.2.2⟩ hnew
  · have hlive := hx hunsequenced
    rw [hexpiry]
    unfold ActorConfig.isExpired at hlive
    simpa using hlive

end

end BatchApplied

/-! ## What a creation does to the counters -/

theorem Fresh.getAccountState (h : Fresh account s t) : (t.getAccountState account).localSequence = 1 ∧
    (t.getAccountState account).localEpoch = (s.getAccountState account).localEpoch ∧
    (t.getAccountState account).multichainSequence =
      (s.getAccountState account).multichainSequence := by
  obtain ⟨state, hfits, hword, hcounters⟩ := h.written
  have hread : t.getAccountState account = state := by
    unfold AccountConfigurationStorage.getAccountState
    rw [hword, fromWord_toWord hfits]
  rwa [hread]

theorem Fresh.grows (h : Fresh account s t)
    (hnew : ¬(s.getAccountState account).isInitialized = true) : Grows s t := by
  obtain ⟨hseq, hepoch, hmulti⟩ := h.getAccountState
  have hzero := (localSequence_of_not_initialized hnew).1
  refine .of_onlyAccount h.frame (localWord_lt_of_sequence hepoch ?_).le
    (congrArg UInt64.toNat hmulti).ge
  rw [hseq, hzero]
  decide

/-! ## The history -/

namespace AppliedChange

variable {env : Env} {chainId : UInt64} {w : AppliedChange}

/-- Two batches of one account with the same word of one counter; a word of the local channel that
consumes no counter does not count. -/
def SameWord (v w : AppliedChange) : Prop :=
  v.account = w.account ∧ ∃ b c, v.change = .configChange b ∧ w.change = .configChange c ∧
    b.channel = c.channel ∧ b.sequence = c.sequence ∧
    (b.channel = .localChain → b.seq ≠ unsequenced)

/-- A batch that increments the epoch of its account. -/
def IncrementsEpoch (v : AppliedChange) : Prop :=
  ∃ b, v.change = .configChange b ∧ ∃ op ∈ b.changes, op.changeType = .incrementLocalEpoch

def stateBefore (v : AppliedChange) : AccountState := v.before.getAccountState v.account

def stateAfter (v : AppliedChange) : AccountState := v.after.getAccountState v.account

/-- Whatever the change puts into a slot of an actor, or into the inline key, has not expired. -/
structure InstallsLive (v : AppliedChange) : Prop where
  entries : ∀ id, v.after.actorConfigSlot v.account id ≠ v.before.actorConfigSlot v.account id →
    (v.after.actorConfigSlot v.account id).isExpired v.now = false
  inline : ¬(v.stateAfter.defaultEoaRevoked = v.stateBefore.defaultEoaRevoked ∧
      v.stateAfter.defaultEoaExpiry = v.stateBefore.defaultEoaExpiry ∧
      v.stateAfter.defaultEoaScope = v.stateBefore.defaultEoaScope) →
    ¬(v.stateAfter.defaultEoaExpiry ≠ 0 ∧ v.now > v.stateAfter.defaultEoaExpiry)

/-- The state of the account is the one that was written last: for a batch the one that its
operations computed, for a creation one with sequence number 1. -/
def ReadsBack (env : Env) (v : AppliedChange) : Prop :=
  match v.change with
  | .create _ => ∃ state : AccountState, state.Fits ∧ state.localSequence = 1 ∧
      v.after.accountState v.account = state.toWord ∧ v.stateAfter = state
  | .configChange cc => ∃ batch : Batch,
      applyConfigChangeWithAccountState env v.before v.account cc.changes cc.channel cc.sequence
        v.stateBefore v.now = .ok batch ∧ batch.state.Fits ∧
      v.after.accountState v.account = batch.state.toWord ∧ v.stateAfter = batch.state
  | .delegation _ => v.after.accountState v.account = v.before.accountState v.account

section

variable (h : v.Stepped env chainId)

include h

namespace Stepped

theorem batchApplied (hchange : v.change = .configChange cc) :
    ∃ batch, applyConfigChangeWithAccountState env v.before v.account cc.changes cc.channel
        cc.sequence v.stateBefore v.now = .ok batch ∧
      BatchApplied v.account v.now cc v.before v.after batch := by
  obtain ⟨p, q, i, hstep, hp, hq⟩ := h
  rw [hchange] at hstep
  obtain ⟨batch, happly, hbatch⟩ := batchApplied_of_step hstep
  rw [hp] at happly
  rw [hp, hq] at hbatch
  exact ⟨batch, happly, hbatch⟩

theorem fresh {entry : CreateEntry} (hchange : v.change = .create entry) :
    Fresh v.account v.before v.after ∧ ¬v.stateBefore.isInitialized = true := by
  obtain ⟨p, q, i, hstep, hp, hq⟩ := h
  rw [hchange] at hstep
  obtain ⟨-, created, hcreate, haddress⟩ := step_create hstep
  have hfresh := applyCreate_fresh hcreate
  obtain ⟨-, hnew, -⟩ := computeAddress_of_applyCreate hcreate
  rw [haddress, hp] at hnew
  rw [haddress, hp, hq] at hfresh
  exact ⟨hfresh, hnew⟩

theorem same {target : Address}
    (hchange : v.change = .delegation target) : v.after = v.before := by
  obtain ⟨p, q, i, hstep, hp, hq⟩ := h
  rw [hchange] at hstep
  obtain ⟨_, -, hinstall⟩ := bind_ok_iff.mp hstep
  obtain ⟨_, -, ⟨⟩⟩ := bind_return_ok hinstall
  exact hq.symm.trans hp

theorem grows : Grows v.before v.after := by
  cases hchange : v.change with
  | create entry =>
    obtain ⟨hfresh, hnew⟩ := h.fresh hchange
    exact hfresh.grows hnew
  | configChange cc =>
    obtain ⟨batch, -, hbatch⟩ := h.batchApplied hchange
    exact hbatch.grows
  | delegation target =>
    rw [h.same hchange]
    exact .refl _

theorem onlyAccount : OnlyAccount v.account v.before v.after := by
  cases hchange : v.change with
  | create entry => exact (h.fresh hchange).1.frame
  | configChange cc =>
    obtain ⟨batch, -, hbatch⟩ := h.batchApplied hchange
    exact hbatch.onlyAccount
  | delegation target =>
    rw [h.same hchange]
    exact .refl _ _

theorem readsBack : v.ReadsBack env := by
  unfold ReadsBack
  cases hchange : v.change with
  | create entry =>
    obtain ⟨state, hfits, hword, hseq, -⟩ := (h.fresh hchange).1.written
    refine ⟨state, hfits, hseq, hword, ?_⟩
    unfold stateAfter getAccountState
    rw [hword, fromWord_toWord hfits]
  | configChange cc =>
    obtain ⟨batch, happly, hbatch⟩ := h.batchApplied hchange
    refine ⟨batch, happly, hbatch.fits, ?_, hbatch.getAccountState⟩
    rw [hbatch.after]
    exact Function.update_self ..
  | delegation target =>
    rw [h.same hchange]

end Stepped

end

theorem not_sameWord (hv : v.Stepped env chainId) (hw : w.Stepped env chainId)
    (hgrows : Grows v.after w.before) : ¬SameWord v w := by
  rintro ⟨haccount, b, c, hb, hc, hchannel, hsequence, hsequenced⟩
  obtain ⟨_, -, hbatch⟩ := hv.batchApplied hb
  obtain ⟨_, -, hbatch'⟩ := hw.batchApplied hc
  rw [← haccount] at hbatch'
  cases hkind : b.channel with
  | localChain =>
    have hseq := hsequenced hkind
    have hseq' : c.seq ≠ unsequenced := by
      unfold SignedAccountChanges.seq at hseq ⊢
      rwa [← hsequence]
    obtain ⟨hword, hlt⟩ := hbatch.sequenced hkind hseq
    obtain ⟨hword', -⟩ := hbatch'.sequenced (hchannel ▸ hkind) hseq'
    have hsame : toLex (b.epoch.toNat, b.seq.toNat) = toLex (c.epoch.toNat, c.seq.toNat) := by
      unfold SignedAccountChanges.epoch SignedAccountChanges.seq
      rw [hsequence]
    refine absurd ?_ (lt_irrefl (toLex (b.epoch.toNat, b.seq.toNat)))
    calc toLex (b.epoch.toNat, b.seq.toNat) = v.stateBefore.localWord := hword
      _ < v.stateAfter.localWord := hlt
      _ ≤ (w.before.getAccountState v.account).localWord := hgrows.localWord v.account
      _ = toLex (b.epoch.toNat, b.seq.toNat) := hword'.symm.trans hsame.symm
  | multichain =>
    obtain ⟨hnumber, hlt⟩ := hbatch.multichain hkind
    obtain ⟨hnumber', -⟩ := hbatch'.multichain (hchannel ▸ hkind)
    have hle := hgrows.multichain v.account
    rw [← hnumber', ← hsequence, hnumber] at hle
    exact absurd hlt hle.not_gt

theorem Stepped.epoch_lt (h : v.Stepped env chainId) (hincrements : v.IncrementsEpoch) :
    v.stateBefore.localEpoch.toNat < v.stateAfter.localEpoch.toNat := by
  obtain ⟨b, hb, op, hop, hkind⟩ := hincrements
  obtain ⟨_, -, hbatch⟩ := h.batchApplied hb
  exact hbatch.epoch_lt hop hkind

theorem not_created_twice (hv : v.Stepped env chainId) (hw : w.Stepped env chainId)
    (hgrows : Grows v.after w.before) (haccount : v.account = w.account) {entry : CreateEntry}
    (hentry : v.change = .create entry) (entry' : CreateEntry) : w.change ≠ .create entry' := by
  intro hentry'
  obtain ⟨hfresh, -⟩ := hv.fresh hentry
  obtain ⟨-, hnew⟩ := hw.fresh hentry'
  obtain ⟨hseq, hepoch, -⟩ := localSequence_of_not_initialized hnew
  have hle := hgrows.localWord v.account
  unfold stateBefore at hseq hepoch
  rw [← haccount] at hseq hepoch
  rcases Prod.Lex.le_iff.mp hle with hlt | ⟨-, hle⟩
  · have hlt' : (v.after.getAccountState v.account).localEpoch.toNat <
        (w.before.getAccountState v.account).localEpoch.toNat := hlt
    rw [hepoch] at hlt'
    exact absurd hlt' (Nat.not_lt_zero _)
  · have hle' : (v.after.getAccountState v.account).localSequence.toNat ≤
        (w.before.getAccountState v.account).localSequence.toNat := hle
    rw [hseq, hfresh.getAccountState.1] at hle'
    exact absurd hle' (by decide)

end AppliedChange

/-- A fact about two records of the history that follows from the growth of the counters between
them. -/
theorem history_pairwise {env : Env} {chainId : UInt64}
    {txs : List Timed} {P : AppliedChange → AppliedChange → Prop}
    (h : ∀ v w : AppliedChange, v.Stepped env chainId → w.Stepped env chainId →
      Grows v.after w.before → P v w) : (history env chainId s txs).Pairwise P :=
  ((history_linked s txs).pairwise_at (fun _ => ()) (fun _ => Grows) (fun _ => Grows.refl)
    (fun _ _ _ _ => .trans) (fun _ _ _ _ _ => id) (fun _ hv => (history_stepped hv).grows)
    (List.pairwise_of_forall fun _ _ => le_rfl)).imp_of_mem fun hv hw =>
      h _ _ (history_stepped hv) (history_stepped hw)

section ReplayProtection

open AppliedChange

/-- Replay protection of account changes, from any storage and at any block times: the counters
never go back, no word of a counter is applied twice, no batch of an earlier epoch follows an
increment, a batch that can be replayed installs no expired actor, an account is created once, and
the state that was written is read. -/
theorem change_replay_protection (env : Env) (chainId : UInt64) (s : AccountConfigurationStorage)
    (txs : List Timed) :
    (∀ earlier later, txs = earlier ++ later → ∀ a,
      ((run env chainId s earlier).getAccountState a).localWord ≤
        ((run env chainId s txs).getAccountState a).localWord ∧
      ((run env chainId s earlier).getAccountState a).multichainSequence.toNat ≤
        ((run env chainId s txs).getAccountState a).multichainSequence.toNat) ∧
    (history env chainId s txs).Pairwise (fun v w => ¬SameWord v w) ∧
    (∀ v ∈ history env chainId s txs, v.IncrementsEpoch →
      v.stateBefore.localEpoch.toNat < v.stateAfter.localEpoch.toNat) ∧
    (history env chainId s txs).Pairwise (fun v w => v.IncrementsEpoch → v.account = w.account →
      ∀ c, w.change = .configChange c → c.channel = .localChain →
        v.stateAfter.localEpoch.toNat ≤ c.epoch.toNat) ∧
    (∀ v ∈ history env chainId s txs, ∀ b, v.change = .configChange b → b.channel = .localChain →
      b.seq = unsequenced → v.InstallsLive) ∧
    (history env chainId s txs).Pairwise (fun v w => v.account = w.account →
      ∀ entry entry', v.change = .create entry → w.change ≠ .create entry') ∧
    (∀ v ∈ history env chainId s txs, v.ReadsBack env) := by
  refine ⟨?_, ?_, ?_, ?_, ?_, ?_, ?_⟩
  · rintro earlier later rfl a
    have hgrows : Grows _ (run env chainId (run env chainId s earlier) later) :=
      (history_linked _ later).related Grows Grows.refl (fun _ _ _ => .trans)
        fun _ hv => (history_stepped hv).grows
    have hrun : run env chainId s (earlier ++ later) =
        run env chainId (run env chainId s earlier) later :=
      List.foldl_append
    rw [hrun]
    exact ⟨hgrows.localWord a, hgrows.multichain a⟩
  · exact history_pairwise fun v w hv hw hgrows => not_sameWord hv hw hgrows
  · exact fun v hv hincrements => (history_stepped hv).epoch_lt hincrements
  · -- a batch of the local channel is never older than an epoch increment before it
    refine history_pairwise fun v w _ hw hgrows _ haccount c hc hchannel => ?_
    obtain ⟨_, -, hbatch⟩ := hw.batchApplied hc
    rw [hbatch.epoch hchannel, ← haccount]
    exact localEpoch_le (hgrows.localWord v.account)
  · intro v hv b hb hchannel hseq
    obtain ⟨_, -, hbatch⟩ := (history_stepped hv).batchApplied hb
    exact ⟨fun _ => hbatch.actorConfigSlot hchannel hseq, hbatch.inline hchannel hseq⟩
  · exact history_pairwise fun v w hv hw hgrows haccount _ entry' hentry =>
      not_created_twice hv hw hgrows haccount hentry entry'
  · exact fun v hv => (history_stepped hv).readsBack

end ReplayProtection

end NodeReth.Eip8130
