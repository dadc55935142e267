import NodeReth.Eip8130.Types
import NodeReth.Lib.Fields

/-!
# Account configuration storage

The storage of the account configuration contract (`account_config.rs`): per actor and account a
packed configuration word with two policy slots, and per account a packed state word. A word that
was packed from fields within their widths is unpacked to the same fields
(`ActorConfig.fromWord_toWord`, `AccountState.fromWord_toWord`).
-/

namespace NodeReth.Eip8130

open Bytes Function

theorem address_in_word : 12 + 20 ≤ 32 := by norm_num

/-! ## Actors -/

structure ActorConfig where
  authenticator : Address
  /-- The last second in which the actor is valid; 0 for no limit. -/
  expiry : UInt64
  scope : UInt16
  deriving DecidableEq

namespace ActorConfig

def empty : ActorConfig := ⟨FixedBytes.zero 20, 0, 0⟩

/-- Bytes `[0..4)` reserved, `[4..6)` scope, `[6..12)` expiry, `[12..32)` authenticator. -/
def fromWord (word : B256) : ActorConfig where
  authenticator := word.sub 12 20 address_in_word
  expiry := UInt64.ofNat (fieldAt word.val 6 6)
  scope := UInt16.ofNat (fieldAt word.val 4 2)

variable (c : ActorConfig)

def isEmpty : Bool := c.authenticator = FixedBytes.zero 20

def isExpired (now : UInt64) : Bool := c.expiry ≠ 0 && now > c.expiry

/-- The numbers in front of the authenticator. -/
def layout : List (ℕ × ℕ) := [(4, 0), (2, c.scope.toNat), (6, c.expiry.toNat)]

def toWord : B256 :=
  ⟨pack c.layout ++ c.authenticator.val, by simp [pack_length, layout, c.authenticator.2]⟩

def Fits : Prop := c.expiry.toNat < 2 ^ 48

theorem toWord_authenticator : c.toWord.sub 12 20 address_in_word = c.authenticator := by
  apply Subtype.ext
  exact List.take_of_length_le c.authenticator.2.le

theorem fromWord_toWord {c : ActorConfig} (h : c.Fits) : fromWord c.toWord = c := by
  have hexpiry : fieldAt c.toWord.val 6 6 = c.expiry.toNat :=
    fieldAt_pack c.layout 2 (by simp [layout]) _ (h.trans_eq (by norm_num [layout]))
  have hscope : fieldAt c.toWord.val 4 2 = c.scope.toNat :=
    fieldAt_pack c.layout 1 (by simp [layout]) _ c.scope.toNat_lt
  unfold fromWord
  rw [toWord_authenticator, hexpiry, hscope, UInt64.ofNat_toNat, UInt16.ofNat_toNat]

end ActorConfig

/-! ## Accounts -/

structure AccountState where
  multichainSequence : UInt64
  localSequence : UInt64
  localEpoch : UInt64
  flags : UInt8
  /-- The delay of an unlock, or the time of one that is under way. -/
  lockUnion : UInt64
  defaultEoaExpiry : UInt64
  defaultEoaScope : UInt16
  deriving DecidableEq

def saturatingAdd (a b : UInt64) : UInt64 := UInt64.ofNat (min (a.toNat + b.toNat) (2 ^ 64 - 1))

namespace AccountState

/-- Byte 0 reserved, `[1..3)` scope and `[3..9)` expiry of the inline key, `[9..15)` lock, byte 15
flags, `[16..20)` epoch, `[20..24)` local sequence, `[24..32)` multichain sequence. -/
def fromWord (word : B256) : AccountState where
  multichainSequence := UInt64.ofNat (fieldAt word.val 24 8)
  localSequence := UInt64.ofNat (fieldAt word.val 20 4)
  localEpoch := UInt64.ofNat (fieldAt word.val 16 4)
  flags := UInt8.ofNat (fieldAt word.val 15 1)
  lockUnion := UInt64.ofNat (fieldAt word.val 9 6)
  defaultEoaExpiry := UInt64.ofNat (fieldAt word.val 3 6)
  defaultEoaScope := UInt16.ofNat (fieldAt word.val 1 2)

def defaultEoaRevoked (s : AccountState) : Bool := s.flags &&& Eip8130.defaultEoaRevoked != 0

def isLocked (s : AccountState) (now : UInt64) : Bool :=
  if s.flags &&& flagLocked = 0 then false
  else if s.flags &&& flagUnlockInitiated = 0 then true
  else now < s.lockUnion

/-- The soonest time at which the account can be unlocked. -/
def unlockFloor (s : AccountState) (now : UInt64) : UInt64 :=
  if s.flags &&& flagUnlockInitiated ≠ 0 then s.lockUnion
  else saturatingAdd now (s.lockUnion &&& 0xffff)

def isInitialized (s : AccountState) : Bool :=
  s.localSequence > 0 || s.localEpoch > 0 || s.multichainSequence > 0

def layout (s : AccountState) : List (ℕ × ℕ) :=
  [(1, 0), (2, s.defaultEoaScope.toNat), (6, s.defaultEoaExpiry.toNat), (6, s.lockUnion.toNat),
    (1, s.flags.toNat), (4, s.localEpoch.toNat), (4, s.localSequence.toNat),
    (8, s.multichainSequence.toNat)]

def toWord (s : AccountState) : B256 := ⟨pack s.layout ++ [], by simp [pack_length, layout]⟩

structure Fits (s : AccountState) : Prop where
  localSequence : s.localSequence.toNat < 2 ^ 32
  localEpoch : s.localEpoch.toNat < 2 ^ 32
  lockUnion : s.lockUnion.toNat < 2 ^ 48
  defaultEoaExpiry : s.defaultEoaExpiry.toNat < 2 ^ 48

theorem fromWord_toWord {s : AccountState} (h : s.Fits) : fromWord s.toWord = s := by
  have hscope : fieldAt s.toWord.val 1 2 = s.defaultEoaScope.toNat :=
    fieldAt_pack s.layout 1 (by simp [layout]) _ s.defaultEoaScope.toNat_lt
  have hexpiry : fieldAt s.toWord.val 3 6 = s.defaultEoaExpiry.toNat :=
    fieldAt_pack s.layout 2 (by simp [layout]) _ (h.defaultEoaExpiry.trans_eq (by norm_num [layout]))
  have hlock : fieldAt s.toWord.val 9 6 = s.lockUnion.toNat :=
    fieldAt_pack s.layout 3 (by simp [layout]) _ (h.lockUnion.trans_eq (by norm_num [layout]))
  have hflags : fieldAt s.toWord.val 15 1 = s.flags.toNat :=
    fieldAt_pack s.layout 4 (by simp [layout]) _ s.flags.toNat_lt
  have hepoch : fieldAt s.toWord.val 16 4 = s.localEpoch.toNat :=
    fieldAt_pack s.layout 5 (by simp [layout]) _ h.localEpoch
  have hsequence : fieldAt s.toWord.val 20 4 = s.localSequence.toNat :=
    fieldAt_pack s.layout 6 (by simp [layout]) _ h.localSequence
  have hmultichain : fieldAt s.toWord.val 24 8 = s.multichainSequence.toNat :=
    fieldAt_pack s.layout 7 (by simp [layout]) _ s.multichainSequence.toNat_lt
  unfold fromWord
  rw [hscope, hexpiry, hlock, hflags, hepoch, hsequence, hmultichain]
  simp

theorem toNat_ofNat_fieldAt_lt (word : B256) (i : ℕ) {n w : ℕ} (h : 256 ^ n = 2 ^ w) :
    (UInt64.ofNat (fieldAt word.val i n)).toNat < 2 ^ w := by
  rw [← h]
  exact (Nat.mod_le _ _).trans_lt (fieldAt_lt word.val i n)

end AccountState

/-! ## Storage -/

/-- Receipt logs of the account configuration contract. -/
inductive Event
  | actorAuthorized (account : Address) (actorId : B256) (actorData : Bytes)
  | actorRevoked (account : Address) (actorId : B256)
  | accountCreated (account : Address) (userSalt codeHash : B256)

structure AccountConfigurationStorage where
  actors : B256 → Address → B256
  policyManager : B256 → Address → Address
  policyCommitment : B256 → Address → B256
  accountState : Address → B256
  logs : List Event

namespace AccountConfigurationStorage

def empty : AccountConfigurationStorage where
  actors _ _ := FixedBytes.zero 32
  policyManager _ _ := FixedBytes.zero 20
  policyCommitment _ _ := FixedBytes.zero 32
  accountState _ := FixedBytes.zero 32
  logs := []

variable (account : Address)

/-- The address, right-aligned in a word. -/
def selfActorId : B256 :=
  ⟨List.replicate 12 0 ++ account.val, by simp [account.2]⟩

variable (s : AccountConfigurationStorage)

def actorConfigSlot (actorId : B256) : ActorConfig :=
  .fromWord (s.actors actorId account)

def getPolicyManager (actorId : B256) : Address :=
  s.policyManager actorId account

def getPolicyCommitment (actorId : B256) : B256 :=
  s.policyCommitment actorId account

def getAccountState : AccountState := .fromWord (s.accountState account)

def isLocked (now : UInt64) : Bool := (s.getAccountState account).isLocked now

/-- The configuration in force, with the inline key taken from a state that is not written yet; an
expired one counts as none. -/
def resolveLiveActorConfigWithState (actorId : B256) (state : AccountState) (now : UInt64) :
    ActorConfig :=
  let stored := s.actorConfigSlot account actorId
  let config :=
    if ¬stored.isEmpty then stored
    else if actorId = selfActorId account ∧ ¬state.defaultEoaRevoked then
      ⟨k1Authenticator, state.defaultEoaExpiry, state.defaultEoaScope⟩
    else .empty
  if config.isExpired now then .empty else config

def setActorConfig (actorId : B256) (config : ActorConfig) : AccountConfigurationStorage :=
  { s with
    actors := update s.actors actorId
      (update (s.actors actorId) account config.toWord) }

def clearActorConfig (actorId : B256) : AccountConfigurationStorage :=
  s.setActorConfig account actorId .empty

def setAccountState (state : AccountState) : AccountConfigurationStorage :=
  { s with accountState := update s.accountState account state.toWord }

def setPolicy (actorId : B256) (manager : Address) (commitment : B256) : AccountConfigurationStorage :=
  { s with
    policyManager := update s.policyManager actorId
      (update (s.policyManager actorId) account manager)
    policyCommitment := update s.policyCommitment actorId
      (update (s.policyCommitment actorId) account commitment) }

def clearPolicy (actorId : B256) : AccountConfigurationStorage :=
  s.setPolicy account actorId (FixedBytes.zero 20) (FixedBytes.zero 32)

def emitEvent (event : Event) : AccountConfigurationStorage := { s with logs := s.logs ++ [event] }

end AccountConfigurationStorage

end NodeReth.Eip8130
