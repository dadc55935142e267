import NodeReth.Lib.Words

/-!
# The rollup configuration

The part of `RollupConfig` that the batcher and the derivation stages read: upgrade activation, the
channel limits and timeouts that depend on it, and the schedule of L2 block timestamps.
-/

namespace NodeReth

open Words

inductive BaseUpgrade
  | regolith | canyon | delta | ecotone | fjord | granite | holocene | pectraBlobSchedule
  | isthmus | jovian | azul | beryl | cobalt | denim | zenith
  deriving DecidableEq, Repr

/-- The genesis block numbers and time that timestamps are counted from. -/
structure ChainGenesis where
  l2Number : ℕ
  l2Time : ℕ

structure RollupConfig where
  genesis : ChainGenesis
  blockTime : ℕ
  maxSequencerDrift : ℕ
  seqWindowSize : ℕ
  channelTimeout : ℕ
  graniteChannelTimeout : ℕ
  l2ChainId : ℕ
  /-- The activation time of an upgrade, runtime overrides included. -/
  upgradeActivationTimestamp : BaseUpgrade → Option ℕ

/-- A chain on which every upgrade is active. -/
def sampleRollup : RollupConfig where
  genesis := ⟨0, 0⟩
  blockTime := 2
  maxSequencerDrift := 600
  seqWindowSize := 3600
  channelTimeout := 300
  graniteChannelTimeout := 50
  l2ChainId := 8453
  upgradeActivationTimestamp _ := some 0

namespace RollupConfig

def maxRlpBytesPerChannelBedrock : ℕ := 10000000

def maxRlpBytesPerChannelFjord : ℕ := 100000000

def fjordMaxSequencerDrift : ℕ := 1800

def nativeSubsecondBlockIntervalMillis : ℕ := 200

variable (cfg : RollupConfig) (timestamp : ℕ)

def activated (u : BaseUpgrade) : Bool :=
  match cfg.upgradeActivationTimestamp u with
  | some t => decide (timestamp ≥ t)
  | none => false

def isJovianActive : Bool := cfg.activated timestamp .jovian

def isIsthmusActive : Bool := cfg.activated timestamp .isthmus || cfg.isJovianActive timestamp

def isHoloceneActive : Bool := cfg.activated timestamp .holocene || cfg.isIsthmusActive timestamp

def isGraniteActive : Bool := cfg.activated timestamp .granite || cfg.isHoloceneActive timestamp

def isFjordActive : Bool := cfg.activated timestamp .fjord || cfg.isGraniteActive timestamp

def isEcotoneActive : Bool := cfg.activated timestamp .ecotone || cfg.isFjordActive timestamp

def isDeltaActive : Bool := cfg.activated timestamp .delta || cfg.isEcotoneActive timestamp

def isCanyonActive : Bool := cfg.activated timestamp .canyon || cfg.isDeltaActive timestamp

def isCobaltActive : Bool := cfg.activated timestamp .cobalt

def isZenithActive : Bool := cfg.activated timestamp .zenith

/-- The block is the first one at which an upgrade is active. -/
def isFirst (active : ℕ → Bool) (parentTimestamp : ℕ) : Bool :=
  active timestamp && !active parentTimestamp

variable (parentTimestamp : ℕ)

def isFirstEcotoneBlock : Bool :=
  isFirst timestamp cfg.isEcotoneActive parentTimestamp

def isFirstFjordBlock : Bool :=
  isFirst timestamp cfg.isFjordActive parentTimestamp

def isFirstGraniteBlock : Bool :=
  isFirst timestamp cfg.isGraniteActive parentTimestamp

def isFirstHoloceneBlock : Bool :=
  isFirst timestamp cfg.isHoloceneActive parentTimestamp

def isFirstIsthmusBlock : Bool :=
  isFirst timestamp cfg.isIsthmusActive parentTimestamp

def isFirstJovianBlock : Bool :=
  isFirst timestamp cfg.isJovianActive parentTimestamp

def maxRlpBytesPerChannel : ℕ :=
  if cfg.isFjordActive timestamp then maxRlpBytesPerChannelFjord else maxRlpBytesPerChannelBedrock

def maxSequencerDriftAt : ℕ :=
  if cfg.isFjordActive timestamp then fjordMaxSequencerDrift else cfg.maxSequencerDrift

def channelTimeoutAt : ℕ :=
  if cfg.isGraniteActive timestamp then cfg.graniteChannelTimeout else cfg.channelTimeout

/-! ## The schedule of L2 blocks -/

/-- The offset from genesis at which Cobalt activates; a block time of zero is refused. -/
def cobaltActivationBlockNumber : Option ℕ :=
  (cfg.upgradeActivationTimestamp .cobalt).map fun t =>
    divCeil (t - cfg.genesis.l2Time) cfg.blockTime

/-- Whole seconds up to Cobalt, then a fixed cadence of 200 ms. -/
def l2BlockTimestampMillis (blockNumber : ℕ) : ℕ :=
  let blocksSinceGenesis := blockNumber - cfg.genesis.l2Number
  let legacySeconds := satAdd cfg.genesis.l2Time (satMul blocksSinceGenesis cfg.blockTime)
  let legacyMillis := satMul legacySeconds 1000
  match cfg.cobaltActivationBlockNumber with
  | none => legacyMillis
  | some activation =>
    if blocksSinceGenesis < activation then legacyMillis
    else
      let activationSeconds := satAdd cfg.genesis.l2Time (satMul activation cfg.blockTime)
      satAdd (satMul activationSeconds 1000)
        (satMul (blocksSinceGenesis - activation) nativeSubsecondBlockIntervalMillis)

def l2BlockTimestamp (blockNumber : ℕ) : ℕ := cfg.l2BlockTimestampMillis blockNumber / 1000

section Later

variable {timestamp} {later : ℕ} (hle : timestamp ≤ later)

include hle

theorem activated_mono {u : BaseUpgrade} (h : cfg.activated timestamp u = true) :
    cfg.activated later u = true := by
  unfold activated at h ⊢
  cases hu : cfg.upgradeActivationTimestamp u with rw [hu] at h
  | none => exact absurd h Bool.false_ne_true
  | some t => exact decide_eq_true (le_trans (of_decide_eq_true h) hle)

theorem isHoloceneActive_mono (h : cfg.isHoloceneActive timestamp = true) :
    cfg.isHoloceneActive later = true := by
  unfold isHoloceneActive isIsthmusActive isJovianActive at h ⊢
  simp only [Bool.or_eq_true] at h ⊢
  exact h.imp (cfg.activated_mono hle) (Or.imp (cfg.activated_mono hle) (cfg.activated_mono hle))

theorem isFjordActive_mono (h : cfg.isFjordActive timestamp = true) :
    cfg.isFjordActive later = true := by
  unfold isFjordActive isGraniteActive at h ⊢
  simp only [Bool.or_eq_true] at h ⊢
  exact h.imp (cfg.activated_mono hle) (Or.imp (cfg.activated_mono hle) (cfg.isHoloceneActive_mono hle))

end Later

theorem maxRlpBytesPerChannel_le :
    cfg.maxRlpBytesPerChannel timestamp ≤ maxRlpBytesPerChannelFjord := by
  unfold maxRlpBytesPerChannel
  split_ifs
  · exact le_rfl
  · decide

end RollupConfig

end NodeReth
