import NodeReth.Genesis.Rollup

/-!
# The block-time schedule

Block numbers and timestamps determine each other: the schedule before and after Cobalt, the slots
of the blocks that share a second, and the agreement of the two tests for Cobalt, by block number
and by timestamp.
-/

namespace NodeReth

open Nat Words

/-- The millisecond part is aligned to a `BaseTime` slot. -/
def BaseTimeUpdateTx.isValidTimestampMillisPart (timestampMillisPart : ℕ) : Bool :=
  decide (timestampMillisPart < 1000) &&
    decide (timestampMillisPart % RollupConfig.nativeSubsecondBlockIntervalMillis = 0)

namespace RollupConfig

variable (cfg : RollupConfig)

def l2BlockTimestampParts (blockNumber : ℕ) : ℕ × ℕ :=
  let fullMillis := cfg.l2BlockTimestampMillis blockNumber
  (fullMillis / 1000, fullMillis % 1000)

/-- The block number test that `validate_block_timestamp` makes. -/
def isPastCobalt (blockNumber : ℕ) : Bool :=
  match cfg.cobaltActivationBlockNumber with
  | none => false
  | some activation => decide (activation ≤ blockNumber - cfg.genesis.l2Number)

/-! ## The schedule in unbounded arithmetic -/

def legacyMillis (blocks : ℕ) : ℕ := (cfg.genesis.l2Time + blocks * cfg.blockTime) * 1000

def scheduledMillis (blockNumber : ℕ) : ℕ :=
  let blocks := blockNumber - cfg.genesis.l2Number
  match cfg.cobaltActivationBlockNumber with
  | none => cfg.legacyMillis blocks
  | some activation =>
    cfg.legacyMillis (min blocks activation) +
      (blocks - activation) * nativeSubsecondBlockIntervalMillis

/-- The block is not before genesis and its timestamp fits a word. -/
def Unsaturated (blockNumber : ℕ) : Prop :=
  cfg.genesis.l2Number ≤ blockNumber ∧ cfg.scheduledMillis blockNumber ≤ u64Max

theorem satMillis (blocks : ℕ) :
    satMul (satAdd cfg.genesis.l2Time (satMul blocks cfg.blockTime)) 1000 =
      min (cfg.legacyMillis blocks) u64Max := by
  unfold satMul satAdd legacyMillis
  omega

theorem l2BlockTimestampMillis_eq (n : ℕ) :
    cfg.l2BlockTimestampMillis n = min (cfg.scheduledMillis n) u64Max := by
  unfold l2BlockTimestampMillis scheduledMillis
  cases cfg.cobaltActivationBlockNumber with
  | none => exact cfg.satMillis _
  | some activation =>
    simp only [satMillis]
    split_ifs with hbefore
    · rw [min_eq_left hbefore.le, Nat.sub_eq_zero_of_le hbefore.le, Nat.zero_mul, Nat.add_zero]
    · rw [min_eq_right (not_lt.mp hbefore)]
      unfold satAdd satMul
      omega

variable {cfg} {m n : ℕ}

theorem Unsaturated.millis (h : cfg.Unsaturated n) :
    cfg.l2BlockTimestampMillis n = cfg.scheduledMillis n := by
  rw [l2BlockTimestampMillis_eq, min_eq_left h.2]

theorem isPastCobalt_eq_true :
    cfg.isPastCobalt n = true ↔ ∃ activation, cfg.cobaltActivationBlockNumber = some activation ∧
      activation ≤ n - cfg.genesis.l2Number := by
  unfold isPastCobalt
  cases cfg.cobaltActivationBlockNumber <;> simp

variable {activation : ℕ}

theorem scheduledMillis_past (hcobalt : cfg.cobaltActivationBlockNumber = some activation)
    (hpast : activation ≤ n - cfg.genesis.l2Number) :
    cfg.scheduledMillis n = cfg.legacyMillis activation +
      (n - cfg.genesis.l2Number - activation) * nativeSubsecondBlockIntervalMillis := by
  simp [scheduledMillis, hcobalt, min_eq_right hpast]

/-- Up to the activation block, the block itself included, the schedule is the legacy one. -/
theorem scheduledMillis_legacy (hbefore : ∀ activation,
    cfg.cobaltActivationBlockNumber = some activation → n - cfg.genesis.l2Number ≤ activation) :
    cfg.scheduledMillis n = cfg.legacyMillis (n - cfg.genesis.l2Number) := by
  unfold scheduledMillis
  cases hcobalt : cfg.cobaltActivationBlockNumber with
  | none => rfl
  | some activation =>
    have hle := hbefore activation hcobalt
    simp [min_eq_left hle, Nat.sub_eq_zero_of_le hle]

theorem le_activation_of_not_past (h : cfg.isPastCobalt n = false) (activation : ℕ)
    (hcobalt : cfg.cobaltActivationBlockNumber = some activation) :
    n - cfg.genesis.l2Number < activation := by
  by_contra hpast
  exact absurd (isPastCobalt_eq_true.mpr ⟨activation, hcobalt, not_lt.mp hpast⟩) (by simp [h])

/-! ## One block to the next -/

theorem scheduledMillis_succ_past (hpast : cfg.isPastCobalt n = true)
    (hgenesis : cfg.genesis.l2Number ≤ n) :
    cfg.scheduledMillis (n + 1) = cfg.scheduledMillis n + nativeSubsecondBlockIntervalMillis := by
  obtain ⟨activation, hcobalt, hle⟩ := isPastCobalt_eq_true.mp hpast
  rw [scheduledMillis_past hcobalt hle, scheduledMillis_past hcobalt (by omega),
    show n + 1 - cfg.genesis.l2Number - activation = n - cfg.genesis.l2Number - activation + 1 by
      omega, succ_mul, add_assoc]

theorem scheduledMillis_succ_before (hbefore : cfg.isPastCobalt n = false)
    (hgenesis : cfg.genesis.l2Number ≤ n) :
    cfg.scheduledMillis (n + 1) = cfg.scheduledMillis n + cfg.blockTime * 1000 := by
  have hlt := le_activation_of_not_past hbefore
  rw [scheduledMillis_legacy fun a ha => (hlt a ha).le,
    scheduledMillis_legacy fun a ha => by have := hlt a ha; omega, Nat.sub_add_comm hgenesis]
  unfold legacyMillis
  ring

theorem scheduledMillis_add_le_succ (hbt : 0 < cfg.blockTime) (hgenesis : cfg.genesis.l2Number ≤ n) :
    cfg.scheduledMillis n + 200 ≤ cfg.scheduledMillis (n + 1) := by
  cases hpast : cfg.isPastCobalt n with
  | true => exact (scheduledMillis_succ_past hpast hgenesis).ge
  | false =>
    rw [scheduledMillis_succ_before hpast hgenesis]
    omega

theorem scheduledMillis_add_le (hbt : 0 < cfg.blockTime) (hgenesis : cfg.genesis.l2Number ≤ m)
    (hle : m ≤ n) : cfg.scheduledMillis m + (n - m) * 200 ≤ cfg.scheduledMillis n := by
  induction n, hle using le_induction with
  | base => omega
  | succ n hle ih =>
    have hnext := scheduledMillis_add_le_succ hbt (hgenesis.trans hle)
    omega

theorem scheduledMillis_strict (hbt : 0 < cfg.blockTime) (hgenesis : cfg.genesis.l2Number ≤ m)
    (hlt : m < n) : cfg.scheduledMillis m < cfg.scheduledMillis n := by
  have hadd := scheduledMillis_add_le hbt hgenesis hlt.le
  omega

/-! ## The two tests for Cobalt -/

/-- The activation block is the first one whose legacy time reaches the activation time. -/
theorem isPastCobalt_iff (hbt : 0 < cfg.blockTime) :
    cfg.isPastCobalt n = true ↔ cfg.isCobaltActive (cfg.scheduledMillis n / 1000) = true := by
  unfold isCobaltActive activated
  cases hat : cfg.upgradeActivationTimestamp .cobalt with
  | none => simp [isPastCobalt, cobaltActivationBlockNumber, hat]
  | some t =>
    have hcobalt : cfg.cobaltActivationBlockNumber =
        some (divCeil (t - cfg.genesis.l2Time) cfg.blockTime) := by
      simp [cobaltActivationBlockNumber, hat]
    simp only [decide_eq_true_eq]
    constructor
    · intro hpast
      obtain ⟨activation, hsome, hle⟩ := isPastCobalt_eq_true.mp hpast
      have hreach := le_divCeil_mul (t - cfg.genesis.l2Time) hbt
      rw [← Option.some.inj (hcobalt.symm.trans hsome)] at hle
      rw [scheduledMillis_past hcobalt hle, legacyMillis]
      omega
    · intro hactive
      by_contra hnot
      have hlt := le_activation_of_not_past (Bool.eq_false_iff.mpr hnot)
      rw [scheduledMillis_legacy fun a ha => (hlt a ha).le, legacyMillis] at hactive
      have hshort := (divCeil_le_iff hbt).not.mp (not_le.mpr (hlt _ hcobalt))
      omega

/-! ## The blocks of one second -/

theorem scheduledMillis_mod (hpast : cfg.isPastCobalt n = true) :
    cfg.scheduledMillis n % nativeSubsecondBlockIntervalMillis = 0 := by
  obtain ⟨activation, hcobalt, hle⟩ := isPastCobalt_eq_true.mp hpast
  rw [scheduledMillis_past hcobalt hle, legacyMillis]
  unfold nativeSubsecondBlockIntervalMillis
  omega

theorem scheduledMillis_activation (hcobalt : cfg.cobaltActivationBlockNumber = some activation) :
    cfg.scheduledMillis (cfg.genesis.l2Number + activation) = cfg.legacyMillis activation := by
  rw [scheduledMillis_past hcobalt (by omega), Nat.add_sub_cancel_left, Nat.sub_self, Nat.zero_mul,
    add_zero]

/-- A second from the activation block on holds the five blocks of its five slots. -/
theorem fiveBlocks {s : ℕ} (hbt : 0 < cfg.blockTime)
    (hcobalt : cfg.cobaltActivationBlockNumber = some activation)
    (hlater : cfg.legacyMillis activation / 1000 ≤ s) :
    ∃ first, ∀ n, cfg.genesis.l2Number ≤ n →
      (cfg.scheduledMillis n / 1000 = s ↔ first ≤ n ∧ n < first + 5) := by
  refine ⟨cfg.genesis.l2Number + activation +
    (s - (cfg.genesis.l2Time + activation * cfg.blockTime)) * 5, fun n hgenesis => ?_⟩
  by_cases hpast : activation ≤ n - cfg.genesis.l2Number
  · rw [scheduledMillis_past hcobalt hpast]
    unfold legacyMillis at *
    unfold nativeSubsecondBlockIntervalMillis
    omega
  · have hstrict := scheduledMillis_strict hbt hgenesis
      (show n < cfg.genesis.l2Number + activation by omega)
    rw [scheduledMillis_activation hcobalt] at hstrict
    unfold legacyMillis at *
    omega

variable (cfg)

/-- The schedule before and after Cobalt: timestamps grow with the block number and determine it,
the tests by number and by time agree, and past Cobalt each second has five slots. -/
theorem blockSchedule (hbt : 0 < cfg.blockTime) :
    (∀ m n, cfg.Unsaturated m → cfg.Unsaturated n → m < n →
      cfg.l2BlockTimestampMillis m < cfg.l2BlockTimestampMillis n) ∧
    (∀ n, cfg.Unsaturated n →
      (cfg.isPastCobalt n = true ↔ cfg.isCobaltActive (cfg.l2BlockTimestamp n) = true)) ∧
    (∀ n, cfg.Unsaturated n → cfg.isPastCobalt n = true →
      BaseTimeUpdateTx.isValidTimestampMillisPart (cfg.l2BlockTimestampParts n).2 = true ∧
      (cfg.Unsaturated (n + 1) →
        cfg.l2BlockTimestampMillis (n + 1) = cfg.l2BlockTimestampMillis n + 200)) ∧
    (∀ activation s, cfg.cobaltActivationBlockNumber = some activation →
      cfg.l2BlockTimestamp (cfg.genesis.l2Number + activation) ≤ s → s * 1000 + 800 ≤ u64Max →
      ∃ first, ∀ n, cfg.genesis.l2Number ≤ n →
        (cfg.l2BlockTimestamp n = s ↔ first ≤ n ∧ n < first + 5)) ∧
    (∀ m n, cfg.Unsaturated m → cfg.Unsaturated n →
      cfg.l2BlockTimestampParts m = cfg.l2BlockTimestampParts n → m = n) ∧
    (∀ n, cfg.Unsaturated n → cfg.isPastCobalt n = false →
      (cfg.l2BlockTimestampParts n).2 = 0 ∧ (cfg.Unsaturated (n + 1) →
        cfg.l2BlockTimestampMillis (n + 1) = cfg.l2BlockTimestampMillis n + cfg.blockTime * 1000)) := by
  refine ⟨?strict, ?tests, ?past, ?five, ?parts, ?before⟩
  case strict =>
    intro m n hm hn hlt
    rw [hm.millis, hn.millis]
    exact scheduledMillis_strict hbt hm.1 hlt
  case tests =>
    intro n hn
    rw [l2BlockTimestamp, hn.millis]
    exact isPastCobalt_iff hbt
  case past =>
    intro n hn hpast
    refine ⟨?_, fun hnext => ?_⟩
    · have hslot := scheduledMillis_mod hpast
      simp only [BaseTimeUpdateTx.isValidTimestampMillisPart, l2BlockTimestampParts, hn.millis,
        nativeSubsecondBlockIntervalMillis, Bool.and_eq_true, decide_eq_true_eq] at hslot ⊢
      omega
    · rw [hnext.millis, hn.millis]
      exact scheduledMillis_succ_past hpast hn.1
  case five =>
    intro activation s hcobalt hlater hword
    have hmax : u64Max = 18446744073709551615 := by decide
    unfold l2BlockTimestamp at hlater ⊢
    simp only [l2BlockTimestampMillis_eq] at hlater ⊢
    rw [scheduledMillis_activation hcobalt] at hlater
    -- a saturated timestamp lies in a later second than any that holds five slots
    have hcut (x : ℕ) : min x u64Max / 1000 = s ↔ x / 1000 = s := by omega
    simp only [hcut]
    exact fiveBlocks hbt hcobalt (by omega)
  case parts =>
    intro m n hm hn heq
    have hmillis : cfg.scheduledMillis m = cfg.scheduledMillis n := by
      simp only [l2BlockTimestampParts, hm.millis, hn.millis, Prod.mk.injEq] at heq
      omega
    rcases lt_trichotomy m n with hlt | rfl | hlt
    · exact absurd hmillis (scheduledMillis_strict hbt hm.1 hlt).ne
    · rfl
    · exact absurd hmillis (scheduledMillis_strict hbt hn.1 hlt).ne'
  case before =>
    intro n hn hbefore
    refine ⟨?_, fun hnext => ?_⟩
    · have hlt := le_activation_of_not_past hbefore
      rw [l2BlockTimestampParts, hn.millis, scheduledMillis_legacy fun a ha => (hlt a ha).le]
      exact mul_mod_left _ _
    · rw [hnext.millis, hn.millis]
      exact scheduledMillis_succ_before hbefore hn.1

/-- A chain with a late genesis and a Cobalt time between two blocks. -/
def unalignedCobalt : RollupConfig :=
  { sampleRollup with
    genesis := ⟨10, 100⟩
    upgradeActivationTimestamp := fun u => if u = .cobalt then some 105 else none }

theorem blockSchedule_unalignedCobalt : unalignedCobalt.cobaltActivationBlockNumber = some 3 ∧
    unalignedCobalt.l2BlockTimestampParts 12 = (104, 0) ∧
    unalignedCobalt.l2BlockTimestampParts 14 = (106, 200) ∧
    unalignedCobalt.l2BlockTimestampMillis 12 < unalignedCobalt.l2BlockTimestampMillis 14 ∧
    ∃ first, ∀ n, 10 ≤ n → (unalignedCobalt.l2BlockTimestamp n = 107 ↔ first ≤ n ∧ n < first + 5) := by
  obtain ⟨hstrict, -, -, hfive, -, -⟩ := blockSchedule unalignedCobalt (by decide)
  refine ⟨by decide, by decide, by decide, ?_, hfive 3 107 (by decide) (by decide) (by decide)⟩
  exact hstrict 12 14 ⟨by decide, by decide⟩ ⟨by decide, by decide⟩ (by decide)

end RollupConfig

end NodeReth
