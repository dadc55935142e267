import NodeReth.Genesis.Rollup
import NodeReth.Lib.Bytes
import NodeReth.Lib.Checked

/-!
# L1 fees

What a transaction pays besides its gas (`l1-fees/src/params.rs`, `flz/src/flz.rs` and
`evm/src/l1block.rs`): the cost of posting it on L1, from the length that the FastLZ compression of
its bytes would have, and the fee of the operator, which grows with the gas
(`operatorFeeCharge_mono`). The block info keeps the L1 cost of the transaction that is being
executed, so that later reads of it agree with the first.
-/

namespace NodeReth

open Bytes Checked

/-! ## FastLZ -/

namespace Flz

def nonZeroByteCost : ℕ := 16
def l1CostFastlzCoef : ℕ := 836500
def l1CostIntercept : ℕ := 42585600
def minTxSizeScaled : ℕ := 100 * 1000000

def byteAt (input : Bytes) (i : ℕ) : ℕ := (input.getD i 0).toNat

def u24 (input : Bytes) (idx : ℕ) : ℕ :=
  byteAt input idx + byteAt input (idx + 1) <<< 8 + byteAt input (idx + 2) <<< 16

def hash (v : ℕ) : ℕ := (v * 2654435769) >>> 19 % 2 ^ 16 &&& 0x1fff

def literals (r size : ℕ) : ℕ :=
  let size := size + 0x21 * (r / 0x20)
  let r := r % 0x20
  if r ≠ 0 then size + r + 1 else size

/-- Counts equal bytes from two positions on, and the first unequal one. -/
def cmpFrom (input : Bytes) (p q : ℕ) : ℕ → ℕ → ℕ
  | 0, l => l
  | n + 1, l =>
    if byteAt input (p + l) ≠ byteAt input (q + l) then l + 1 else cmpFrom input p q n (l + 1)

def cmp (input : Bytes) (p q r : ℕ) : ℕ := cmpFrom input p q (r - q) 0

def flzMatch (l size : ℕ) : ℕ :=
  let l := l - 1
  let size := size + 3 * (l / 262)
  if l % 262 ≥ 6 then size + 3 else size + 2

/-- The last position of every hash. -/
abbrev HashTable := ℕ → ℕ

def setNextHash (htab : HashTable) (input : Bytes) (idx : ℕ) : HashTable × ℕ :=
  (Function.update htab (hash (u24 input idx)) idx, idx + 1)

/-- Looks for a position whose three bytes occurred shortly before; the position behind it, and that
earlier one. -/
def search (input : Bytes) (idxLimit : ℕ) : ℕ → HashTable → ℕ → HashTable × ℕ × ℕ
  | 0, htab, idx => (htab, idx, 0)
  | n + 1, htab, idx =>
    let seq := u24 input idx
    let r := htab (hash seq)
    let htab := Function.update htab (hash seq) idx
    if idx ≥ idxLimit then (htab, idx, r)
    else if idx - r < 8192 ∧ seq = u24 input r then (htab, idx + 1, r)
    else search input idxLimit n htab (idx + 1)

/-- The main loop: the size so far and the start of what has not been written. Every round passes at
least one position. -/
def compress (input : Bytes) (idxLimit : ℕ) : ℕ → HashTable → ℕ → ℕ → ℕ → ℕ × ℕ
  | 0, _, _, anchor, size => (anchor, size)
  | n + 1, htab, idx, anchor, size =>
    if idx < idxLimit then
      let (htab, idx, r) := search input idxLimit (idxLimit + 1 - idx) htab idx
      if idx ≥ idxLimit then (anchor, size)
      else
        let idx := idx - 1
        let size := if idx > anchor then literals (idx - anchor) size else size
        let len := cmp input (r + 3) (idx + 3) (idxLimit + 9)
        let size := flzMatch len size
        let (htab, idx) := setNextHash htab input (idx + len)
        let (htab, idx) := setNextHash htab input idx
        compress input idxLimit n htab idx idx size
    else (anchor, size)

def flzCompressLen (input : Bytes) : ℕ :=
  let idxLimit := if input.length < 13 then 0 else input.length - 13
  let (anchor, size) := compress input idxLimit input.length (fun _ => 0) 2 0 0
  literals (input.length - anchor) size

example : flzCompressLen [0xfa, 0xca, 0xde] = 4 := by decide

def txEstimatedSizeFjord (input : Bytes) : ℕ :=
  max (Words.satMul (flzCompressLen input) l1CostFastlzCoef - l1CostIntercept) minTxSizeScaled

end Flz

/-! ## Specs -/

/-- The position of an upgrade in the order of activation, behind Bedrock. -/
def BaseUpgrade.discriminant : BaseUpgrade → ℕ
  | regolith => 1
  | canyon => 2
  | delta => 3
  | ecotone => 4
  | fjord => 5
  | granite => 6
  | holocene => 7
  | pectraBlobSchedule => 8
  | isthmus => 9
  | jovian => 10
  | azul => 11
  | beryl => 12
  | cobalt => 13
  | denim => 14
  | zenith => 15

/-- What the rules of a block are: those of Bedrock, or of an upgrade. -/
inductive BaseSpecId
  | bedrock
  | upgrade (u : BaseUpgrade)
  deriving DecidableEq

def BaseSpecId.discriminant : BaseSpecId → ℕ
  | bedrock => 0
  | upgrade u => u.discriminant

def BaseSpecId.isEnabledIn (spec : BaseSpecId) (target : BaseUpgrade) : Bool :=
  target.discriminant ≤ spec.discriminant

/-! ## Fee parameters -/

structure L1FeeParams where
  l1BaseFee : BitVec 256
  l1FeeOverhead : Option (BitVec 256)
  l1BaseFeeScalar : BitVec 256
  l1BlobBaseFee : Option (BitVec 256)
  l1BlobBaseFeeScalar : Option (BitVec 256)
  operatorFeeScalar : Option (BitVec 256)
  operatorFeeConstant : Option (BitVec 256)
  /-- Ecotone is active, but its scalars have not been set. -/
  emptyEcotoneScalars : Bool
  deriving DecidableEq

namespace L1FeeParams

def standardTokenCost : ℕ := 4
def nonZeroByteMultiplierIstanbul : ℕ := 4
def operatorFeeScalarDecimal : ℕ := 1000000
def operatorFeeJovianMultiplier : ℕ := 100
def depositTxType : UInt8 := 0x7e
def preRegolithSignatureBytes : ℕ := 68

def isFeeExempt (input : Bytes) : Bool := input.isEmpty || input.head? == some depositTxType

def dataGas (input : Bytes) (spec : BaseSpecId) : BitVec 256 :=
  if spec.isEnabledIn .fjord then
    saturatingMul (.ofNat 256 (Flz.txEstimatedSizeFjord input)) (.ofNat 256 Flz.nonZeroByteCost) /
      1000000
  else
    let tokens := (input.map fun b => if b = 0 then 1 else nonZeroByteMultiplierIstanbul).sum
    let tokens := if spec.isEnabledIn .regolith then tokens
      else tokens + preRegolithSignatureBytes * nonZeroByteMultiplierIstanbul
    .ofNat 256 (Words.satMul tokens standardTokenCost)

variable (p : L1FeeParams)

def calculateTxL1CostBedrock (input : Bytes) (spec : BaseSpecId) : BitVec 256 :=
  if isFeeExempt input then 0
  else
    saturatingMul (saturatingMul (saturatingAdd (dataGas input spec) (p.l1FeeOverhead.getD 0))
      p.l1BaseFee) p.l1BaseFeeScalar / 1000000

def calculateL1FeeScaledEcotone : BitVec 256 :=
  saturatingAdd
    (saturatingMul (saturatingMul p.l1BaseFee (.ofNat 256 Flz.nonZeroByteCost)) p.l1BaseFeeScalar)
    (saturatingMul (p.l1BlobBaseFee.getD 0) (p.l1BlobBaseFeeScalar.getD 0))

/-- The first block of Ecotone still has the scalars, and the price, of Bedrock. -/
def calculateTxL1CostEcotone (input : Bytes) (spec : BaseSpecId) : BitVec 256 :=
  if isFeeExempt input then 0
  else if p.emptyEcotoneScalars then p.calculateTxL1CostBedrock input spec
  else
    saturatingMul p.calculateL1FeeScaledEcotone (dataGas input spec) /
      .ofNat 256 (1000000 * Flz.nonZeroByteCost)

def calculateTxL1CostFjord (input : Bytes) : BitVec 256 :=
  if isFeeExempt input then 0
  else if p.calculateL1FeeScaledEcotone = 0 then 0
  else
    saturatingMul (.ofNat 256 (Flz.txEstimatedSizeFjord input)) p.calculateL1FeeScaledEcotone /
      1000000000000

/-- The fee of the operator; scalars that are not set count as zero. -/
def operatorFeeChargeInner (gas : BitVec 256) (spec : BaseSpecId) : BitVec 256 :=
  let scalar := p.operatorFeeScalar.getD 0
  let constant := p.operatorFeeConstant.getD 0
  let product :=
    if spec.isEnabledIn .jovian then
      saturatingMul (saturatingMul gas scalar) (.ofNat 256 operatorFeeJovianMultiplier)
    else saturatingMul gas scalar / .ofNat 256 operatorFeeScalarDecimal
  saturatingAdd product constant

variable {p} in
theorem operatorFeeChargeInner_mono (spec : BaseSpecId) {gas gas' : BitVec 256}
    (h : gas.toNat ≤ gas'.toNat) :
    (p.operatorFeeChargeInner gas spec).toNat ≤ (p.operatorFeeChargeInner gas' spec).toNat := by
  set scalar := p.operatorFeeScalar.getD 0 with hscalar
  have hproduct : (saturatingMul gas scalar).toNat ≤ (saturatingMul gas' scalar).toNat := by
    rw [toNat_saturatingMul, toNat_saturatingMul]
    exact min_le_min_right _ (Nat.mul_le_mul_right _ h)
  unfold operatorFeeChargeInner
  rw [toNat_saturatingAdd, toNat_saturatingAdd]
  refine min_le_min_right _ (Nat.add_le_add_right ?_ _)
  split_ifs
  · rw [toNat_saturatingMul, toNat_saturatingMul (saturatingMul gas' _)]
    exact min_le_min_right _ (Nat.mul_le_mul_right _ hproduct)
  · exact Nat.div_le_div_right hproduct

end L1FeeParams

/-! ## Block info -/

structure L1BlockInfo where
  l2Block : Option (BitVec 256)
  params : L1FeeParams
  /-- The cost of the transaction that is being executed, once it is known. -/
  txL1Cost : Option (BitVec 256)
  deriving DecidableEq

namespace L1BlockInfo

/-- The cost, and the block info that remembers it. A fee-exempt transaction costs nothing, which is
not remembered. -/
def calculateTxL1Cost (info : L1BlockInfo) (input : Bytes) (spec : BaseSpecId) :
    BitVec 256 × L1BlockInfo :=
  match info.txL1Cost with
  | some cost => (cost, info)
  | none =>
    if L1FeeParams.isFeeExempt input then (0, info)
    else
      let cost :=
        if spec.isEnabledIn .fjord then info.params.calculateTxL1CostFjord input
        else if spec.isEnabledIn .ecotone then info.params.calculateTxL1CostEcotone input spec
        else info.params.calculateTxL1CostBedrock input spec
      (cost, { info with txL1Cost := some cost })

def operatorFeeCharge (info : L1BlockInfo) (input : Bytes) (gasLimit : BitVec 256)
    (spec : BaseSpecId) : BitVec 256 :=
  if L1FeeParams.isFeeExempt input then 0 else info.params.operatorFeeChargeInner gasLimit spec

def clearTxL1Cost (info : L1BlockInfo) : L1BlockInfo := { info with txL1Cost := none }

/-- A second reading gives the same cost and changes nothing. -/
theorem calculateTxL1Cost_again (info : L1BlockInfo) (input : Bytes) (spec : BaseSpecId) :
    (info.calculateTxL1Cost input spec).2.calculateTxL1Cost input spec =
      info.calculateTxL1Cost input spec := by
  unfold calculateTxL1Cost
  cases hcost : info.txL1Cost with
  | some cost => simp [hcost]
  | none =>
    by_cases hexempt : L1FeeParams.isFeeExempt input = true
    · simp [if_pos hexempt, hcost]
    · simp [if_neg hexempt]

theorem calculateTxL1Cost_params (info : L1BlockInfo) (input : Bytes) (spec : BaseSpecId) :
    (info.calculateTxL1Cost input spec).2.params = info.params := by
  unfold calculateTxL1Cost
  split
  · rfl
  · split_ifs <;> rfl

theorem operatorFeeCharge_mono {info info' : L1BlockInfo} (hparams : info'.params = info.params)
    (input : Bytes) (spec : BaseSpecId) {gas gas' : BitVec 256} (h : gas.toNat ≤ gas'.toNat) :
    (info'.operatorFeeCharge input gas spec).toNat ≤
      (info.operatorFeeCharge input gas' spec).toNat := by
  unfold operatorFeeCharge
  rw [hparams]
  split_ifs
  · exact le_rfl
  · exact L1FeeParams.operatorFeeChargeInner_mono spec h

end L1BlockInfo

end NodeReth
