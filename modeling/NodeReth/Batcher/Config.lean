import NodeReth.Protocol.Frame
import NodeReth.Genesis.Rollup
import NodeReth.Batcher.Stream

/-!
# The encoder configuration

`EncoderConfig` of `batcher/encoder/src/config.rs` and its validation, in the order in which the
source checks the constraints.
-/

namespace NodeReth

inductive DaType
  | blob
  | calldata
  deriving DecidableEq, Repr

structure EncoderConfig where
  compressedSizeTarget : Option ℕ
  maxFrameSize : ℕ
  maxChannelDuration : ℕ
  subSafetyMargin : ℕ
  maxBlobsPerTx : ℕ
  daType : DaType
  brotliLevel : BrotliLevel
  deriving DecidableEq

inductive EncoderConfigError
  | safetyMarginTooLarge (subSafetyMargin maxChannelDuration : ℕ)
  | frameSizeTooSmall (maxFrameSize minFrameSize : ℕ)
  | frameSizeTooLarge (maxFrameSize maxProtocolFrameSize : ℕ)
  | compressedTargetZero
  | maxBlobsPerTxZero
  | tooManyBlobsPerTx (configured maximum : ℕ)
  | frameExceedsBlobPackingLimit (maxFrameSize maxBlobFrameSize : ℕ)
  deriving DecidableEq, Repr

namespace EncoderConfig

def defaultConfig : EncoderConfig where
  compressedSizeTarget := none
  maxFrameSize := maxBlobFrameSize
  maxChannelDuration := 2
  subSafetyMargin := 0
  maxBlobsPerTx := 6
  daType := .blob
  brotliLevel := 10

/-- Hard limit for blobs carried by one transaction. -/
def maxBlobsPerTxLimit : ℕ := 6

def validate (c : EncoderConfig) : Except EncoderConfigError Unit :=
  if c.subSafetyMargin ≥ c.maxChannelDuration then
    .error (.safetyMarginTooLarge c.subSafetyMargin c.maxChannelDuration)
  else if c.maxFrameSize < Frame.encodedOverhead + 1 then
    .error (.frameSizeTooSmall c.maxFrameSize (Frame.encodedOverhead + 1))
  else if c.maxFrameSize > Frame.encodedOverhead + Frame.maxLen then
    .error (.frameSizeTooLarge c.maxFrameSize (Frame.encodedOverhead + Frame.maxLen))
  else if c.compressedSizeTarget = some 0 then .error .compressedTargetZero
  else if c.maxBlobsPerTx = 0 then .error .maxBlobsPerTxZero
  else if c.maxBlobsPerTx > maxBlobsPerTxLimit then
    .error (.tooManyBlobsPerTx c.maxBlobsPerTx maxBlobsPerTxLimit)
  else if c.maxFrameSize > maxBlobFrameSize then
    .error (.frameExceedsBlobPackingLimit c.maxFrameSize maxBlobFrameSize)
  else .ok ()

theorem validate_ok {c : EncoderConfig} (h : c.validate = .ok ()) :
    c.subSafetyMargin < c.maxChannelDuration ∧ Frame.encodedOverhead + 1 ≤ c.maxFrameSize ∧
      c.maxFrameSize ≤ maxBlobFrameSize ∧ 0 < c.maxBlobsPerTx ∧
      c.maxBlobsPerTx ≤ maxBlobsPerTxLimit := by
  unfold validate at h
  split_ifs at h
  omega

theorem defaultConfig_valid : defaultConfig.validate = .ok () := by decide

/-- The smaller of the channel timeouts before and after Granite; 0 is unset. -/
def confirmationChannelTimeout (cfg : RollupConfig) : ℕ :=
  let preGranite := cfg.channelTimeoutAt 0
  let postGranite := cfg.channelTimeoutAt Words.u64Max
  if preGranite = 0 then postGranite
  else if postGranite = 0 then preGranite
  else min preGranite postGranite

end EncoderConfig

end NodeReth
