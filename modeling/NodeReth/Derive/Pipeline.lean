import NodeReth.Derive.Channel

/-!
# What the channel stages share

The errors of the stages that turn frames into channel data, and the rule by which a channel times
out at an L1 origin.
-/

namespace NodeReth.Derive

open Words

/-- The errors of `derive/src/errors/pipeline.rs` that the channel stages raise. -/
inductive PipelineError
  | eof
  | notEnoughData
  | channelProviderEmpty
  | channelNotFound
  | missingOrigin
  deriving DecidableEq, Repr

/-- How a call of a stage ends early: with an error of either kind, or where an index of a queue is
out of its range. -/
inductive Failure
  | critical (e : PipelineError)
  | temporary (e : PipelineError)
  | indexOutOfRange
  deriving DecidableEq, Repr

/-- The channel was opened too long before an origin. The sum is one of 64 bits. -/
def Channel.timedOut (cfg : RollupConfig) (origin : BlockInfo) (c : Channel) : Bool :=
  decide (wrapAdd c.openBlock.number (cfg.channelTimeoutAt origin.timestamp) < origin.number)

def Channel.readable (cfg : RollupConfig) (origin : BlockInfo) (c : Channel) : Bool :=
  !c.timedOut cfg origin && c.isReady

def sampleConfig : RollupConfig := { sampleRollup with l2ChainId := 10 }

theorem Channel.frameData_of_isReady {c : Channel} (hc : c.Sound) (h : c.isReady = true) :
    ∃ data, c.frameData = some data := by
  obtain ⟨frames, -, -, hdata⟩ := frameData_of_complete hc ((isReady_iff hc).mp h).1
  exact ⟨_, hdata⟩

end NodeReth.Derive
