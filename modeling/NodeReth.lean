import NodeReth.Protocol.FrameGrammar
import NodeReth.Blob.RoundTrip
import NodeReth.Batcher.Limits
import NodeReth.TxPool.Best
import NodeReth.TxPool.GuardRuns
import NodeReth.Mpt.History
import NodeReth.Precompiles.B20.Admins
import NodeReth.Precompiles.B20.Authority
import NodeReth.Eip8130.Inclusion
import NodeReth.Sequencer.Origin
import NodeReth.Derive.ChannelBank
import NodeReth.Derive.ChannelAssembler
import NodeReth.Derive.FrameQueue
import NodeReth.Protocol.SpanBatch
import NodeReth.Batcher.Timeout
import NodeReth.Batcher.Submission
import NodeReth.Genesis.Schedule
import NodeReth.Precompiles.B20.Multiplier
import NodeReth.Precompiles.B20.Surface
import NodeReth.TxPool.TipPriority
import NodeReth.Derive.SafeDb
import NodeReth.Precompiles.Policy.Governance
import NodeReth.Eip8130.Preimages
import NodeReth.Trie.ProofWindow
import NodeReth.Challenge.Validator
import NodeReth.Builder.ChangedAccounts
import NodeReth.Prover.Jobs
