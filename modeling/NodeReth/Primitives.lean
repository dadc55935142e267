import NodeReth.Protocol.SingleBatch

/-!
# Primitive types

Types of the execution layer that several components share.

Arithmetic that the source leaves to the build profile is that of `release`, which wraps around. The
decoders of span batches and the frame queue are modelled as the profiles with overflow checks build
them: an overflow stops the program there, and what is not stopped comes to the same in `release`.
-/

namespace NodeReth

abbrev Address := FixedBytes 20

/-- What stops a computation that is not allowed to go on: with overflow checks the program panics
here. -/
inductive Fault
  | underflow
  | overflow
  | indexOutOfRange
  | expectFailed
  deriving DecidableEq, Repr

end NodeReth
