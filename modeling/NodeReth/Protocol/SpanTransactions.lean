import NodeReth.Lib.Outcomes
import NodeReth.Protocol.SpanTxData

/-!
# Transaction columns of a span batch

`SpanBatchTransactions` of `protocol/src/batch/transactions.rs`: the transactions of all blocks of a
span, taken apart into columns. `decode` reads the columns one after the other. `fullTxs` walks over
them with three running indices, for recipients, protection bits and proofs, and puts the
transactions together again.

A step that panics in a build with overflow checks is a fault here, and so are an index out of range
and an `expect` that does not hold. The varint decoder is a parameter: it takes a number off the
front of its input or fails.
-/

namespace NodeReth.Span

open Bytes Consensus Fallible List Readers RlpFormat SpanBatchBits

/-- `SpanBatchElement::MAX_SPAN_BATCH_ELEMENTS`. -/
def maxSpanBatchElements : ℕ := 10000000

/-! ## Steps that may fault -/

section Steps

variable {α : Type}

def subOrFault (a b : ℕ) : Except Stop ℕ :=
  if a < b then .error (.fault .underflow) else .ok (a - b)

def addOrFault (a b : ℕ) : Except Stop ℕ :=
  if 2 ^ 64 ≤ a + b then .error (.fault .overflow) else .ok (a + b)

def mulOrFault (a b : ℕ) : Except Stop ℕ :=
  if 2 ^ 64 ≤ a * b then .error (.fault .overflow) else .ok (a * b)

def indexOrFault (l : List α) (i : ℕ) : Except Stop α := orFail l[i]? (.fault .indexOutOfRange)

/-- The first bytes of the input, which have to be there. -/
def splitOrFault (n : ℕ) : Reader Stop Bytes := fun b =>
  if b.length < n then .error (.fault .indexOutOfRange) else .ok (b.take n, b.drop n)

/-- The first bytes of the input, after a check that they are there. -/
def takeOrFail (n : ℕ) (e : SpanBatchError) : Reader Stop Bytes := do
  let r ← get
  rejectIf (r.length < n) (.err e)
  splitOrFault n

/-- A string of a fixed length, after the same check. -/
def takeFixed (n : ℕ) (e : SpanBatchError) : Reader Stop (FixedBytes n) := do
  let raw ← takeOrFail n e
  expect (FixedBytes.tryFrom n raw) (.fault .indexOutOfRange)

end Steps

/-! ## Single items -/

/-- The type byte of a typed transaction, as a string and as a number. -/
def readTxType : Reader Stop (Bytes × UInt8)
  | [] => .error (.err (.decoding .invalidTransactionData))
  | x :: rest => if x ≤ 0x7f then .ok (([x], x), rest) else .ok (([], 0), x :: rest)

def readTxPayload : Reader Stop Bytes := do
  let r ← get
  let (list, payloadLength) ← liftM ((Prod.fst <$> decodeHeader r).mapError fun _ =>
    Stop.err (.decoding .invalidTransactionData))
  rejectIf (list = false) (.err (.decoding .invalidTransactionData))
  let payloadLengthWithHeader := payloadLength + lengthOfLength payloadLength
  rejectIf (maxSpanBatchElements < payloadLengthWithHeader) (.err .tooBigSpanBatchSize)
  takeOrFail payloadLengthWithHeader (.decoding .invalidTransactionData)

/-- `read_tx_data` of `protocol/src/utils.rs`. -/
def readTxData : Reader Stop (Bytes × OpTxType) := do
  let (typeByte, ty) ← readTxType
  let payload ← readTxPayload
  let txType ← expect (OpTxType.tryFrom ty) (.err (.decoding .invalidTransactionType))
  return (typeByte ++ payload, txType)

def readVarint (varint : Bytes → Option (UInt64 × Bytes)) (e : SpanDecodingError) :
    Reader Stop UInt64 := fun b => orFail (varint b) (.err (.decoding e))

/-- Groups of seven bits, the lowest first, from a given group on. -/
def leb128From : ℕ → ℕ → Bytes → Option (ℕ × Bytes)
  | _, _, [] => none
  | i, n, x :: rest =>
    let n := n + x.toNat % 128 * 2 ^ (7 * i)
    if x < 128 then if x = 0 ∧ 0 < i then none else some (n, rest)
    else if i = 9 then none
    else leb128From (i + 1) n rest

/-- A varint decoder, for concrete inputs. -/
def leb128 (b : Bytes) : Option (UInt64 × Bytes) :=
  (leb128From 0 0 b).map fun p => (UInt64.ofNat p.1, p.2)

def readBits (n : ℕ) : Reader Stop SpanBatchBits := fun b => decode b n

/-- As many bits as a counter says, which has to be within the limit. -/
def readCountedBits (count : ℕ) : Reader Stop SpanBatchBits := do
  rejectIf (maxSpanBatchElements < count) (.err .tooBigSpanBatchSize)
  readBits count

/-! ## Columns -/

structure SpanBatchTransactions where
  totalBlockTxCount : ℕ
  contractCreationBits : SpanBatchBits
  txSigs : List Signature
  txNonces : List UInt64
  txGases : List UInt64
  txTos : List Address
  txData : List Bytes
  protectedBits : SpanBatchBits
  txTypes : List OpTxType
  legacyTxCount : ℕ
  eip8130AuthData : List (Bytes × Bytes)
  deriving DecidableEq

namespace SpanBatchTransactions

def decodeContractCreationBits (total : ℕ) : Reader Stop SpanBatchBits := readCountedBits total

def decodeProtectedBits (legacyTxCount : ℕ) : Reader Stop SpanBatchBits :=
  readCountedBits legacyTxCount

def decodeTxSig (yParityBits : SpanBatchBits) (i : ℕ) : Reader Stop Signature := do
  let yParity ← expect (yParityBits.getBit i) (.fault .expectFailed)
  let raw ← takeOrFail 64 (.decoding .invalidTransactionData)
  return {
    r := BitVec.ofNat 256 (ofBe (raw.take 32))
    s := BitVec.ofNat 256 (ofBe (raw.drop 32))
    yParity := yParity = 1 }

def decodeTxSigs (total : ℕ) : Reader Stop (List Signature) := do
  let yParityBits ← readBits total
  readEach (decodeTxSig yParityBits) (range total)

def countOnes (x : UInt8) : ℕ := (range 8).countP x.toNat.testBit

def contractCreationCount (bits : SpanBatchBits) : ℕ := (bits.bytes.map countOnes).sum

def decodeTxTos (total : ℕ) (contractCreationBits : SpanBatchBits) : Reader Stop (List Address) := do
  let count ← liftM (subOrFault total (contractCreationCount contractCreationBits))
  readEach (fun _ => takeFixed 20 (.decoding .invalidTransactionData)) (range count)

/-- The data and the types of the transactions, with the count of legacy transactions so far. -/
def decodeTxData : ℕ → ℕ → Reader Stop (List (Bytes × OpTxType) × ℕ)
  | 0, legacyTxCount => pure ([], legacyTxCount)
  | n + 1, legacyTxCount => do
    let item ← readTxData
    let legacyTxCount ← liftM
      (if item.2 = .legacy then addOrFault legacyTxCount 1 else .ok legacyTxCount)
    let (items, legacyTxCount) ← decodeTxData n legacyTxCount
    return (item :: items, legacyTxCount)

variable (varint : Bytes → Option (UInt64 × Bytes))

def decodeTxNonces (total : ℕ) : Reader Stop (List UInt64) :=
  readEach (fun _ => readVarint varint .txNonces) (range total)

/-- A gas limit that cannot be read is reported as a nonce. -/
def decodeTxGases (total : ℕ) : Reader Stop (List UInt64) :=
  readEach (fun _ => readVarint varint .txNonces) (range total)

def decodeEip8130Proof : Reader Stop Bytes := do
  let n ← readVarint varint .invalidAuthData
  rejectIf (SpanBatchEip8130TransactionData.maxAuthProofBytes < n.toNat) (.err .tooBigSpanBatchSize)
  takeOrFail n.toNat (.decoding .invalidTransactionData)

def decodeEip8130AuthData (txTypes : List OpTxType) : Reader Stop (List (Bytes × Bytes)) :=
  readEach (fun _ => do
    let senderProof ← decodeEip8130Proof varint
    let payerProof ← decodeEip8130Proof varint
    return (senderProof, payerProof)) (txTypes.filter (· = .eip8130))

/-- Reads the columns of a number of transactions that the caller has set. -/
def decode (total : ℕ) : Reader Stop SpanBatchTransactions := do
  let contractCreationBits ← decodeContractCreationBits total
  let txSigs ← decodeTxSigs total
  let txTos ← decodeTxTos total contractCreationBits
  let (items, legacyTxCount) ← decodeTxData total 0
  let txNonces ← decodeTxNonces varint total
  let txGases ← decodeTxGases varint total
  let protectedBits ← decodeProtectedBits legacyTxCount
  let eip8130AuthData ← decodeEip8130AuthData varint (items.map Prod.snd)
  return {
    totalBlockTxCount := total, contractCreationBits, txSigs, txNonces, txGases, txTos
    txData := items.map Prod.fst, protectedBits, txTypes := items.map Prod.snd, legacyTxCount
    eip8130AuthData }

end SpanBatchTransactions

/-! ## Putting transactions together -/

structure Cursor where
  toIdx : ℕ := 0
  protectedBitIdx : ℕ := 0
  eip8130Idx : ℕ := 0

namespace SpanBatchTransactions

variable (txs : SpanBatchTransactions) (chainId : UInt64)

/-- The recipient of a transaction, nothing for a creation. -/
def nextRecipient (idx : ℕ) (c : Cursor) : Except Stop (Option Address × Cursor) := do
  let bit ← orFail (txs.contractCreationBits.getBit idx) (.err (.decoding .invalidTransactionData))
  if bit = 0 then
    failIf (txs.txTos.length ≤ c.toIdx) (.err (.decoding .invalidTransactionData))
    let address ← indexOrFault txs.txTos c.toIdx
    return (some address, { c with toIdx := c.toIdx + 1 })
  else return (none, c)

/-- Whether a transaction is bound to the chain; only a legacy transaction need not be. -/
def nextProtection (tx : SpanBatchTransactionData) (c : Cursor) : Bool × Cursor :=
  if tx.txType = .legacy then
    ((txs.protectedBits.getBit c.protectedBitIdx).getD 0 = 1,
      { c with protectedBitIdx := c.protectedBitIdx + 1 })
  else (true, c)

/-- One transaction out of its data and the columns. -/
def assemble (idx : ℕ) (tx : SpanBatchTransactionData) (nonce gas : UInt64)
    (recipient : Option Address) (c : Cursor) : Except Stop (BaseTxEnvelope × Cursor) :=
  match tx with
  | .eip8130 d => do
    let proofs ← orFail txs.eip8130AuthData[c.eip8130Idx]? (.err (.decoding .invalidTransactionData))
    return (.eip8130 (d.toTx chainId nonce gas proofs.1 proofs.2),
      { c with eip8130Idx := c.eip8130Idx + 1 })
  | tx => do
    let sig ← orFail txs.txSigs[idx]? (.err (.decoding .invalidTransactionData))
    let envelope ← tx.toSignedTx nonce gas recipient chainId sig (txs.nextProtection tx c).1
    return (envelope, (txs.nextProtection tx c).2)

def rebuild (idx : ℕ) (c : Cursor) : Except Stop (BaseTxEnvelope × Cursor) := do
  let raw ← indexOrFault txs.txData idx
  let tx ← (SpanBatchTransactionData.decode raw).mapError fun _ =>
    Stop.err (.decoding .invalidTransactionData)
  let nonce ← orFail txs.txNonces[idx]? (.err (.decoding .invalidTransactionData))
  let gas ← orFail txs.txGases[idx]? (.err (.decoding .invalidTransactionData))
  let (recipient, c) ← txs.nextRecipient idx c
  txs.assemble chainId idx tx nonce gas recipient c

def rebuildTo : ℕ → Except Stop (List BaseTxEnvelope × Cursor)
  | 0 => .ok ([], {})
  | idx + 1 => do
    let (done, c) ← rebuildTo idx
    let (envelope, c) ← txs.rebuild chainId idx c
    return (done ++ [envelope], c)

/-- The transactions that `fullTxs` writes out. -/
def rebuilt : Except Stop (List BaseTxEnvelope) :=
  Prod.fst <$> txs.rebuildTo chainId txs.totalBlockTxCount

/-- The raw transactions. How an envelope is encoded is the matter of its own library. -/
def fullTxs (encode2718 : BaseTxEnvelope → Bytes) : Except Stop (List Bytes) :=
  map encode2718 <$> txs.rebuilt chainId

end SpanBatchTransactions

/-! ## Reading does not fault -/

/-- The program would panic. -/
def IsFault : Stop → Prop
  | .err _ => False
  | .fault _ => True

theorem not_isFault_err (e : SpanBatchError) : ¬IsFault (.err e) := id

theorem meets_takeOrFail (n : ℕ) (e : SpanBatchError) :
    Readers.Meets IsFault (fun raw => raw.length = n) (takeOrFail n e) := by
  intro b
  by_cases h : b.length < n
  · have hreject : (rejectIf (b.length < n) (.err e) : Reader Stop Unit) b = .error (.err e) := by
      show (liftM (failIf (b.length < n) (Stop.err e)) : Reader Stop Unit) b = _
      rw [failIf_pos h]
      rfl
    show Fallible.Meets _ _ (Except.bind _ _)
    rw [hreject]
    exact not_isFault_err e
  · have hreject : (rejectIf (b.length < n) (.err e) : Reader Stop Unit) b = .ok ((), b) :=
      rejectIf_ok_iff.mpr ⟨h, rfl⟩
    show Fallible.Meets _ _ (Except.bind _ _)
    rw [hreject]
    show Fallible.Meets _ _ (splitOrFault n b)
    unfold splitOrFault
    rw [if_neg h]
    show (b.take n).length = n
    rw [length_take]
    omega

theorem meets_takeFixed (n : ℕ) (e : SpanBatchError) :
    Readers.Meets IsFault (fun _ => True) (takeFixed n e) := by
  refine (meets_takeOrFail n e).bind fun raw hraw => ?_
  exact (meets_expect_some (FixedBytes.tryFrom_eq_some hraw)).mono fun _ _ => trivial

theorem meets_readTxType : Readers.Meets IsFault (fun _ => True) readTxType := by
  intro b
  cases b with
  | nil => exact not_isFault_err _
  | cons x rest =>
    show Fallible.Meets _ _ (if x ≤ 0x7f then _ else _)
    split_ifs <;> exact trivial

theorem meets_mapError {ε α : Type} (x : Except ε α) (e : SpanBatchError) :
    Fallible.Meets IsFault (fun a => x = .ok a) (x.mapError fun _ => Stop.err e) := by
  cases x with
  | ok a => exact rfl
  | error _ => exact not_isFault_err e

theorem meets_readTxPayload : Readers.Meets IsFault (fun _ => True) readTxPayload := by
  refine meets_get.bind fun r _ => ?_
  refine (meets_lift (meets_mapError _ _)).bind fun p _ => ?_
  refine (meets_rejectIf (not_isFault_err _)).bind fun _ _ => ?_
  refine (meets_rejectIf (not_isFault_err _)).bind fun _ _ => ?_
  exact (meets_takeOrFail _ _).mono fun _ _ => trivial

theorem meets_readTxData : Readers.Meets IsFault (fun _ => True) readTxData := by
  refine meets_readTxType.bind fun p _ => ?_
  refine meets_readTxPayload.bind fun payload _ => ?_
  exact (meets_lift (meets_orFail (not_isFault_err _))).bind fun ty _ => meets_pure trivial

theorem meets_readVarint (varint : Bytes → Option (UInt64 × Bytes)) (e : SpanDecodingError) :
    Readers.Meets IsFault (fun _ => True) (readVarint varint e) :=
  fun _ => (meets_orFail (not_isFault_err _)).mono fun _ _ => trivial

/-- A list of `n` bits reaches every index below `n` and has no bit above. -/
theorem meets_readBits (n : ℕ) :
    Readers.Meets IsFault
      (fun bits => bits.bytes.length = bufferLen n ∧ bits.bitLen ≤ n) (readBits n) := by
  intro b
  unfold readBits
  rw [decode_eq]
  by_cases h : ofBe (taken b n) < 2 ^ n
  · rw [if_pos h]
    exact ⟨length_taken b n, (bitLen_le_iff _ n).mpr h⟩
  · rw [if_neg h]
    exact not_isFault_err _

theorem meets_readCountedBits (n : ℕ) :
    Readers.Meets IsFault (fun bits => bits.bytes.length = bufferLen n ∧ bits.bitLen ≤ n)
      (readCountedBits n) :=
  (meets_rejectIf (not_isFault_err _)).bind fun _ _ => meets_readBits n

variable {bits : SpanBatchBits}

theorem SpanBatchBits.getBit_isSome {n i : ℕ}
    (hlen : bits.bytes.length = bufferLen n) (hi : i < n) : (bits.getBit i).isSome := by
  have hbuffer := le_bufferLen n
  rw [getBit_eq, if_pos (by omega), Option.isSome_some]

namespace SpanBatchTransactions

/-- A byte has no more set bits than its highest one allows. -/
theorem countOnes_le_msb {x : UInt8} (hx : x ≠ 0) : countOnes x ≤ 7 - leadingZeros x + 1 := by
  have hall : ∀ k < 256, k ≠ 0 → (range 8).countP k.testBit ≤ Nat.log2 k + 1 := by
    decide +kernel
  rw [succ_msb hx]
  exact hall x.toNat x.toNat_lt fun h => hx (UInt8.toNat_inj.mp h)

theorem countOnes_sum_le (b : Bytes) : (b.map countOnes).sum ≤ b.length * 8 := by
  induction b with
  | nil => exact Nat.zero_le _
  | cons x b ih =>
    have hx : countOnes x ≤ 8 := countP_le_length
    rw [map_cons, sum_cons, length_cons]
    omega

theorem contractCreationCount_le (bits : SpanBatchBits) : contractCreationCount bits ≤ bits.bitLen := by
  unfold contractCreationCount bitLen
  induction bits.bytes with
  | nil => exact Nat.zero_le _
  | cons x b ih =>
    rw [map_cons, sum_cons, bitLenOf]
    by_cases hx : x = 0
    · subst hx
      have hzero : countOnes 0 = 0 := by decide
      rw [hzero, Nat.zero_add]
      exact ih
    · have hrest := countOnes_sum_le b
      have hmsb := countOnes_le_msb hx
      rw [if_pos hx]
      omega

theorem meets_decodeTxSig {i : ℕ} (h : (bits.getBit i).isSome) :
    Readers.Meets IsFault (fun _ => True) (decodeTxSig bits i) := by
  obtain ⟨bit, hbit⟩ := Option.isSome_iff_exists.mp h
  refine (meets_expect_some hbit).bind fun _ _ => ?_
  exact (meets_takeOrFail 64 _).bind fun raw _ => meets_pure trivial

theorem meets_decodeTxSigs (total : ℕ) :
    Readers.Meets IsFault (fun _ => True) (decodeTxSigs total) := by
  refine (meets_readBits total).bind fun bits hbits => ?_
  refine (meets_readEach fun i hi => ?_).mono fun _ _ => trivial
  exact meets_decodeTxSig (SpanBatchBits.getBit_isSome hbits.1 (mem_range.mp hi))

theorem meets_decodeTxTos {total : ℕ} (h : bits.bitLen ≤ total) :
    Readers.Meets IsFault (fun _ => True) (decodeTxTos total bits) := by
  have hcount := contractCreationCount_le bits
  have hsub : Fallible.Meets IsFault (fun _ => True)
      (subOrFault total (contractCreationCount bits)) := by
    unfold subOrFault
    rw [if_neg (by omega)]
    exact trivial
  refine (meets_lift hsub).bind fun count _ => ?_
  exact (meets_readEach fun _ _ => meets_takeFixed 20 _).mono fun _ _ => trivial

theorem meets_decodeTxData {n legacyTxCount : ℕ} (h : legacyTxCount + n < 2 ^ 64) :
    Readers.Meets IsFault (fun p => p.1.length = n) (decodeTxData n legacyTxCount) := by
  induction n generalizing legacyTxCount with
  | zero => exact meets_pure rfl
  | succ n ih =>
    refine meets_readTxData.bind fun item _ => ?_
    have hcount : Fallible.Meets IsFault (fun count => count ≤ legacyTxCount + 1)
        (if item.2 = .legacy then addOrFault legacyTxCount 1 else .ok legacyTxCount) := by
      split_ifs
      · unfold addOrFault
        rw [if_neg (by omega)]
        exact le_rfl
      · exact Nat.le_succ legacyTxCount
    refine (meets_lift hcount).bind fun count hle => ?_
    refine (ih (by omega)).bind fun p hp => ?_
    exact meets_pure (by rw [length_cons, hp])

variable (varint : Bytes → Option (UInt64 × Bytes))

theorem meets_decodeEip8130Proof :
    Readers.Meets IsFault (fun _ => True) (decodeEip8130Proof varint) := by
  refine (meets_readVarint varint _).bind fun n _ => ?_
  refine (meets_rejectIf (not_isFault_err _)).bind fun _ _ => ?_
  exact (meets_takeOrFail _ _).mono fun _ _ => trivial

theorem meets_decodeEip8130AuthData (txTypes : List OpTxType) :
    Readers.Meets IsFault (fun _ => True) (decodeEip8130AuthData varint txTypes) := by
  refine (meets_readEach fun _ _ => ?_).mono fun _ _ => trivial
  refine (meets_decodeEip8130Proof varint).bind fun senderProof _ => ?_
  exact (meets_decodeEip8130Proof varint).bind fun payerProof _ => meets_pure trivial

/-- Reading the columns ends in a value or in an error, and there is data for every transaction. -/
theorem meets_decode {total : ℕ} (h : total ≤ maxSpanBatchElements) :
    Readers.Meets IsFault (fun txs => txs.totalBlockTxCount = total ∧ txs.txData.length = total)
      (decode varint total) := by
  have hmax : maxSpanBatchElements < 2 ^ 64 := by decide
  refine (meets_readCountedBits total).bind fun bits hbits => ?_
  refine (meets_decodeTxSigs total).bind fun sigs _ => ?_
  refine (meets_decodeTxTos hbits.2).bind fun tos _ => ?_
  refine (meets_decodeTxData (by omega)).bind fun items hitems => ?_
  refine (meets_readEach fun _ _ => meets_readVarint varint _).bind fun nonces _ => ?_
  refine (meets_readEach fun _ _ => meets_readVarint varint _).bind fun gases _ => ?_
  refine (meets_readCountedBits items.2).bind fun protectedBits _ => ?_
  refine (meets_decodeEip8130AuthData varint _).bind fun proofs _ => ?_
  exact meets_pure ⟨rfl, by rw [length_map, hitems]⟩

end SpanBatchTransactions

end NodeReth.Span
