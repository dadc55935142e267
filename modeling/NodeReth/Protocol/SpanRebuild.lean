import Mathlib.Data.Nat.Count
import NodeReth.Protocol.SpanTransactions

/-!
# What the columns of a span batch say

The columns hold, at each position, the fields of a transaction. The recipient, the protection bit
and the proofs of a position stand where a count of the earlier positions points to, and the running
indices of `fullTxs` are these counts. The transactions that it rebuilds have the fields of the
columns, as long as the fees fit into the type that transactions have for them.
-/

namespace NodeReth.Span

open Consensus Fallible List Nat Option SpanBatchTransactionData

variable {d : SpanBatchTransactionData} {e : BaseTxEnvelope} {gas nonce : UInt64}
  {recipient : Option Address}

/-! ## Fields -/

/-- What a transaction of one of the older types says. -/
structure TxFields where
  chainId : Option UInt64
  nonce : UInt64
  gasLimit : UInt64
  recipient : Option Address
  value : BitVec 256
  gasPrice : Option ℕ := none
  maxFeePerGas : Option ℕ := none
  maxPriorityFeePerGas : Option ℕ := none
  input : Bytes
  accessList : Option AccessList := none
  authorizationList : Option (List SignedAuthorization) := none
  signature : Signature
  deriving DecidableEq

/-- The fields of a transaction; those of the newest type are not among them. -/
def fieldsOf : BaseTxEnvelope → Option TxFields
  | .legacy tx signature => some {
      chainId := tx.chainId, nonce := tx.nonce, gasLimit := tx.gasLimit, recipient := tx.toKind
      value := tx.value, gasPrice := some tx.gasPrice.toNat, input := tx.input, signature }
  | .eip2930 tx signature => some {
      chainId := some tx.chainId, nonce := tx.nonce, gasLimit := tx.gasLimit
      recipient := tx.toKind, value := tx.value, gasPrice := some tx.gasPrice.toNat
      input := tx.input, accessList := some tx.accessList, signature }
  | .eip1559 tx signature => some {
      chainId := some tx.chainId, nonce := tx.nonce, gasLimit := tx.gasLimit
      recipient := tx.toKind, value := tx.value, maxFeePerGas := some tx.maxFeePerGas.toNat
      maxPriorityFeePerGas := some tx.maxPriorityFeePerGas.toNat, input := tx.input
      accessList := some tx.accessList, signature }
  | .eip7702 tx signature => some {
      chainId := some tx.chainId, nonce := tx.nonce, gasLimit := tx.gasLimit
      recipient := some tx.toAddress, value := tx.value
      maxFeePerGas := some tx.maxFeePerGas.toNat
      maxPriorityFeePerGas := some tx.maxPriorityFeePerGas.toNat, input := tx.input
      accessList := some tx.accessList, authorizationList := some tx.authorizationList, signature }
  | .eip8130 _ => none

namespace SpanBatchTransactionData

/-- The fields that the data and one row of the other columns describe. -/
def fields (d : SpanBatchTransactionData) (nonce gasLimit : UInt64) (recipient : Option Address)
    (chainId : UInt64) (signature : Signature) (isProtected : Bool) : Option TxFields :=
  match d with
  | legacy d => some {
      chainId := if isProtected then some chainId else none, nonce, gasLimit, recipient
      value := d.value, gasPrice := some d.gasPrice.toNat, input := d.data, signature }
  | eip2930 d => some {
      chainId := some chainId, nonce, gasLimit, recipient, value := d.value
      gasPrice := some d.gasPrice.toNat, input := d.data, accessList := some d.accessList, signature }
  | eip1559 d => some {
      chainId := some chainId, nonce, gasLimit, recipient, value := d.value
      maxFeePerGas := some d.maxFeePerGas.toNat
      maxPriorityFeePerGas := some d.maxPriorityFeePerGas.toNat, input := d.data
      accessList := some d.accessList, signature }
  | eip7702 d => some {
      chainId := some chainId, nonce, gasLimit, recipient, value := d.value
      maxFeePerGas := some d.maxFeePerGas.toNat
      maxPriorityFeePerGas := some d.maxPriorityFeePerGas.toNat, input := d.data
      accessList := some d.accessList, authorizationList := some d.authorizationList, signature }
  | eip8130 _ => none

def FeesFit : SpanBatchTransactionData → Prop
  | legacy d => d.gasPrice.toNat < 2 ^ 128
  | eip2930 d => d.gasPrice.toNat < 2 ^ 128
  | eip1559 d => d.maxFeePerGas.toNat < 2 ^ 128 ∧ d.maxPriorityFeePerGas.toNat < 2 ^ 128
  | eip7702 d => d.maxFeePerGas.toNat < 2 ^ 128 ∧ d.maxPriorityFeePerGas.toNat < 2 ^ 128
  | eip8130 _ => True

/-- A transaction differs from its data in the fees at most, and then they do not fit. -/
theorem fields_toSignedTx {chainId : UInt64} {signature : Signature} {isProtected : Bool}
    (h : d.toSignedTx nonce gas recipient chainId signature isProtected = .ok e) :
    fieldsOf e = d.fields nonce gas recipient chainId signature isProtected ↔ d.FeesFit := by
  cases d with
  | legacy d | eip2930 d | eip1559 d =>
    cases h
    simp [fieldsOf, fields, FeesFit, SpanBatchLegacyTransactionData.toSignedTx,
      SpanBatchEip2930TransactionData.toSignedTx, SpanBatchEip1559TransactionData.toSignedTx,
      narrow_toNat_eq_iff]
  | eip7702 d =>
    cases recipient with
    | none => cases h
    | some address =>
      cases h
      simp [fieldsOf, fields, FeesFit, SpanBatchEip7702TransactionData.toSignedTx,
        narrow_toNat_eq_iff]
  | eip8130 d => cases h

/-- Of the older types only one needs a recipient. -/
theorem toSignedTx_ok_iff {chainId : UInt64} {signature : Signature} {isProtected : Bool} :
    (∃ e, d.toSignedTx nonce gas recipient chainId signature isProtected = .ok e) ↔
      d.txType ≠ .eip8130 ∧ (d.txType = .eip7702 → recipient.isSome) := by
  cases d with
  | legacy d | eip2930 d | eip1559 d | eip8130 d => simp [toSignedTx, txType]
  | eip7702 d => cases recipient <;> simp [toSignedTx, txType]

end SpanBatchTransactionData

/-! ## Rows -/

namespace SpanBatchTransactions

variable (txs : SpanBatchTransactions) (chainId : UInt64) (i : ℕ)
  {c : Cursor} {p : BaseTxEnvelope × Cursor}

def dataAt : Option SpanBatchTransactionData :=
  txs.txData[i]?.bind fun raw => (SpanBatchTransactionData.decode raw).toOption

def typeAt : Option OpTxType := (txs.dataAt i).map txType

/-- The calls before a position: each has taken a recipient. -/
def toIdxAt : ℕ := Nat.count (fun j => txs.contractCreationBits.getBit j = some 0) i

/-- The legacy transactions before a position: each has taken a protection bit. -/
def protectedBitIdxAt : ℕ := Nat.count (fun j => txs.typeAt j = some .legacy) i

def eip8130IdxAt : ℕ := Nat.count (fun j => txs.typeAt j = some .eip8130) i

def cursorAt : Cursor := ⟨txs.toIdxAt i, txs.protectedBitIdxAt i, txs.eip8130IdxAt i⟩

def recipientAt : Option Address :=
  if txs.contractCreationBits.getBit i = some 0 then txs.txTos[txs.toIdxAt i]? else none

def protectedAt : Bool := (txs.protectedBits.getBit (txs.protectedBitIdxAt i)).getD 0 = 1

def fieldsAt : Option TxFields := do
  let d ← txs.dataAt i
  let nonce ← txs.txNonces[i]?
  let gasLimit ← txs.txGases[i]?
  let signature ← txs.txSigs[i]?
  d.fields nonce gasLimit (txs.recipientAt i) chainId signature (txs.protectedAt i)

/-- The columns have everything that a transaction with this data needs. -/
structure RowComplete (d : SpanBatchTransactionData) : Prop where
  nonce : i < txs.txNonces.length
  gas : i < txs.txGases.length
  bit : (txs.contractCreationBits.getBit i).isSome
  recipient : txs.contractCreationBits.getBit i = some 0 → txs.toIdxAt i < txs.txTos.length
  calls : d.txType = .eip7702 → txs.contractCreationBits.getBit i = some 0
  signature : d.txType ≠ .eip8130 → i < txs.txSigs.length
  proofs : d.txType = .eip8130 → txs.eip8130IdxAt i < txs.eip8130AuthData.length

def Complete : Prop := ∀ i < txs.totalBlockTxCount, ∃ d, txs.dataAt i = some d ∧ txs.RowComplete i d

def FeesFit : Prop := ∀ i < txs.totalBlockTxCount, ∀ d, txs.dataAt i = some d → d.FeesFit

variable {txs chainId i}

/-- The walk over the recipients takes the one that the count of calls points to. -/
theorem nextRecipient_ok_iff {p : Option Address × Cursor} :
    txs.nextRecipient i (txs.cursorAt i) = .ok p ↔ (txs.contractCreationBits.getBit i).isSome ∧
      (txs.contractCreationBits.getBit i = some 0 → txs.toIdxAt i < txs.txTos.length) ∧
      p = (txs.recipientAt i, { txs.cursorAt i with toIdx := txs.toIdxAt (i + 1) }) := by
  have hsucc : txs.toIdxAt (i + 1) =
      txs.toIdxAt i + if txs.contractCreationBits.getBit i = some 0 then 1 else 0 :=
    count_succ ..
  unfold nextRecipient recipientAt
  rw [hsucc]
  cases hbit : txs.contractCreationBits.getBit i with
  | none => exact ⟨nofun, nofun⟩
  | some bit =>
    simp only [orFail, ok_bind, isSome_some, true_and, Option.some.injEq]
    by_cases hzero : bit = 0
    · rw [if_pos hzero, if_pos hzero, if_pos hzero, bind_ok_iff]
      simp only [failIf_ok_iff, not_le, bind_ok_iff]
      constructor
      · rintro ⟨_, hlt, address, haddress, h⟩
        rw [show txs.txTos[txs.toIdxAt i]? = some address from orFail_ok_iff.mp haddress]
        exact ⟨fun _ => hlt, (Except.ok.inj h).symm⟩
      · rintro ⟨hlt, rfl⟩
        have hget := getElem?_eq_getElem (hlt hzero)
        rw [hget]
        exact ⟨(), hlt hzero, _, orFail_ok_iff.mpr hget, rfl⟩
    · rw [if_neg hzero, if_neg hzero, if_neg hzero]
      exact ⟨fun h => ⟨fun h => absurd h hzero, (Except.ok.inj h).symm⟩, fun h => by rw [h.2]; rfl⟩

theorem assemble_older (hd : d.txType ≠ .eip8130) :
    txs.assemble chainId i d nonce gas recipient c = .ok p ↔
      ∃ sig e, txs.txSigs[i]? = some sig ∧
        d.toSignedTx nonce gas recipient chainId sig (txs.nextProtection d c).1 = .ok e ∧
        p = (e, (txs.nextProtection d c).2) := by
  have heq : txs.assemble chainId i d nonce gas recipient c = (do
      let sig ← orFail txs.txSigs[i]? (.err (.decoding .invalidTransactionData))
      let envelope ← d.toSignedTx nonce gas recipient chainId sig (txs.nextProtection d c).1
      return (envelope, (txs.nextProtection d c).2)) := by
    cases d with
    | eip8130 d => exact absurd rfl hd
    | _ => rfl
  rw [heq, bind_ok_iff]
  constructor
  · rintro ⟨sig, hsig, h⟩
    obtain ⟨e, he, h⟩ := bind_ok_iff.mp h
    exact ⟨sig, e, orFail_ok_iff.mp hsig, he, (Except.ok.inj h).symm⟩
  · rintro ⟨sig, e, hsig, he, rfl⟩
    exact ⟨sig, orFail_ok_iff.mpr hsig, bind_ok_iff.mpr ⟨e, he, rfl⟩⟩

theorem assemble_eip8130 {d : SpanBatchEip8130TransactionData} :
    txs.assemble chainId i (.eip8130 d) nonce gas recipient c = .ok p ↔
      ∃ proofs, txs.eip8130AuthData[c.eip8130Idx]? = some proofs ∧
        p = (.eip8130 (d.toTx chainId nonce gas proofs.1 proofs.2),
          { c with eip8130Idx := c.eip8130Idx + 1 }) := by
  show (orFail txs.eip8130AuthData[c.eip8130Idx]? _ >>= _) = _ ↔ _
  rw [bind_ok_iff]
  constructor
  · rintro ⟨proofs, hproofs, h⟩
    exact ⟨proofs, orFail_ok_iff.mp hproofs, (Except.ok.inj h).symm⟩
  · rintro ⟨proofs, hproofs, rfl⟩
    exact ⟨proofs, orFail_ok_iff.mpr hproofs, rfl⟩

theorem dataAt_eq_some_iff :
    txs.dataAt i = some d ↔
      ∃ raw, txs.txData[i]? = some raw ∧ SpanBatchTransactionData.decode raw = .ok d := by
  unfold dataAt
  rw [bind_eq_some_iff]
  refine exists_congr fun raw => and_congr_right fun _ => ?_
  cases SpanBatchTransactionData.decode raw <;> simp [Except.toOption]

/-- What a round of the loop needs and hands on. -/
theorem rebuild_ok_iff :
    txs.rebuild chainId i (txs.cursorAt i) = .ok p ↔
      ∃ d nonce gas, txs.dataAt i = some d ∧ txs.txNonces[i]? = some nonce ∧
        txs.txGases[i]? = some gas ∧ (txs.contractCreationBits.getBit i).isSome ∧
        (txs.contractCreationBits.getBit i = some 0 → txs.toIdxAt i < txs.txTos.length) ∧
        txs.assemble chainId i d nonce gas (txs.recipientAt i)
          { txs.cursorAt i with toIdx := txs.toIdxAt (i + 1) } = .ok p := by
  unfold rebuild
  rw [bind_ok_iff]
  constructor
  · rintro ⟨raw, hraw, h⟩
    obtain ⟨d, hd, h⟩ := bind_ok_iff.mp h
    obtain ⟨nonce, hnonce, h⟩ := bind_ok_iff.mp h
    obtain ⟨gas, hgas, h⟩ := bind_ok_iff.mp h
    obtain ⟨q, hq, h⟩ := bind_ok_iff.mp h
    obtain ⟨hbit, hlt, rfl⟩ := nextRecipient_ok_iff.mp hq
    exact ⟨d, nonce, gas, dataAt_eq_some_iff.mpr ⟨raw, orFail_ok_iff.mp hraw,
      Fallible.mapError_ok_iff.mp hd⟩, orFail_ok_iff.mp hnonce, orFail_ok_iff.mp hgas, hbit, hlt, h⟩
  · rintro ⟨d, nonce, gas, hdata, hnonce, hgas, hbit, hlt, h⟩
    obtain ⟨raw, hraw, hd⟩ := dataAt_eq_some_iff.mp hdata
    exact ⟨raw, orFail_ok_iff.mpr hraw, bind_ok_iff.mpr ⟨d, Fallible.mapError_ok_iff.mpr hd,
      bind_ok_iff.mpr ⟨nonce, orFail_ok_iff.mpr hnonce, bind_ok_iff.mpr ⟨gas,
        orFail_ok_iff.mpr hgas, bind_ok_iff.mpr ⟨_, nextRecipient_ok_iff.mpr ⟨hbit, hlt, rfl⟩, h⟩⟩⟩⟩⟩

theorem typeAt_of_dataAt (h : txs.dataAt i = some d) : txs.typeAt i = some d.txType := by
  unfold typeAt
  rw [h, map_some]

/-- The running indices of the next round are the counts of its position. -/
theorem rebuild_cursor (h : txs.rebuild chainId i (txs.cursorAt i) = .ok (e, c)) :
    c = txs.cursorAt (i + 1) := by
  obtain ⟨d, nonce, gas, hdata, -, -, -, -, h⟩ := rebuild_ok_iff.mp h
  have htype := typeAt_of_dataAt hdata
  have hbits : txs.protectedBitIdxAt (i + 1) =
      txs.protectedBitIdxAt i + if d.txType = .legacy then 1 else 0 := by
    unfold protectedBitIdxAt
    rw [count_succ]
    simp [htype]
  have hproofs : txs.eip8130IdxAt (i + 1) =
      txs.eip8130IdxAt i + if d.txType = .eip8130 then 1 else 0 := by
    unfold eip8130IdxAt
    rw [count_succ]
    simp [htype]
  unfold cursorAt
  rw [hbits, hproofs]
  by_cases hd : d.txType = .eip8130
  · cases d with
    | eip8130 d =>
      obtain ⟨proofs, -, heq⟩ := assemble_eip8130.mp h
      cases heq
      rfl
    | _ => cases hd
  · obtain ⟨-, e', -, -, heq⟩ := (assemble_older hd).mp h
    cases heq
    unfold nextProtection
    rw [if_neg hd]
    by_cases hlegacy : d.txType = .legacy
    · rw [if_pos hlegacy, if_pos hlegacy]
      rfl
    · rw [if_neg hlegacy, if_neg hlegacy]
      rfl

/-- A rebuilt transaction has the fields of its row exactly when its fees fit. -/
theorem rebuild_fields (hdata : txs.dataAt i = some d)
    (h : txs.rebuild chainId i (txs.cursorAt i) = .ok (e, c)) :
    fieldsOf e = txs.fieldsAt chainId i ↔ d.FeesFit := by
  obtain ⟨d', nonce, gas, hdata', hnonce, hgas, -, -, h⟩ := rebuild_ok_iff.mp h
  obtain rfl : d = d' := Option.some.inj (hdata.symm.trans hdata')
  unfold fieldsAt
  rw [hdata, hnonce, hgas]
  by_cases hd : d.txType = .eip8130
  · cases d with
    | eip8130 d =>
      obtain ⟨proofs, -, heq⟩ := assemble_eip8130.mp h
      cases heq
      cases txs.txSigs[i]? <;> simp [fieldsOf, fields, SpanBatchTransactionData.FeesFit]
    | _ => cases hd
  · obtain ⟨sig, e', hsig, he, heq⟩ := (assemble_older hd).mp h
    cases heq
    rw [hsig]
    -- the bit matters for a legacy transaction only, and then it is the one of the row
    have hbit : d.fields nonce gas (txs.recipientAt i) chainId sig (txs.protectedAt i) =
        d.fields nonce gas (txs.recipientAt i) chainId sig (txs.nextProtection d
          { txs.cursorAt i with toIdx := txs.toIdxAt (i + 1) }).1 := by
      cases d <;> rfl
    show _ = d.fields nonce gas (txs.recipientAt i) chainId sig (txs.protectedAt i) ↔ _
    rw [hbit]
    exact fields_toSignedTx he

theorem RowComplete.exists_assemble (hrow : txs.RowComplete i d) (nonce gas : UInt64) :
    ∃ p, txs.assemble chainId i d nonce gas (txs.recipientAt i)
      { txs.cursorAt i with toIdx := txs.toIdxAt (i + 1) } = .ok p := by
  by_cases hd : d.txType = .eip8130
  · cases d with
    | eip8130 d =>
      exact ⟨_, assemble_eip8130.mpr ⟨_, getElem?_eq_getElem (hrow.proofs hd), rfl⟩⟩
    | _ => cases hd
  · have hrecipient : d.txType = .eip7702 → (txs.recipientAt i).isSome := by
      intro h7702
      have hcall := hrow.calls h7702
      unfold recipientAt
      rw [if_pos hcall, getElem?_eq_getElem (hrow.recipient hcall), isSome_some]
    obtain ⟨e, he⟩ := toSignedTx_ok_iff.mpr ⟨hd, hrecipient⟩
    exact ⟨_, (assemble_older hd).mpr ⟨_, e, getElem?_eq_getElem (hrow.signature hd), he, rfl⟩⟩

/-- A row is rebuilt exactly when it is complete. -/
theorem exists_rebuild_iff :
    (∃ p, txs.rebuild chainId i (txs.cursorAt i) = .ok p) ↔
      ∃ d, txs.dataAt i = some d ∧ txs.RowComplete i d := by
  simp only [rebuild_ok_iff]
  constructor
  · rintro ⟨p, d, nonce, gas, hdata, hnonce, hgas, hbit, hlt, h⟩
    have hnonceLt := (List.getElem?_eq_some_iff.mp hnonce).1
    have hgasLt := (List.getElem?_eq_some_iff.mp hgas).1
    refine ⟨d, hdata, hnonceLt, hgasLt, hbit, hlt, ?_, ?_, ?_⟩
    · intro hd
      obtain ⟨sig, e, -, he, -⟩ := (assemble_older (by rw [hd]; decide)).mp h
      have hsome := (toSignedTx_ok_iff.mp ⟨e, he⟩).2 hd
      by_contra hcall
      unfold recipientAt at hsome
      rw [if_neg hcall] at hsome
      cases hsome
    · intro hd
      obtain ⟨sig, e, hsig, -, -⟩ := (assemble_older hd).mp h
      exact (List.getElem?_eq_some_iff.mp hsig).1
    · intro hd
      cases d with
      | eip8130 d =>
        obtain ⟨proofs, hproofs, -⟩ := assemble_eip8130.mp h
        exact (List.getElem?_eq_some_iff.mp hproofs).1
      | _ => cases hd
  · rintro ⟨d, hdata, hrow⟩
    have hnonce := hrow.nonce
    have hgas := hrow.gas
    obtain ⟨p, hp⟩ := hrow.exists_assemble txs.txNonces[i] txs.txGases[i]
    exact ⟨p, d, _, _, hdata, getElem?_eq_getElem hrow.nonce,
      getElem?_eq_getElem hrow.gas, hrow.bit, hrow.recipient, hp⟩

/-! ## All rows -/

theorem rebuildTo_ok {n : ℕ} {l : List BaseTxEnvelope} (h : txs.rebuildTo chainId n = .ok (l, c)) :
    c = txs.cursorAt n ∧ l.length = n ∧
      ∀ j e, l[j]? = some e →
        txs.rebuild chainId j (txs.cursorAt j) = .ok (e, txs.cursorAt (j + 1)) := by
  induction n generalizing l c with
  | zero =>
    cases h
    refine ⟨?_, rfl, nofun⟩
    unfold cursorAt toIdxAt protectedBitIdxAt eip8130IdxAt
    rw [count_zero, count_zero, count_zero]
  | succ n ih =>
    obtain ⟨⟨done, c'⟩, hdone, h⟩ := bind_ok_iff.mp h
    obtain ⟨⟨e, c''⟩, he, h⟩ := bind_ok_iff.mp h
    obtain ⟨rfl, hlen, hrows⟩ := ih hdone
    obtain rfl := rebuild_cursor he
    cases h
    refine ⟨rfl, by rw [length_append, hlen]; rfl, fun j e' hj => ?_⟩
    rcases lt_trichotomy j n with hlt | rfl | hgt
    · rw [getElem?_append_left (by omega)] at hj
      exact hrows j e' hj
    · rw [← hlen, getElem?_concat_length] at hj
      cases hj
      exact he
    · rw [getElem?_eq_none (by rw [length_append, length_singleton]; omega)] at hj
      cases hj

theorem exists_rebuildTo {n : ℕ} (h : ∀ j < n, ∃ d, txs.dataAt j = some d ∧ txs.RowComplete j d) :
    ∃ p, txs.rebuildTo chainId n = .ok p := by
  induction n with
  | zero => exact ⟨_, rfl⟩
  | succ n ih =>
    obtain ⟨⟨done, c⟩, hdone⟩ := ih fun j hj => h j (lt_succ_of_lt hj)
    obtain ⟨rfl, -, -⟩ := rebuildTo_ok hdone
    obtain ⟨p, hp⟩ := exists_rebuild_iff.mpr (h n (lt_succ_self n))
    exact ⟨_, bind_ok_iff.mpr ⟨_, hdone, bind_ok_iff.mpr ⟨p, hp, rfl⟩⟩⟩

theorem rebuilt_ok_iff {l : List BaseTxEnvelope} :
    txs.rebuilt chainId = .ok l ↔ ∃ c, txs.rebuildTo chainId txs.totalBlockTxCount = .ok (l, c) := by
  unfold rebuilt
  cases txs.rebuildTo chainId txs.totalBlockTxCount with
  | error e => simp
  | ok p => simp [Prod.ext_iff]

/-- The transactions are rebuilt exactly when the columns are complete. -/
theorem exists_rebuilt_iff : (∃ l, txs.rebuilt chainId = .ok l) ↔ txs.Complete := by
  constructor
  · rintro ⟨l, hl⟩ j hj
    obtain ⟨c, hc⟩ := rebuilt_ok_iff.mp hl
    obtain ⟨-, hlen, hrows⟩ := rebuildTo_ok hc
    exact exists_rebuild_iff.mp ⟨_, hrows j _ (getElem?_eq_getElem (by omega))⟩
  · intro h
    obtain ⟨⟨l, c⟩, hl⟩ := exists_rebuildTo h
    exact ⟨l, rebuilt_ok_iff.mpr ⟨c, hl⟩⟩

variable (txs chainId)

/-- Success gives one transaction for each position, with the fields of the columns there; and a fee
that does not fit is an error. -/
def RebuildsExactly (encode2718 : BaseTxEnvelope → Bytes) : Prop :=
  (∀ l, txs.rebuilt chainId = .ok l →
    l.length = txs.totalBlockTxCount ∧ ∀ i e, l[i]? = some e → fieldsOf e = txs.fieldsAt chainId i) ∧
  (¬txs.FeesFit → ∃ stop, txs.fullTxs chainId encode2718 = .error stop)

/-- Complete columns are rebuilt exactly when all fees fit into 128 bits; a larger fee goes through
with its upper half cut off. -/
theorem rebuilds_exactly_iff (encode2718 : BaseTxEnvelope → Bytes) :
    txs.RebuildsExactly chainId encode2718 ↔ (txs.Complete → txs.FeesFit) := by
  constructor
  · rintro ⟨hfields, -⟩ hcomplete i hi d hdata
    obtain ⟨l, hl⟩ := exists_rebuilt_iff.mpr hcomplete
    obtain ⟨c, hc⟩ := rebuilt_ok_iff.mp hl
    obtain ⟨-, hlen, hrows⟩ := rebuildTo_ok hc
    have hget := getElem?_eq_getElem (hlen.symm ▸ hi : i < l.length)
    exact (rebuild_fields hdata (hrows i _ hget)).mp ((hfields l hl).2 i _ hget)
  · intro h
    constructor
    · intro l hl
      have hfit := h (exists_rebuilt_iff.mp ⟨l, hl⟩)
      obtain ⟨c, hc⟩ := rebuilt_ok_iff.mp hl
      obtain ⟨-, hlen, hrows⟩ := rebuildTo_ok hc
      refine ⟨hlen, fun i e he => ?_⟩
      have hi : i < txs.totalBlockTxCount := hlen ▸ (List.getElem?_eq_some_iff.mp he).1
      obtain ⟨d, hdata, -⟩ := exists_rebuild_iff.mp ⟨_, hrows i e he⟩
      exact (rebuild_fields hdata (hrows i e he)).mpr (hfit i hi d hdata)
    · intro hmisfit
      unfold fullTxs
      cases hl : txs.rebuilt chainId with
      | ok l => exact absurd (h (exists_rebuilt_iff.mp ⟨l, hl⟩)) hmisfit
      | error stop => exact ⟨stop, rfl⟩

/-- The columns of one legacy transaction with a gas price of `2 ^ 128 + 1`. -/
def wideFeeColumns : Bytes :=
  [0] ++ [0] ++ replicate 64 0 ++ replicate 20 0 ++
    ([0xd4, 0x80, 0x91, 1] ++ replicate 15 0 ++ [1, 0x80]) ++ [0] ++ [0] ++ [1]

def wideFeeTxs : SpanBatchTransactions where
  totalBlockTxCount := 1
  contractCreationBits := ⟨[0]⟩
  txSigs := [⟨0, 0, false⟩]
  txNonces := [0]
  txGases := [0]
  txTos := [FixedBytes.zero 20]
  txData := [[0xd4, 0x80, 0x91, 1] ++ replicate 15 0 ++ [1, 0x80]]
  protectedBits := ⟨[1]⟩
  txTypes := [.legacy]
  legacyTxCount := 1
  eip8130AuthData := []

def narrowedTx : BaseTxEnvelope :=
  .legacy {
    chainId := some 8453, nonce := 0, gasPrice := 1, gasLimit := 0
    toKind := some (FixedBytes.zero 20), value := 0, input := [] } ⟨0, 0, false⟩

theorem wide_fee_is_cut_off :
    decode leb128 1 wideFeeColumns = .ok (wideFeeTxs, []) ∧ wideFeeTxs.rebuilt 8453 = .ok [narrowedTx] ∧
      ¬wideFeeTxs.RebuildsExactly 8453 fun _ => [] := by
  have hrebuilt : wideFeeTxs.rebuilt 8453 = .ok [narrowedTx] := by rfl
  refine ⟨by decide +kernel, hrebuilt, fun h => ?_⟩
  have hfields := (h.1 _ hrebuilt).2 0 narrowedTx rfl
  exact absurd hfields (by decide +kernel)

end SpanBatchTransactions

end NodeReth.Span
