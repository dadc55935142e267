import NodeReth.Eip8130.Canonical
import NodeReth.Eip8130.Executor

/-!
# What is hashed

The byte strings behind the hash that the sender signs, the hash that the payer signs and the replay
identifier (`tx.rs`). Items have prefix-free encodings, so a preimage determines the fields that went
into it; the tags, the header of the list and the number of its items keep the three kinds and the
encodings of signed transactions apart.
-/

namespace NodeReth.Eip8130

open Bytes List Readers RlpFormat

namespace TxEip8130

def senderPreimage (tx : TxEip8130) : Bytes :=
  eip8130TxType :: writeList (tx.rlpEncodeFieldsWithSender tx.sender)

def payerPreimage (tx : TxEip8130) (resolvedSender : Address) : Bytes :=
  eip8130PayerType :: writeList (tx.rlpEncodeFieldsWithSender (some resolvedSender))

def replayFields (tx : TxEip8130) (resolvedSender : Address) : Bytes :=
  writeNat tx.chainId.toNat ++ writeString resolvedSender.val ++ writeNat tx.validAfter.toNat ++
    writeNat tx.validBefore.toNat ++ encodeVec AccountChange.encode tx.accountChanges ++
    encodeVec (encodeVec Call.encode) tx.calls ++ writeString tx.metadata ++
    encodeAddressOpt tx.payer

def replayPreimage (tx : TxEip8130) (resolvedSender : Address) : Bytes :=
  replayIdType ++ writeList (tx.replayFields resolvedSender)

/-- The transactions agree on what a replay identifier covers. -/
structure AgreeOnReplay (t u : TxEip8130) : Prop where
  chainId : t.chainId = u.chainId
  validAfter : t.validAfter = u.validAfter
  validBefore : t.validBefore = u.validBefore
  accountChanges : t.accountChanges = u.accountChanges
  calls : t.calls = u.calls
  metadata : t.metadata = u.metadata
  payer : t.payer = u.payer

theorem replayFields_cancel {t u : TxEip8130} {a b : Address}
    (hlen : (t.replayFields a).length < 2 ^ 64) (heq : t.replayFields a = u.replayFields b) : a = b ∧ AgreeOnReplay t u := by
  simp only [replayFields, append_assoc] at hlen heq
  obtain ⟨hchainId, hlen, heq⟩ := readU64_exact.cancel hlen heq
  obtain ⟨hsender, hlen, heq⟩ := (readFixed_exact 20).cancel hlen heq
  obtain ⟨hvalidAfter, hlen, heq⟩ := readU64_exact.cancel hlen heq
  obtain ⟨hvalidBefore, hlen, heq⟩ := readU64_exact.cancel hlen heq
  obtain ⟨haccountChanges, hlen, heq⟩ := accountChanges_exact.cancel hlen heq
  obtain ⟨hcalls, hlen, heq⟩ := calls_exact.cancel hlen heq
  obtain ⟨hmetadata, hlen, heq⟩ := readBytes_exact.cancel hlen heq
  rw [← append_nil (encodeAddressOpt t.payer)] at hlen heq
  rw [← append_nil (encodeAddressOpt u.payer)] at heq
  obtain ⟨hpayer, -, -⟩ := decodeAddressOpt_exact.cancel hlen heq
  exact ⟨hsender, hchainId, hvalidAfter, hvalidBefore, haccountChanges, hcalls, hmetadata, hpayer⟩

end TxEip8130

/-! ## Lists -/

/-- A list does not begin with a byte that stands for itself. -/
theorem cons_ne_writeList {p rest : Bytes} {x : UInt8} (hx : x.toNat < 0x80)
    (hlen : (x :: rest).length < 2 ^ 64) : x :: rest ≠ writeList p := by
  intro heq
  have hread := readList_exact.read_write p [] trivial (heq ▸ hlen)
  rw [append_nil, ← heq] at hread
  obtain ⟨n, mid, hheader, -, -⟩ := readBytes_ok hread
  rw [decodeHeader, if_pos hx] at hheader
  cases hheader

theorem writeString_ne_nil {b : Bytes} : writeString b ≠ [] := by
  unfold writeString header
  split <;> split_ifs <;> simp

/-- The EIP-2718 encodings of the variants of `BaseTxEnvelope`. The lists in those of the other
transaction types are written by the library. -/
inductive Encoding2718 : Bytes → Prop
  | legacy (payload : Bytes) : Encoding2718 (writeList payload)
  | eip2930 (payload : Bytes) : Encoding2718 (0x01 :: writeList payload)
  | eip1559 (payload : Bytes) : Encoding2718 (0x02 :: writeList payload)
  | eip7702 (payload : Bytes) : Encoding2718 (0x04 :: writeList payload)
  | deposit (payload : Bytes) : Encoding2718 (0x7e :: writeList payload)
  | eip8130 (signed : Eip8130Signed) : Encoding2718 (signed.encode2718 [])

namespace TxEip8130

variable {t u : TxEip8130} {a b : Address}

/-- A tagged body determines its fields, and nothing can follow them. -/
theorem body_cancel {x : UInt8} {a b : Option Address} {r : Bytes}
    (hlen : (x :: writeList (t.rlpEncodeFieldsWithSender a)).length < 2 ^ 64)
    (heq : x :: writeList (t.rlpEncodeFieldsWithSender a) =
      x :: writeList (u.rlpEncodeFieldsWithSender b ++ r)) : a = b ∧ AgreeButSender t u ∧ [] = r := by
  rw [length_cons] at hlen
  obtain ⟨hfields, hshort⟩ := writeList_cancel (by omega) (List.cons.inj heq).2
  rw [← append_nil (rlpEncodeFieldsWithSender t a)] at hshort hfields
  exact fields_cancel hshort hfields

theorem senderPreimage_inj (hlen : t.senderPreimage.length < 2 ^ 64)
    (heq : t.senderPreimage = u.senderPreimage) : t = u := by
  rw [senderPreimage, senderPreimage, ← append_nil (u.rlpEncodeFieldsWithSender _)] at heq
  obtain ⟨hsender, hagree, -⟩ := body_cancel hlen heq
  rwa [AgreeButSender, ← hsender] at hagree

theorem payerPreimage_inj (hlen : (t.payerPreimage a).length < 2 ^ 64)
    (heq : t.payerPreimage a = u.payerPreimage b) : a = b ∧ AgreeButSender t u := by
  rw [payerPreimage, payerPreimage, ← append_nil (u.rlpEncodeFieldsWithSender _)] at heq
  obtain ⟨hsender, hagree, -⟩ := body_cancel hlen heq
  exact ⟨Option.some.inj hsender, hagree⟩

theorem replayPreimage_inj_iff (hlen : (t.replayPreimage a).length < 2 ^ 64) :
    t.replayPreimage a = u.replayPreimage b ↔ a = b ∧ AgreeOnReplay t u := by
  constructor
  · intro heq
    rw [replayPreimage, length_append] at hlen
    obtain ⟨hfields, hshort⟩ := writeList_cancel (by omega) (append_cancel_left heq)
    exact replayFields_cancel hshort hfields
  · rintro ⟨rfl, h⟩
    rw [replayPreimage, replayPreimage, replayFields, replayFields, h.chainId, h.validAfter,
      h.validBefore, h.accountChanges, h.calls, h.metadata, h.payer]

/-! The code sums the lengths of the fields up for the header of the list. -/

theorem senderSignatureHash_eq (env : Env) (t : TxEip8130) :
    t.senderSignatureHash env = env.keccak256 t.senderPreimage := by
  unfold senderSignatureHash rlpEncode rlpEncodedFieldsLength senderPreimage writeList
  rw [(writes sender).encode_eq, (writes sender).length_eq, append_assoc, singleton_append]

theorem payerSignatureHash_eq (env : Env) (t : TxEip8130) (a : Address) :
    t.payerSignatureHash env a = env.keccak256 (t.payerPreimage a) := by
  have hbody := writes fun _ => some a
  unfold payerSignatureHash payerPreimage writeList
  dsimp only
  rw [hbody.encode_eq, hbody.length_eq, append_assoc, singleton_append]

theorem replayId_eq (env : Env) (t : TxEip8130) (a : Address) :
    t.replayId env a = env.keccak256 (t.replayPreimage a) := by
  unfold replayId replayPreimage replayFields callsEncodedLength encodeCalls writeList
  dsimp only
  rw [AccountChange.writes.vec.length_eq, AccountChange.writes.vec.encode_eq,
    Call.writes.vec.vec.length_eq, Call.writes.vec.vec.encode_eq, length_encodeAddressOpt]
  simp only [length_append, append_assoc, Nat.add_assoc]

/-- The tag of a replay identifier goes on where a transaction has its list. -/
theorem replayPreimage_ne_cons (hlen : (t.replayPreimage a).length < 2 ^ 64) (x : UInt8) (p : Bytes) :
    t.replayPreimage a ≠ x :: writeList p := by
  intro heq
  exact cons_ne_writeList (by decide) (Nat.lt_of_succ_lt hlen) (List.cons.inj heq).2

end TxEip8130

open TxEip8130

/-- The three kinds of preimage determine what they cover, and no two kinds, nor one of them and the
encoding of a signed transaction, have a byte string in common. -/
theorem preimages_separate {t : TxEip8130} {a : Address}
    (hsender : t.senderPreimage.length < 2 ^ 64) (hpayer : (t.payerPreimage a).length < 2 ^ 64)
    (hreplay : (t.replayPreimage a).length < 2 ^ 64) (u : TxEip8130) (b : Address) :
    (∀ env, t.senderSignatureHash env = env.keccak256 t.senderPreimage ∧
      t.payerSignatureHash env a = env.keccak256 (t.payerPreimage a) ∧
      t.replayId env a = env.keccak256 (t.replayPreimage a)) ∧
    (t.senderPreimage = u.senderPreimage → t = u) ∧
    (t.payerPreimage a = u.payerPreimage b → a = b ∧ AgreeButSender t u) ∧
    (t.replayPreimage a = u.replayPreimage b ↔ a = b ∧ AgreeOnReplay t u) ∧
    t.senderPreimage ≠ u.payerPreimage b ∧ t.replayPreimage a ≠ u.senderPreimage ∧
    t.replayPreimage a ≠ u.payerPreimage b ∧
    ∀ e, Encoding2718 e → t.senderPreimage ≠ e ∧ t.payerPreimage a ≠ e ∧ t.replayPreimage a ≠ e := by
  refine ⟨fun env => ⟨senderSignatureHash_eq env t, payerSignatureHash_eq env t a, replayId_eq env t a⟩,
    senderPreimage_inj hsender, payerPreimage_inj hpayer,
    replayPreimage_inj_iff hreplay, ?_, replayPreimage_ne_cons hreplay _ _,
    replayPreimage_ne_cons hreplay _ _, ?_⟩
  · intro heq
    cases (List.cons.inj heq).1
  · intro e he
    cases he with
    | legacy payload =>
      exact ⟨cons_ne_writeList (by decide) hsender, cons_ne_writeList (by decide) hpayer,
        cons_ne_writeList (by decide) hreplay⟩
    | eip2930 payload | eip1559 payload | eip7702 payload | deposit payload =>
      refine ⟨?_, ?_, replayPreimage_ne_cons hreplay _ _⟩
      all_goals
        intro heq
        cases (List.cons.inj heq).1
    | eip8130 signed =>
      rw [Eip8130Signed.writes.encode_eq signed []]
      refine ⟨fun heq => ?_, fun heq => ?_, replayPreimage_ne_cons hreplay _ _⟩
      · obtain ⟨-, -, hauth⟩ := body_cancel hsender heq
        exact writeString_ne_nil (append_eq_nil_iff.mp hauth.symm).1
      · cases (List.cons.inj heq).1

open CodecExample

theorem preimages_separate_sample :
    tx.senderPreimage.length < 2 ^ 64 ∧ ∀ u : TxEip8130, tx.senderPreimage = u.senderPreimage →
      tx = u := by
  have hlen : ∀ p : Bytes, p.length ≤ 200 → p.length < 2 ^ 64 := fun p hp => by omega
  refine ⟨hlen _ (by decide +kernel), fun u => ?_⟩
  exact (preimages_separate (a := fixedBe 20 0xaa) (hlen _ (by decide +kernel))
    (hlen _ (by decide +kernel)) (hlen _ (by decide +kernel)) u (fixedBe 20 0xaa)).2.1

end NodeReth.Eip8130
