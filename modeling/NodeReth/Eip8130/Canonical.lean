import NodeReth.Eip8130.Codec

/-!
# The envelope codec is canonical

The encoders write the format, with the predicted lengths (`Writes`), and the decoders accept exactly
what the format allows (`Exact`), level by level: operations, initial actors and calls, account
changes, the transaction and its envelope. So an envelope has one encoding, and an encoding one
envelope (`codec_canonical`).
-/

namespace NodeReth.Eip8130

open Bytes List Nat Readers RlpFormat

/-! ## Encoders -/

/-- The predicted length is the length of the format, and the encoder appends the format. -/
structure Writes {α : Type} (format : α → Bytes) (length : α → ℕ) (encode : α → Bytes → Bytes) :
    Prop where
  length_eq : ∀ a, length a = (format a).length
  encode_eq : ∀ a out, encode a out = out ++ format a

theorem lengthOfLength_add (payload : Bytes) :
    lengthOfLength payload.length + payload.length = (writeList payload).length := by
  rw [writeList, length_append, length_header]

section Vectors

variable {α : Type} {format : α → Bytes} {length : α → ℕ} {encode : α → Bytes → Bytes}

theorem Writes.list (hlength : ∀ a, length a = (format a).length)
    (hencode : ∀ a out, encode a out = out ++ (header 0xc0 (length a) ++ format a)) :
    Writes (fun a => writeList (format a)) (fun a => lengthOfLength (length a) + length a)
      encode where
  length_eq a := by rw [hlength, lengthOfLength_add]
  encode_eq a out := by rw [hencode, hlength, writeList]

variable (h : Writes format length encode)

include h

theorem Writes.sum (l : List α) : (l.map length).sum = (l.flatMap format).length := by
  rw [length_flatMap]
  congr 2
  funext a
  exact h.length_eq a

theorem Writes.foldl (l : List α) (out : Bytes) :
    l.foldl (fun out a => encode a out) out = out ++ l.flatMap format := by
  induction l generalizing out with
  | nil => simp
  | cons a l ih => rw [foldl_cons, ih, h.encode_eq, flatMap_cons, append_assoc]

theorem Writes.vec : Writes (encodeVec format) (vecLength length) (vecEncode length encode) where
  length_eq l := by
    unfold vecLength encodeVec
    rw [h.sum, lengthOfLength_add]
  encode_eq l out := by
    unfold vecEncode encodeVec writeList
    rw [h.foldl, h.sum, append_assoc]

end Vectors

theorem InitialActor.writes : Writes encode length encodeInto :=
  .list (fun _ => by simp only [rlpPayloadLength, length_append])
    fun _ _ => by simp only [encodeInto, append_assoc]

theorem SignedChange.writes : Writes encode length encodeInto :=
  .list (fun _ => by simp only [rlpFieldsLen, length_append])
    fun _ _ => by simp only [encodeInto, append_assoc]

theorem Call.writes : Writes encode length encodeInto :=
  .list (fun _ => by simp only [rlpPayloadLength, length_append])
    fun _ _ => by simp only [encodeInto, append_assoc]

def AccountChange.fields : AccountChange → Bytes
  | create b =>
    writeNat 0 ++ writeString b.userSalt.val ++ writeString b.code ++
      encodeVec InitialActor.encode b.initialActors
  | configChange b =>
    writeNat 1 ++ writeNat b.channel.byte.toNat ++ writeNat b.sequence.toNat ++
      encodeVec SignedChange.encode b.changes ++ writeString b.signature
  | delegation target => writeNat 2 ++ writeString target.val

theorem AccountChange.encode_eq_fields (a : AccountChange) : a.encode = writeList a.fields := by
  cases a <;> rfl

theorem AccountChange.rlpPayloadLength_eq (a : AccountChange) :
    a.rlpPayloadLength = a.fields.length := by
  cases a with
  | create b =>
    have htype : (create b).typeByte.toNat = 0 := rfl
    have hactors := InitialActor.writes.vec.length_eq b.initialActors
    simp only [rlpPayloadLength, fields, length_append, htype]
    omega
  | configChange b =>
    have htype : (configChange b).typeByte.toNat = 1 := rfl
    have hchanges := SignedChange.writes.vec.length_eq b.changes
    simp only [rlpPayloadLength, fields, length_append, htype]
    omega
  | delegation target =>
    have htype : (delegation target).typeByte.toNat = 2 := rfl
    simp [rlpPayloadLength, fields, htype]

theorem AccountChange.writes : Writes encode length encodeInto := by
  rw [funext encode_eq_fields]
  refine .list rlpPayloadLength_eq fun a out => ?_
  cases a with
  | create b =>
    simp only [encodeInto, fields, InitialActor.writes.vec.encode_eq, append_assoc]
    rfl
  | configChange b =>
    simp only [encodeInto, fields, SignedChange.writes.vec.encode_eq, append_assoc]
    rfl
  | delegation target =>
    simp only [encodeInto, append_assoc]
    rfl

theorem length_encodeAddressOpt (a : Option Address) :
    TxEip8130.addressOptEncodedLength a = (TxEip8130.encodeAddressOpt a).length := by
  cases a with
  | none => rfl
  | some a =>
    have hlen : a.val.length = 20 := a.2
    rw [TxEip8130.encodeAddressOpt, writeString_eq (by omega), length_append, hlen]
    rfl

theorem TxEip8130.writes (sender : TxEip8130 → Option Address) :
    Writes (fun tx : TxEip8130 => tx.rlpEncodeFieldsWithSender (sender tx))
      (fun tx => tx.rlpEncodedFieldsLengthWithSender (sender tx))
      (fun tx out => tx.rlpEncodeFieldsInto (sender tx) out) where
  length_eq tx := by
    have hchanges := AccountChange.writes.vec.length_eq tx.accountChanges
    have hcalls := Call.writes.vec.vec.length_eq tx.calls
    simp only [rlpEncodedFieldsLengthWithSender, rlpEncodeFieldsWithSender, callsEncodedLength,
      hchanges, hcalls, length_encodeAddressOpt, length_append]
  encode_eq tx out := by
    simp [rlpEncodeFieldsInto, rlpEncodeFieldsWithSender, encodeCalls,
      AccountChange.writes.vec.encode_eq, Call.writes.vec.vec.encode_eq]

namespace Eip8130Signed

def fields (signed : Eip8130Signed) : Bytes :=
  signed.tx.rlpEncodeFieldsWithSender signed.tx.sender ++
    (writeString signed.senderAuth ++ writeString signed.payerAuth)

def wire (signed : Eip8130Signed) : Bytes := eip8130TxType :: writeList signed.fields

theorem rlpPayloadLength_eq (signed : Eip8130Signed) :
    signed.rlpPayloadLength = signed.fields.length := by
  have htx := (TxEip8130.writes TxEip8130.sender).length_eq signed.tx
  unfold rlpPayloadLength fields TxEip8130.rlpEncodedFieldsLength
  rw [htx, length_append, length_append, add_assoc]

theorem writes : Writes wire encode2718Len encode2718 where
  length_eq signed := by
    unfold encode2718Len rlpEncodedSignedLength wire
    rw [rlpPayloadLength_eq, lengthOfLength_add, length_cons, add_comm]
  encode_eq signed out := by
    have htx := (TxEip8130.writes TxEip8130.sender).encode_eq signed.tx
    unfold encode2718 rlpEncodeSigned wire writeList
    rw [htx, rlpPayloadLength_eq, fields]
    simp

end Eip8130Signed

/-! ## Decoders -/

abbrev Any {α : Type} : α → Prop := fun _ => True

theorem encodeVec_exact {α : Type} {encode : α → Bytes} {decode : Reader RlpError α}
    (h : Exact encode Any decode) (hne : ∀ a, encode a ≠ []) :
    Exact (encodeVec encode) Any (readVec decode) :=
  (readVec_exact h hne).congr (fun _ => rfl) fun _ => ⟨fun _ => trivial, fun _ _ _ => trivial⟩

theorem readU8_exact : Exact (fun x : UInt8 => writeNat x.toNat) Any readU8 :=
  (readUint_exact 1 (by norm_num)).map UInt8.ofNat UInt8.toNat (fun x => x.toNat_lt)
    (fun _ => UInt8.ofNat_toNat) fun n hn =>
      UInt8.toNat_ofNat_of_lt' (hn.trans_eq (by norm_num))

theorem readU16_exact : Exact (fun x : UInt16 => writeNat x.toNat) Any readU16 :=
  (readUint_exact 2 (by norm_num)).map UInt16.ofNat UInt16.toNat (fun x => x.toNat_lt)
    (fun _ => UInt16.ofNat_toNat) fun n hn =>
      UInt16.toNat_ofNat_of_lt' (hn.trans_eq (by norm_num))

theorem readU64_exact : Exact (fun x : UInt64 => writeNat x.toNat) Any readU64 :=
  (readUint_exact 8 (by norm_num)).map UInt64.ofNat UInt64.toNat (fun x => x.toNat_lt)
    (fun _ => UInt64.ofNat_toNat) fun n hn =>
      UInt64.toNat_ofNat_of_lt' (hn.trans_eq (by norm_num))

theorem readBitVec_exact {k w : ℕ} (hk : k < 2 ^ 64) (hw : 256 ^ k = 2 ^ w) :
    Exact (fun x : BitVec w => writeNat x.toNat) Any (BitVec.ofNat w <$> readUint k) :=
  (readUint_exact k hk).map (BitVec.ofNat w) BitVec.toNat (fun x => x.isLt.trans_eq hw.symm)
    (fun x => by simp) fun n hn => by
      rw [BitVec.toNat_ofNat, mod_eq_of_lt (hn.trans_eq hw)]

theorem readU128_exact : Exact (fun x : BitVec 128 => writeNat x.toNat) Any readU128 :=
  readBitVec_exact (by norm_num) (by norm_num)

theorem readU256_exact : Exact (fun x : BitVec 256 => writeNat x.toNat) Any readU256 :=
  readBitVec_exact (by norm_num) (by norm_num)

theorem InitialActor.decodeFields_exact :
    Exact (fun a : InitialActor => writeString a.actorId.val ++ (writeString a.authenticator.val ++
      (writeNat a.scope.toNat ++ writeString a.policyData))) Any decodeFields := by
  refine .field actorId (readFixed_exact 32) fun _ => ?_
  refine .field authenticator (readFixed_exact 20) fun _ => ?_
  refine .field scope readU16_exact fun _ => ?_
  refine .lastField policyData readBytes_exact fun _ c => ?_
  cases c
  simp [and_assoc]

theorem InitialActor.decode_exact : Exact encode Any decode :=
  (readFramed_exact decodeFields_exact).congr
    (fun a => by simp only [encode, append_assoc]) fun _ => Iff.rfl

theorem Call.decodeFields_exact :
    Exact (fun c : Call => writeString c.toAddress.val ++ writeString c.data) Any decodeFields := by
  refine .field toAddress (readFixed_exact 20) fun _ => ?_
  refine .lastField data readBytes_exact fun _ c => ?_
  cases c
  simp

theorem Call.decode_exact : Exact encode Any decode := readFramed_exact decodeFields_exact

theorem ChangeType.fromOpByte_eq_some {byte : UInt8} {t : ChangeType} :
    fromOpByte byte = some t ↔ t.opByte = byte := by
  constructor
  · intro h
    unfold fromOpByte at h
    split_ifs at h with h0 h1 h2 h3 h4
    all_goals
      cases h
      exact Eq.symm (by assumption)
  · rintro rfl
    cases t <;> rfl

theorem AccountChangeChannel.fromByte_eq_some {byte : UInt8} {c : AccountChangeChannel} :
    fromByte byte = some c ↔ c.byte = byte := by
  constructor
  · intro h
    unfold fromByte at h
    split_ifs at h with h0 h1
    all_goals
      cases h
      exact Eq.symm (by assumption)
  · rintro rfl
    cases c <;> rfl

theorem SignedChange.decodeFields_exact :
    Exact (fun c : SignedChange => writeNat c.changeType.opByte.toNat ++ writeString c.payload) Any
      decodeFields := by
  refine .field (fun c : SignedChange => c.changeType.opByte) readU8_exact fun op => ?_
  refine .bind changeType (.expect _ _) (fun c hc => ChangeType.fromOpByte_eq_some.mpr hc.2)
    fun t hop => ?_
  refine .lastField payload readBytes_exact fun payload c => ?_
  have hbyte := ChangeType.fromOpByte_eq_some.mp hop
  cases c
  simp only [SignedChange.mk.injEq]
  constructor
  · rintro ⟨⟨-, rfl⟩, rfl⟩
    exact ⟨rfl, rfl⟩
  · rintro ⟨rfl, rfl⟩
    exact ⟨⟨⟨trivial, hbyte⟩, rfl⟩, rfl⟩

theorem SignedChange.decode_exact : Exact encode Any decode := readFramed_exact decodeFields_exact

namespace AccountChange

theorem decodeCreate_exact :
    Exact (fun b : CreateEntry => writeString b.userSalt.val ++ (writeString b.code ++
      encodeVec InitialActor.encode b.initialActors)) Any decodeCreate := by
  refine .field CreateEntry.userSalt (readFixed_exact 32) fun _ => ?_
  refine .field CreateEntry.code readBytes_exact fun _ => ?_
  refine .last CreateEntry.initialActors
    (readVec_exact InitialActor.decode_exact fun _ => writeList_ne_nil _)
    (fun _ _ _ _ => trivial) fun _ c _ => ?_
  cases c
  simp [and_assoc]

theorem decodeConfigChange_exact :
    Exact (fun b : SignedAccountChanges => writeNat b.channel.byte.toNat ++
      (writeNat b.sequence.toNat ++ (encodeVec SignedChange.encode b.changes ++
        writeString b.signature))) Any decodeConfigChange := by
  refine .field (fun b : SignedAccountChanges => b.channel.byte) readU8_exact fun byte => ?_
  refine .bind SignedAccountChanges.channel (.expect _ _)
    (fun b hb => AccountChangeChannel.fromByte_eq_some.mpr hb.2) fun channel hchannel => ?_
  refine .field SignedAccountChanges.sequence readU64_exact fun _ => ?_
  refine .bind SignedAccountChanges.changes
    (readVec_exact SignedChange.decode_exact fun _ => writeList_ne_nil _)
    (fun _ _ _ _ => trivial) fun _ _ => ?_
  refine .lastField SignedAccountChanges.signature readBytes_exact fun _ c => ?_
  have hbyte := AccountChangeChannel.fromByte_eq_some.mp hchannel
  cases c
  simp only [SignedAccountChanges.mk.injEq]
  constructor
  · rintro ⟨⟨⟨⟨-, rfl⟩, rfl⟩, rfl⟩, rfl⟩
    exact ⟨rfl, rfl, rfl, rfl⟩
  · rintro ⟨rfl, rfl, rfl, rfl⟩
    exact ⟨⟨⟨⟨⟨trivial, hbyte⟩, rfl⟩, rfl⟩, rfl⟩, rfl⟩

def body : AccountChange → Bytes
  | create b =>
    writeString b.userSalt.val ++ (writeString b.code ++ encodeVec InitialActor.encode b.initialActors)
  | configChange b =>
    writeNat b.channel.byte.toNat ++ (writeNat b.sequence.toNat ++
      (encodeVec SignedChange.encode b.changes ++ writeString b.signature))
  | delegation target => writeString target.val

theorem fields_eq (a : AccountChange) : a.fields = writeNat a.typeByte.toNat ++ a.body := by
  cases a with
  | create b | configChange b => simp [fields]; rfl
  | delegation target => rfl

/-- The changes of one type, which are those that `make` builds. -/
theorem body_exact {β : Type} {make : β → AccountChange} {write : β → Bytes}
    {read : Reader RlpError β} (h : Exact write Any read) (hbody : ∀ b, (make b).body = write b)
    {byte : UInt8} (hbyte : ∀ a : AccountChange, a.typeByte = byte ↔ ∃ b, make b = a) :
    Exact body (fun a => Any a ∧ a.typeByte = byte) (make <$> read) where
  read_write a rest ha hlen := by
    obtain ⟨b, rfl⟩ := (hbyte a).mp ha.2
    rw [hbody] at hlen ⊢
    exact map_ok_iff.mpr ⟨b, h.read_write b rest trivial hlen, rfl⟩
  of_read buf a rest hread := by
    obtain ⟨b, hb, rfl⟩ := map_ok_iff.mp hread
    rw [hbody]
    exact ⟨(h.of_read buf b rest hb).1, trivial, (hbyte _).mpr ⟨b, rfl⟩⟩

theorem decodeFields_exact : Exact fields Any decodeFields := by
  have hfields : Exact (fun a : AccountChange => writeNat a.typeByte.toNat ++ a.body) Any
      decodeFields := by
    refine .field typeByte readU8_exact fun byte => ?_
    by_cases hcreate : byte = 0x00
    · rw [if_pos hcreate]
      refine body_exact decodeCreate_exact (fun _ => rfl) fun a => ?_
      cases a <;> simp [hcreate, typeByte]
    · rw [if_neg hcreate]
      by_cases hconfig : byte = 0x01
      · rw [if_pos hconfig]
        refine body_exact decodeConfigChange_exact (fun _ => rfl) fun a => ?_
        cases a <;> simp [hconfig, typeByte]
      · rw [if_neg hconfig]
        by_cases hdelegation : byte = 0x02
        · rw [if_pos hdelegation]
          refine body_exact (readFixed_exact 20) (fun _ => rfl) fun a => ?_
          cases a <;> simp [hdelegation, typeByte]
        · rw [if_neg hdelegation]
          refine ⟨fun a rest ha _ => ?_, fun b a rest hread => nomatch hread⟩
          exfalso
          cases a with
          | create b => exact hcreate ha.2.symm
          | configChange b => exact hconfig ha.2.symm
          | delegation target => exact hdelegation ha.2.symm
  exact hfields.congr (fun a => (fields_eq a).symm) fun _ => Iff.rfl

theorem decode_exact : Exact encode Any decode :=
  (readFramed_exact decodeFields_exact).congr (fun a => (encode_eq_fields a).symm) fun _ => Iff.rfl

end AccountChange

namespace TxEip8130

theorem decodeAddressOpt_exact : Exact encodeAddressOpt Any decodeAddressOpt where
  read_write a rest _ hlen := by
    cases a with
    | none => exact bind_ok_iff.mpr ⟨_, _, readBytes_exact.read_write [] rest trivial hlen, rfl⟩
    | some a =>
      have hne : ¬a.val.length = 0 := by rw [a.2]; decide
      refine bind_ok_iff.mpr ⟨_, _, readBytes_exact.read_write a.val rest trivial hlen, ?_⟩
      rw [if_neg hne]
      exact map_ok_iff.mpr ⟨a, expect_ok_iff.mpr ⟨FixedBytes.tryFrom_val a, rfl⟩, rfl⟩
  of_read b a rest hread := by
    obtain ⟨raw, mid, hraw, hread⟩ := bind_ok_iff.mp hread
    rw [(readBytes_exact.of_read b raw mid hraw).1]
    by_cases hempty : raw.length = 0
    · rw [if_pos hempty] at hread
      obtain ⟨rfl, rfl⟩ := pure_ok_iff.mp hread
      rw [length_eq_zero_iff.mp hempty]
      exact ⟨rfl, trivial⟩
    · rw [if_neg hempty] at hread
      obtain ⟨a, ha, rfl⟩ := map_ok_iff.mp hread
      obtain ⟨hfixed, rfl⟩ := expect_ok_iff.mp ha
      unfold FixedBytes.tryFrom at hfixed
      split_ifs at hfixed
      cases hfixed
      exact ⟨rfl, trivial⟩

/-- The loop over the phases reads them as a vector does, as long as there are not too many. -/
theorem decodePhases_ok_iff {fuel : ℕ} {phases calls : List (List Call)} {payload : Bytes}
    (hphases : phases.length ≤ maxCallPhasesPerTx) :
    decodePhases fuel phases payload = .ok calls ↔
      ∃ more, readItems (readVec Call.decode) fuel payload = .ok more ∧ calls = phases ++ more ∧
        calls.length ≤ maxCallPhasesPerTx := by
  induction fuel generalizing phases payload with unfold decodePhases readItems
  | zero =>
    split_ifs
    · constructor
      · rintro ⟨⟩
        exact ⟨[], rfl, (append_nil _).symm, hphases⟩
      · rintro ⟨_, ⟨⟩, rfl, -⟩
        rw [append_nil]
    · constructor
      · rintro ⟨⟩
      · rintro ⟨_, ⟨⟩, -⟩
  | succ fuel ih =>
    by_cases hempty : payload = []
    · rw [if_pos hempty, if_pos hempty]
      constructor
      · rintro ⟨⟩
        exact ⟨[], rfl, (append_nil _).symm, hphases⟩
      · rintro ⟨_, ⟨⟩, rfl, -⟩
        rw [append_nil]
    · rw [if_neg hempty, if_neg hempty]
      by_cases hfull : maxCallPhasesPerTx ≤ phases.length
      · -- no room for another phase, and the vector would have one more
        rw [if_pos hfull]
        refine ⟨by rintro ⟨⟩, ?_⟩
        rintro ⟨more, hmore, rfl, hlen⟩
        obtain ⟨⟨phase, rest⟩, -, hmore⟩ := Fallible.bind_ok_iff.mp hmore
        obtain ⟨tail, -, hmore⟩ := Fallible.bind_ok_iff.mp hmore
        cases Fallible.pure_ok_iff.mp hmore
        rw [length_append, length_cons] at hlen
        omega
      · rw [if_neg hfull, Fallible.bind_ok_iff]
        have hroom (phase : List Call) : (phases ++ [phase]).length ≤ maxCallPhasesPerTx := by
          rw [length_append, length_singleton]
          omega
        constructor
        · rintro ⟨⟨phase, rest⟩, hphase, hrest⟩
          obtain ⟨more, hmore, rfl, hlen⟩ := (ih (hroom phase)).mp hrest
          refine ⟨phase :: more, ?_, by simp, hlen⟩
          exact Fallible.bind_ok_iff.mpr ⟨_, hphase, Fallible.bind_ok_iff.mpr ⟨_, hmore, rfl⟩⟩
        · rintro ⟨more, hmore, rfl, hlen⟩
          obtain ⟨⟨phase, rest⟩, hphase, hmore⟩ := Fallible.bind_ok_iff.mp hmore
          obtain ⟨tail, htail, hmore⟩ := Fallible.bind_ok_iff.mp hmore
          cases Fallible.pure_ok_iff.mp hmore
          exact ⟨_, hphase, (ih (hroom phase)).mpr ⟨tail, htail, by simp, hlen⟩⟩

theorem phase_exact : Exact (encodeVec Call.encode) Any (readVec Call.decode) :=
  encodeVec_exact Call.decode_exact fun _ => writeList_ne_nil _

theorem decodeCalls_exact :
    Exact (encodeVec (encodeVec Call.encode)) (fun calls => calls.length ≤ maxCallPhasesPerTx)
      decodeCalls where
  read_write calls rest hcalls hlen := by
    rw [encodeVec, writeList, length_append] at hlen
    rw [encodeVec, writeList, append_assoc]
    refine bind_ok_iff.mpr ⟨_, _, decodeHeader_header true (by omega) (by simp) (by rintro ⟨⟩),
      bind_ok_iff.mpr ⟨(), _, rejectIf_ok_iff.mpr ⟨Bool.noConfusion, rfl⟩, bind_ok_iff.mpr ⟨_, _,
        get_ok_iff.mpr ⟨rfl, rfl⟩, bind_ok_iff.mpr ⟨(), _, rejectIf_ok_iff.mpr ⟨by simp, rfl⟩,
          bind_ok_iff.mpr ⟨calls, _, lift_ok_iff.mpr ⟨?_, rfl⟩, ?_⟩⟩⟩⟩⟩
    · rw [take_left]
      refine (decodePhases_ok_iff (zero_le _)).mpr ⟨calls, ?_, rfl, hcalls⟩
      exact readItems_flatMap phase_exact (fun _ => writeList_ne_nil _) le_rfl (fun _ _ => trivial)
        (by omega)
    · rw [drop_left]
      rfl
  of_read b calls rest hread := by
    obtain ⟨⟨list, n⟩, mid, hheader, hread⟩ := bind_ok_iff.mp hread
    obtain ⟨_, _, hlist, hread⟩ := bind_ok_iff.mp hread
    obtain ⟨htrue, rfl⟩ := rejectIf_ok_iff.mp hlist
    obtain ⟨_, _, hget, hread⟩ := bind_ok_iff.mp hread
    obtain ⟨rfl, rfl⟩ := get_ok_iff.mp hget
    obtain ⟨_, _, -, hread⟩ := bind_ok_iff.mp hread
    obtain ⟨calls', _, hphases, htail⟩ := bind_ok_iff.mp hread
    obtain ⟨hphases', rfl⟩ := lift_ok_iff.mp hphases
    cases htail
    obtain ⟨more, hmore, rfl, hcalls⟩ := (decodePhases_ok_iff (zero_le _)).mp hphases'
    obtain ⟨hpayload, -⟩ := readItems_ok phase_exact hmore
    rw [Bool.eq_true_of_not_eq_false htrue] at hheader
    have hlist := readList_exact.of_read b _ _ (readBytes_of_header hheader)
    rw [hpayload] at hlist
    exact ⟨hlist.1, hcalls⟩

theorem accountChanges_exact :
    Exact (encodeVec AccountChange.encode) Any (readVec AccountChange.decode) :=
  encodeVec_exact AccountChange.decode_exact fun a => a.encode_eq_fields ▸ writeList_ne_nil _

def FewPhases (tx : TxEip8130) : Prop := tx.calls.length ≤ maxCallPhasesPerTx

theorem rlpDecodeFields_exact :
    Exact (fun tx => tx.rlpEncodeFieldsWithSender tx.sender) FewPhases rlpDecodeFields := by
  have hfields : Exact (fun tx : TxEip8130 => writeNat tx.chainId.toNat ++
      (encodeAddressOpt tx.sender ++ (writeNat tx.nonceKey.toNat ++
      (writeNat tx.nonceSequence.toNat ++ (writeNat tx.validAfter.toNat ++
      (writeNat tx.validBefore.toNat ++ (writeNat tx.maxPriorityFeePerGas.toNat ++
      (writeNat tx.maxFeePerGas.toNat ++ (writeNat tx.gasLimit.toNat ++
      (encodeVec AccountChange.encode tx.accountChanges ++
      (encodeVec (encodeVec Call.encode) tx.calls ++ (writeString tx.metadata ++
      encodeAddressOpt tx.payer)))))))))))) FewPhases rlpDecodeFields := by
    refine .field chainId readU64_exact fun _ => ?_
    refine .field sender decodeAddressOpt_exact fun _ => ?_
    refine .field nonceKey readU256_exact fun _ => ?_
    refine .field nonceSequence readU64_exact fun _ => ?_
    refine .field validAfter readU64_exact fun _ => ?_
    refine .field validBefore readU64_exact fun _ => ?_
    refine .field maxPriorityFeePerGas readU128_exact fun _ => ?_
    refine .field maxFeePerGas readU128_exact fun _ => ?_
    refine .field gasLimit readU64_exact fun _ => ?_
    refine .field accountChanges accountChanges_exact fun _ => ?_
    refine .bind calls decodeCalls_exact (fun _ h => ?_) fun calls hcalls => ?_
    · exact h.1.1.1.1.1.1.1.1.1.1
    refine .field metadata readBytes_exact fun _ => ?_
    refine .lastField payer decodeAddressOpt_exact fun _ tx => ?_
    constructor
    · rintro ⟨⟨⟨⟨⟨⟨⟨⟨⟨⟨⟨⟨⟨-, rfl⟩, rfl⟩, rfl⟩, rfl⟩, rfl⟩, rfl⟩, rfl⟩, rfl⟩, rfl⟩, rfl⟩, rfl⟩, rfl⟩, rfl⟩
      simp
    · rintro ⟨rfl, rfl, rfl, rfl, rfl, rfl, rfl, rfl, rfl, rfl, rfl, rfl, rfl⟩
      exact ⟨⟨⟨⟨⟨⟨⟨⟨⟨⟨⟨⟨⟨hcalls, rfl⟩, rfl⟩, rfl⟩, rfl⟩, rfl⟩, rfl⟩, rfl⟩, rfl⟩, rfl⟩, rfl⟩, rfl⟩, rfl⟩,
        rfl⟩
  exact hfields.congr (fun tx => by simp only [rlpEncodeFieldsWithSender, append_assoc])
    fun _ => Iff.rfl

end TxEip8130

/-! ## Envelopes -/

namespace Eip8130Signed

variable (signed : Eip8130Signed)

def FewPhases : Prop := signed.tx.FewPhases

theorem rlpDecodeSigned_exact :
    Exact (fun signed => writeList signed.fields) FewPhases rlpDecodeSigned := by
  refine readFramed_exact ?_
  refine .bind tx TxEip8130.rlpDecodeFields_exact (fun _ => id) fun tx htx => ?_
  refine .field senderAuth readBytes_exact fun _ => ?_
  refine .lastField payerAuth readBytes_exact fun _ signed => ?_
  cases signed
  simp only [Eip8130Signed.mk.injEq]
  constructor
  · rintro ⟨⟨⟨-, rfl⟩, rfl⟩, rfl⟩
    exact ⟨rfl, rfl, rfl⟩
  · rintro ⟨rfl, rfl, rfl⟩
    exact ⟨⟨⟨htx, rfl⟩, rfl⟩, rfl⟩

theorem decode2718_wire {signed : Eip8130Signed} (hphases : signed.FewPhases)
    (hlen : signed.wire.length < 2 ^ 64) (rest : Bytes) :
    decode2718 (signed.wire ++ rest) = .ok (signed, rest) := by
  rw [wire, length_cons] at hlen
  have hread := rlpDecodeSigned_exact.read_write signed rest hphases (by omega)
  rw [wire, cons_append]
  unfold decode2718 typedDecode
  dsimp only
  rw [if_pos (by decide), hread]
  rfl

theorem decode2718_ok {b rest : Bytes} {signed : Eip8130Signed}
    (h : decode2718 b = .ok (signed, rest)) : b = signed.wire ++ rest := by
  unfold decode2718 at h
  cases b with
  | nil => cases h
  | cons ty b =>
    dsimp only at h
    by_cases htype : ty ≤ 0x7f
    · rw [if_pos htype] at h
      unfold typedDecode at h
      by_cases hty : ty = eip8130TxType
      · rw [if_neg (not_not.mpr hty)] at h
        obtain ⟨hb, -⟩ :=
          rlpDecodeSigned_exact.of_read b signed rest (Fallible.mapError_ok_iff.mp h)
        rw [hty, hb, wire, cons_append]
      · rw [if_pos hty] at h
        cases h
    · rw [if_neg htype] at h
      cases h

theorem encode_eq (out : Bytes) :
    signed.encode out = out ++ (header 0x80 signed.wire.length ++ signed.wire) := by
  unfold encode
  rw [writes.encode_eq, writes.length_eq, append_assoc]

theorem length_eq : signed.length = (signed.encode []).length := by
  unfold length
  rw [encode_eq, writes.length_eq, nil_append, length_append, length_header]

theorem length_wire_ne_one : signed.wire.length ≠ 1 := by
  have hpos := length_pos_iff.mpr (writeList_ne_nil signed.fields)
  rw [wire, length_cons]
  omega

theorem decode_encode {signed : Eip8130Signed} (hphases : signed.FewPhases)
    (hlen : signed.wire.length < 2 ^ 64) (rest : Bytes) :
    decode (signed.encode [] ++ rest) = .ok (signed, rest) := by
  have hheader := @decodeHeader_header _ (signed.wire ++ rest) false hlen (by simp) fun _ hone =>
    absurd hone signed.length_wire_ne_one
  have hinner := decode2718_wire hphases hlen []
  rw [append_nil] at hinner
  rw [encode_eq, nil_append, append_assoc]
  refine bind_ok_iff.mpr ⟨_, _, hheader, bind_ok_iff.mpr ⟨(), _,
    rejectIf_ok_iff.mpr ⟨Bool.noConfusion, rfl⟩, bind_ok_iff.mpr ⟨_, _, get_ok_iff.mpr ⟨rfl, rfl⟩,
      bind_ok_iff.mpr ⟨(), _, rejectIf_ok_iff.mpr ⟨by simp, rfl⟩, ?_⟩⟩⟩⟩
  refine bind_ok_iff.mpr ⟨(), rest, congrArg (fun b => Except.ok (PUnit.unit, b)) (drop_left ..), ?_⟩
  rw [take_left, hinner]
  rfl

end Eip8130Signed

/-! ## The compact form -/

theorem TxEip8130.decodeCompactTailFields_exact :
    Exact (fun x : Bytes × Bytes × Bytes => writeString x.1 ++ (writeString x.2.1 ++
      writeString x.2.2)) Any decodeCompactTailFields := by
  refine .field (fun x : Bytes × Bytes × Bytes => x.1) readBytes_exact fun _ => ?_
  refine .field (fun x : Bytes × Bytes × Bytes => x.2.1) readBytes_exact fun _ => ?_
  refine .lastField (fun x : Bytes × Bytes × Bytes => x.2.2) readBytes_exact fun _ x => ?_
  obtain ⟨x, -, -⟩ := x
  simp [and_assoc]

theorem Eip8130Signed.decodeCompactAuthFields_exact :
    Exact (fun x : Bytes × Bytes => writeString x.1 ++ writeString x.2) Any
      decodeCompactAuthFields := by
  refine .field (fun x : Bytes × Bytes => x.1) readBytes_exact fun _ => ?_
  refine .lastField (fun x : Bytes × Bytes => x.2) readBytes_exact fun _ x => ?_
  obtain ⟨x, -⟩ := x
  simp

theorem readAll_write {α : Type} {write : α → Bytes} {ok : α → Prop} {read : Reader RlpError α}
    (h : Exact write ok read) {a : α} (ha : ok a) (hlen : (write a).length < 2 ^ 64) :
    readAll read (write a) = some a := by
  have hread := h.read_write a [] ha hlen
  rw [append_nil] at hread
  unfold readAll
  rw [hread]

theorem TxEip8130.compactTail_eq (tx : TxEip8130) :
    tx.compactTail = writeList (writeString (encodeVec AccountChange.encode tx.accountChanges) ++
      (writeString (encodeVec (encodeVec Call.encode) tx.calls) ++ writeString tx.metadata)) := by
  unfold compactTail encodeCalls writeList
  simp [AccountChange.writes.vec.encode_eq, Call.writes.vec.vec.encode_eq, add_assoc]

theorem TxEip8130.decodeCompactTail_compactTail {tx : TxEip8130} (hphases : tx.FewPhases)
    (hlen : tx.compactTail.length < 2 ^ 64) :
    decodeCompactTail tx.compactTail = some (tx.accountChanges, tx.calls, tx.metadata) := by
  rw [compactTail_eq] at hlen ⊢
  have htail := (readFramed_exact decodeCompactTailFields_exact).read_write
    (encodeVec AccountChange.encode tx.accountChanges,
      encodeVec (encodeVec Call.encode) tx.calls, tx.metadata) [] trivial hlen
  rw [append_nil] at htail
  simp only [writeList, length_append] at hlen
  have hchanges : readAll (readVec AccountChange.decode)
      (encodeVec AccountChange.encode tx.accountChanges) = some tx.accountChanges :=
    readAll_write accountChanges_exact trivial (length_lt_of_writeString
      (by omega : (writeString (encodeVec AccountChange.encode tx.accountChanges)).length < 2 ^ 64))
  have hcalls := readAll_write decodeCalls_exact hphases (length_lt_of_writeString
    (by omega : (writeString (encodeVec (encodeVec Call.encode) tx.calls)).length < 2 ^ 64))
  unfold decodeCompactTail
  rw [htail]
  show (readAll _ _ >>= _) = _
  rw [hchanges]
  rw [hcalls]
  rfl

theorem TxEip8130.fromCompact_toCompact {codec : CompactHeadCodec} {tx : TxEip8130} {len : ℕ}
    (hphases : tx.FewPhases) (hlen : tx.compactTail.length < 2 ^ 64)
    (hhead : ∀ rest, codec.fromCompact (codec.toCompact tx.compactHead ++ rest) len =
      some (tx.compactHead, rest)) (rest : Bytes) :
    fromCompact codec ((tx.toCompact codec).1 ++ rest) len = some (tx, rest) := by
  have htail : tx.compactHead.tailLen.toNat = tx.compactTail.length := by
    show (UInt64.ofNat tx.compactTail.length).toNat = _
    rw [UInt64.toNat_ofNat', mod_eq_of_lt hlen]
  unfold fromCompact toCompact
  rw [append_assoc, hhead]
  show (guard (tx.compactHead.tailLen.toNat ≤ (tx.compactTail ++ rest).length) >>= fun _ =>
    decodeCompactTail ((tx.compactTail ++ rest).take tx.compactHead.tailLen.toNat) >>= _) = _
  rw [htail, take_left, drop_left, decodeCompactTail_compactTail hphases hlen, guard, if_pos (by simp)]
  rfl

theorem Eip8130Signed.fromCompact_toCompact {codec : CompactHeadCodec} {signed : Eip8130Signed}
    {len : ℕ} (hphases : signed.FewPhases) (hlen : (signed.toCompact codec).2 < 2 ^ 64)
    (hhead : ∀ rest, codec.fromCompact (codec.toCompact signed.tx.compactHead ++ rest) len =
      some (signed.tx.compactHead, rest)) (rest : Bytes) :
    fromCompact codec ((signed.toCompact codec).1 ++ rest) len = some (signed, rest) := by
  have hbytes : (signed.toCompact codec).1 = (signed.tx.toCompact codec).1 ++
      writeList (writeString signed.senderAuth ++ writeString signed.payerAuth) := by
    simp [toCompact, writeList]
  have hsize : (signed.toCompact codec).1.length < 2 ^ 64 := hlen
  rw [hbytes, length_append] at hsize
  have htx : (signed.tx.toCompact codec).1.length =
      (codec.toCompact signed.tx.compactHead).length + signed.tx.compactTail.length :=
    length_append
  have hauthLen : (writeList (writeString signed.senderAuth ++
      writeString signed.payerAuth)).length < 2 ^ 64 := by omega
  have hauth := (readFramed_exact decodeCompactAuthFields_exact).read_write
    (signed.senderAuth, signed.payerAuth) rest trivial hauthLen
  unfold fromCompact
  rw [hbytes, append_assoc, TxEip8130.fromCompact_toCompact hphases (by omega) hhead]
  show ((readFramed decodeCompactAuthFields _).toOption >>= _) = _
  rw [hauth]
  rfl

/-! ## What an encoding determines -/

theorem calls_exact : Exact (encodeVec (encodeVec Call.encode)) Any (readVec (readVec Call.decode)) :=
  encodeVec_exact TxEip8130.phase_exact fun _ => writeList_ne_nil _

theorem writeList_cancel {p q : Bytes} (hlen : (writeList p).length < 2 ^ 64)
    (heq : writeList p = writeList q) : p = q ∧ p.length < 2 ^ 64 := by
  have hshort : p.length < 2 ^ 64 := by
    rw [writeList, length_append] at hlen
    omega
  rw [← append_nil (writeList p), ← append_nil (writeList q)] at heq
  exact ⟨(readList_exact.cancel (by rwa [append_nil]) heq).1, hshort⟩

namespace TxEip8130

variable {t u : TxEip8130}

/-- The transactions agree on all fields but the stored sender. -/
def AgreeButSender (t u : TxEip8130) : Prop := { t with sender := u.sender } = u

theorem fields_cancel {a b : Option Address} {r r' : Bytes}
    (hlen : (t.rlpEncodeFieldsWithSender a ++ r).length < 2 ^ 64)
    (heq : t.rlpEncodeFieldsWithSender a ++ r = u.rlpEncodeFieldsWithSender b ++ r') :
    a = b ∧ AgreeButSender t u ∧ r = r' := by
  simp only [rlpEncodeFieldsWithSender, append_assoc] at hlen heq
  obtain ⟨hchainId, hlen, heq⟩ := readU64_exact.cancel hlen heq
  obtain ⟨hsender, hlen, heq⟩ := decodeAddressOpt_exact.cancel hlen heq
  obtain ⟨hnonceKey, hlen, heq⟩ := readU256_exact.cancel hlen heq
  obtain ⟨hnonceSequence, hlen, heq⟩ := readU64_exact.cancel hlen heq
  obtain ⟨hvalidAfter, hlen, heq⟩ := readU64_exact.cancel hlen heq
  obtain ⟨hvalidBefore, hlen, heq⟩ := readU64_exact.cancel hlen heq
  obtain ⟨hmaxPriorityFeePerGas, hlen, heq⟩ := readU128_exact.cancel hlen heq
  obtain ⟨hmaxFeePerGas, hlen, heq⟩ := readU128_exact.cancel hlen heq
  obtain ⟨hgasLimit, hlen, heq⟩ := readU64_exact.cancel hlen heq
  obtain ⟨haccountChanges, hlen, heq⟩ := accountChanges_exact.cancel hlen heq
  obtain ⟨hcalls, hlen, heq⟩ := calls_exact.cancel hlen heq
  obtain ⟨hmetadata, hlen, heq⟩ := readBytes_exact.cancel hlen heq
  obtain ⟨hpayer, -, heq⟩ := decodeAddressOpt_exact.cancel hlen heq
  refine ⟨hsender, ?_, heq⟩
  cases u
  simp only [AgreeButSender, mk.injEq]
  exact ⟨hchainId, trivial, hnonceKey, hnonceSequence, hvalidAfter, hvalidBefore,
    hmaxPriorityFeePerGas, hmaxFeePerGas, hgasLimit, haccountChanges, hcalls, hmetadata, hpayer⟩

end TxEip8130

theorem Eip8130Signed.wire_inj {signed other : Eip8130Signed} (hlen : signed.wire.length < 2 ^ 64)
    (heq : signed.wire = other.wire) : signed = other := by
  rw [wire, length_cons] at hlen
  obtain ⟨hfields, hshort⟩ := writeList_cancel (by omega) (List.cons.inj heq).2
  unfold fields at hfields hshort
  obtain ⟨hsender, hagree, hauth⟩ := TxEip8130.fields_cancel hshort hfields
  have htx : signed.tx = other.tx := by rwa [TxEip8130.AgreeButSender, ← hsender] at hagree
  simp only [length_append] at hshort
  obtain ⟨hsenderAuth, -, hauth⟩ := readBytes_exact.cancel (by rw [length_append]; omega) hauth
  rw [← append_nil (writeString signed.payerAuth), ← append_nil (writeString other.payerAuth)] at hauth
  obtain ⟨hpayerAuth, -, -⟩ := readBytes_exact.cancel (by rw [append_nil]; omega) hauth
  cases signed
  cases other
  cases htx
  cases hsenderAuth
  cases hpayerAuth
  rfl

/-! ## The codec -/

section

open Eip8130Signed

/-- The envelope codec is canonical: whatever is accepted is what the encoder writes, the predicted
lengths are those of the bytes, an envelope with few enough phases is read back from its typed and
its network form, and from its compact form if the derived codec reads the head back, and no two
envelopes have one encoding. -/
theorem codec_canonical :
    (∀ b (accepted : Eip8130Signed), decode2718 b = .ok (accepted, []) →
      accepted.encode2718 [] = b ∧ ∀ b', decode2718 b' = .ok (accepted, []) → b' = b) ∧
    (∀ signed : Eip8130Signed, signed.encode2718Len = (signed.encode2718 []).length ∧
      signed.length = (signed.encode []).length ∧
      ∀ out, signed.encode out = out ++ signed.encode []) ∧
    (∀ signed : Eip8130Signed, signed.FewPhases → signed.encode2718Len < 2 ^ 64 →
      decode2718 (signed.encode2718 []) = .ok (signed, []) ∧
      ∀ rest, decode (signed.encode [] ++ rest) = .ok (signed, rest)) ∧
    (∀ (signed : Eip8130Signed) codec len, signed.FewPhases → (signed.toCompact codec).2 < 2 ^ 64 →
      (∀ rest, codec.fromCompact (codec.toCompact signed.tx.compactHead ++ rest) len =
        some (signed.tx.compactHead, rest)) →
      ∀ suffix, fromCompact codec ((signed.toCompact codec).1 ++ suffix) len =
        some (signed, suffix)) ∧
    ∀ signed other : Eip8130Signed, signed.encode2718Len < 2 ^ 64 →
      signed.encode2718 [] = other.encode2718 [] → signed = other := by
  have hwire (t : Eip8130Signed) : t.encode2718 [] = t.wire := writes.encode_eq t []
  have hlenWire {t : Eip8130Signed} (hlen : t.encode2718Len < 2 ^ 64) : t.wire.length < 2 ^ 64 :=
    (writes.length_eq t).symm.trans_lt hlen
  have haccepted {b : Bytes} {t : Eip8130Signed} (h : decode2718 b = .ok (t, [])) : b = t.wire :=
    (decode2718_ok h).trans (append_nil _)
  refine ⟨fun b accepted h => ⟨?_, fun b' h' => ?_⟩,
    fun signed => ⟨?_, length_eq signed, fun out => ?_⟩,
    fun signed hphases hlen => ⟨?_, decode_encode hphases (hlenWire hlen)⟩,
    fun signed codec len => fromCompact_toCompact, fun signed other hlen heq => ?_⟩
  · rw [hwire, haccepted h]
  · rw [haccepted h', haccepted h]
  · rw [hwire, writes.length_eq]
  · rw [encode_eq signed out, encode_eq signed [], nil_append]
  · have hread := decode2718_wire hphases (hlenWire hlen) []
    rwa [append_nil, ← hwire] at hread
  · rw [hwire, hwire] at heq
    exact wire_inj (hlenWire hlen) heq

namespace CodecExample

/-- A delegation, a call and metadata, with an explicit sender. -/
def tx : TxEip8130 where
  chainId := 8453
  sender := some (fixedBe 20 0xaa)
  nonceKey := 0x1234
  nonceSequence := 7
  validAfter := 0
  validBefore := 0
  maxPriorityFeePerGas := 1000000000
  maxFeePerGas := 5000000000
  gasLimit := 200000
  accountChanges := [.delegation (fixedBe 20 0xbb)]
  calls := [[⟨fixedBe 20 0xcc, [0xde, 0xad, 0xbe, 0xef]⟩]]
  metadata := [0xc0, 0xff, 0xee]
  payer := none

def signed : Eip8130Signed := ⟨tx, [0x01, 0x02], []⟩

/-- Six bytes of field lengths and the fields without leading zeros. -/
def head : FixedBytes 44 :=
  fixedBe 44 0x520800524600210500000000000000000000000000000000000000aa1234073b9aca00012a05f200030d403d

/-- The derived codec on the head of the transaction. -/
def codec : CompactHeadCodec where
  toCompact h := if h = tx.compactHead then head.val else []
  identifier _ := 44
  fromCompact b _ := if b.take 44 = head.val then some (tx.compactHead, b.drop 44) else none

theorem fromCompact_head (rest : Bytes) (len : ℕ) :
    codec.fromCompact (codec.toCompact signed.tx.compactHead ++ rest) len =
      some (signed.tx.compactHead, rest) := by
  have htake : (head.val ++ rest).take 44 = head.val := take_left' head.2
  have hdrop : (head.val ++ rest).drop 44 = rest := drop_left' head.2
  simp [codec, signed, htake, hdrop]

end CodecExample

open CodecExample

theorem codec_canonical_sample : signed.FewPhases ∧ signed.encode2718Len < 2 ^ 64 ∧
    (signed.toCompact codec).2 < 2 ^ 64 ∧
    decode2718 (signed.encode2718 []) = .ok (signed, []) ∧
    ∀ suffix, fromCompact codec
      ((signed.toCompact codec).1 ++ suffix) 0 = some (signed, suffix) := by
  have hphases : signed.FewPhases := by
    show 1 ≤ 1024
    decide
  have hlen : signed.encode2718Len < 2 ^ 64 := by decide +kernel
  have hcompact : (signed.toCompact codec).2 < 2 ^ 64 := by
    decide +kernel
  obtain ⟨-, -, hread, hcompactRead, -⟩ := codec_canonical
  exact ⟨hphases, hlen, hcompact, (hread signed hphases hlen).1,
    hcompactRead signed codec 0 hphases hcompact fun rest => fromCompact_head rest 0⟩

end

end NodeReth.Eip8130
