import NodeReth.Mpt.Codec

/-!
# Blinding by the codec

Decoding an encoded node gives the node with its children of 32 bytes or more replaced by their
commitments. A node shorter than that has no such child, so it comes back as it was.
-/

namespace NodeReth.TrieCodec

open Bytes List Nat Nibbles RlpFormat TrieNode

section Blinding

variable (c : TrieCodec)

/-- A child as the encoding of its parent keeps it. -/
def blindChild (node : TrieNode) : TrieNode :=
  if node.length ≥ 32 then .blinded (c.blind node) else node

/-- A node as its encoding keeps it. -/
def shallow : TrieNode → TrieNode
  | .extension pre node => .extension pre (c.blindChild node)
  | .branch stack => .branch fun i => c.blindChild (stack i)
  | node => node

/-- Paths and values are no longer than an allocation can be. -/
def Sized : TrieNode → Prop
  | .leaf pre value => pre.length < 2 ^ 63 ∧ value.length < 2 ^ 63
  | .extension pre node => pre.length < 2 ^ 63 ∧ Sized node
  | .branch stack => ∀ i, Sized (stack i)
  | _ => True

end Blinding

variable {c : TrieCodec} {pre : Nibbles} {stack : Fin 17 → TrieNode}
  {decodeNode : Bytes → Except RlpError (TrieNode × Bytes)}

section Lengths

variable {node : TrieNode}

theorem encodedKeyLength_lt (hpre : pre.length < 2 ^ 63) :
    encodedKeyLength pre < 2 ^ 62 + 16 := by
  obtain ⟨x, rest, hbytes, hlen, -⟩ := encodePathLeaf_spec pre true
  have hkey := stringLength_le (b := x :: rest) (by rw [length_cons]; omega)
  rw [← encodedKey_length pre true, hbytes]
  rw [length_cons] at hkey
  omega

theorem payloadLength_lt (hnode : Sized node) : node.payloadLength < 2 ^ 64 := by
  cases node with
  | empty => norm_num [payloadLength]
  | blinded commitment =>
    simp only [payloadLength, commitment.2]
    norm_num
  | leaf pre value =>
    have hkey := encodedKeyLength_lt hnode.1
    have hvalue := stringLength_le (b := value) (hnode.2.trans (by norm_num))
    have := hnode.2
    simp only [payloadLength]
    omega
  | extension pre node =>
    have hkey := encodedKeyLength_lt hnode.1
    have hchild : blindedLengthOf (lengthOf (node.payloadLength) node) ≤ 33 :=
      blindedLength_le node
    simp only [payloadLength]
    omega
  | branch stack =>
    have hsum : payloadLength (.branch stack) ≤ 17 * 33 := by
      refine (sum_le_card_nsmul _ 33 fun x hx => ?_).trans (by simp)
      obtain ⟨i, -, rfl⟩ := mem_map.mp hx
      exact blindedLength_le (stack i)
    omega

theorem length_lt_of_branch (i : Fin 17)
    (h : TrieNode.length (.branch stack) < 32) : (stack i).length < 32 := by
  by_contra hlong
  have hchild : blindedLengthOf ((stack i).length) = 33 := by
    rw [blindedLengthOf, if_pos (by omega), stringLength_hash]
  have hle : blindedLengthOf ((stack i).length) ≤ payloadLength (.branch stack) :=
    single_le_sum (by simp) _ (mem_map.mpr ⟨i, mem_finRange i, rfl⟩)
  simp only [TrieNode.length, lengthOf] at h
  omega

theorem length_lt_of_extension (h : TrieNode.length (.extension pre node) < 32) :
    node.length < 32 := by
  by_contra hlong
  have hchild : blindedLengthOf (node.length) = 33 := by
    rw [blindedLengthOf, if_pos (by omega), stringLength_hash]
  have hle : blindedLengthOf (node.length) ≤ payloadLength (.extension pre node) :=
    le_add_left _ _
  simp only [TrieNode.length, lengthOf] at h
  omega

theorem shallow_of_short (h : node.length < 32) : c.shallow node = node := by
  cases node with
  | empty | blinded commitment | leaf pre value => rfl
  | extension pre node =>
    rw [shallow, blindChild, if_neg (not_le.mpr (length_lt_of_extension h))]
  | branch stack =>
    rw [shallow]
    congr 1
    funext i
    rw [blindChild, if_neg (not_le.mpr (length_lt_of_branch i h))]

end Lengths

/-! ## Items of a list -/

/-- The bytes of one RLP item: the header announces what is behind it. -/
def Item (bytes : Bytes) : Prop :=
  bytes ≠ [] ∧ ∀ rest, ∃ isList body,
    decodeHeader (bytes ++ rest) = .ok ((isList, body.length), body ++ rest)

section Items

variable {items : List Bytes}

theorem item_writeString {b : Bytes} (hb : b.length < 2 ^ 64) : Item (writeString b) :=
  ⟨writeString_ne_nil b, fun _ => ⟨false, b, decodeHeader_writeString hb⟩⟩

theorem item_header {payload : Bytes} (h : payload.length < 2 ^ 64) :
    Item (header 0xc0 payload.length ++ payload) := by
  refine ⟨by simp [header_ne_nil], fun rest => ⟨true, payload, ?_⟩⟩
  rw [append_assoc, decodeHeader_list h]

theorem countElements_flatten (h : ∀ b ∈ items, Item b) (tail : Bytes) {fuel : ℕ}
    (hfuel : items.length ≤ fuel) :
    countElements tail.length fuel (items.flatten ++ tail) = .ok items.length := by
  induction items generalizing fuel with
  | nil =>
    cases fuel with
    | zero => rfl
    | succ fuel => simp [countElements, pure, Except.pure]
  | cons b items ih =>
    obtain ⟨fuel, rfl⟩ := exists_eq_succ_of_ne_zero (n := fuel) (by
      rw [length_cons] at hfuel
      omega)
    obtain ⟨hne, hitem⟩ := h b (by simp)
    obtain ⟨isList, body, hheader⟩ := hitem (items.flatten ++ tail)
    have hlong : (b ++ (items.flatten ++ tail)).length > tail.length := by
      have := length_pos_iff.mpr hne
      simp only [length_append]
      omega
    rw [length_cons] at hfuel
    have hrest := @ih (fun b' hb' => h b' (by simp [hb'])) fuel (by omega)
    rw [flatten_cons, append_assoc, countElements, if_pos hlong, hheader]
    simp [bind, Except.bind, hrest, pure, Except.pure]

theorem length_le_flatten (h : ∀ b ∈ items, Item b) : items.length ≤ items.flatten.length := by
  rw [length_flatten]
  refine (length_le_sum_of_one_le _ fun n hn => ?_).trans' (by simp)
  obtain ⟨b, hb, rfl⟩ := mem_map.mp hn
  exact length_pos_iff.mpr (h b hb).1

theorem rlpListElementLength_list (h : ∀ b ∈ items, Item b)
    (hlen : items.flatten.length < 2 ^ 64) (rest : Bytes) :
    rlpListElementLength (header 0xc0 items.flatten.length ++ (items.flatten ++ rest)) =
      .ok items.length := by
  have hcount : items.length ≤ (items.flatten ++ rest).length := by
    rw [length_append]
    exact Nat.le_add_right_of_le (length_le_flatten h)
  unfold rlpListElementLength
  rw [decodeHeader_list hlen]
  simp only [bind, Except.bind, length_append, Nat.add_sub_cancel_left]
  rw [← length_append]
  exact countElements_flatten h rest hcount

theorem decodeElements_flatMap {α : Type} {decode : Bytes → Except RlpError (TrieNode × Bytes)}
    {bytes : α → Bytes} {node : α → TrieNode} (xs : List α)
    (h : ∀ x ∈ xs, bytes x ≠ [] ∧ ∀ rest, decode (bytes x ++ rest) = .ok (node x, rest))
    {fuel : ℕ} (hfuel : xs.length ≤ fuel) :
    decodeElements decode fuel (xs.flatMap bytes) = .ok (xs.map node) := by
  induction xs generalizing fuel with
  | nil => cases fuel <;> rfl
  | cons x xs ih =>
    obtain ⟨fuel, rfl⟩ := exists_eq_succ_of_ne_zero (n := fuel) (by
      rw [length_cons] at hfuel
      omega)
    obtain ⟨hne, hdecode⟩ := h x (by simp)
    rw [length_cons] at hfuel
    have hrest := @ih (fun y hy => h y (by simp [hy])) fuel (by omega)
    have hnonempty : (bytes x ++ xs.flatMap bytes).isEmpty = false := by simp [hne]
    rw [flatMap_cons, decodeElements, hnonempty]
    simp [bind, Except.bind, hdecode, hrest, pure, Except.pure]

end Items

/-! ## Decoding what was encoded -/

section RoundTrip

variable {node : TrieNode} {rest : Bytes} {fuel : ℕ}

/-- The first byte of a path and what follows it give the path back. -/
theorem tryDecode_path (hpre : pre.length < 2 ^ 63) (isLeaf : Bool) (rest : Bytes) :
    tryDecodeLeafOrExtensionPayload decodeNode
      (writeString (encodePathLeaf pre isLeaf) ++ rest) =
        if isLeaf then return (← (readBytes false rest).mapError .rlpError).map (.leaf pre) id
        else return (← (decodeNode rest).mapError .rlpError).map (.extension pre) id := by
  obtain ⟨x, tail, hbytes, hlen, hx⟩ := encodePathLeaf_spec pre isLeaf
  have hshort : (x :: tail).length < 2 ^ 64 := by
    rw [length_cons]
    omega
  unfold tryDecodeLeafOrExtensionPayload
  rw [hbytes, readBytes_writeString hshort]
  rcases hx with ⟨hx, hunpack⟩ | ⟨d, nibbles, rfl, hx, hunpack⟩
  · cases isLeaf <;> simp [bind, Except.bind, Except.mapError, hx, unpackPathToNibbles, hunpack] <;>
      rfl
  · have hdiv : x.toNat / 16 = if isLeaf then 3 else 1 := by
      split_ifs at hx ⊢ <;> omega
    have hmod : x.toNat % 16 = d.val := by
      split_ifs at hx <;> omega
    cases isLeaf <;> simp [bind, Except.bind, Except.mapError, hdiv, hmod, unpackPathToNibbles,
      hunpack] <;> rfl

theorem tryDecode_leaf
    {value : Bytes} (hpre : pre.length < 2 ^ 63) (hvalue : value.length < 2 ^ 63) (rest : Bytes) :
    tryDecodeLeafOrExtensionPayload decodeNode
      (writeString (encodePathLeaf pre true) ++ (writeString value ++ rest)) =
        .ok (.leaf pre value, rest) := by
  rw [tryDecode_path hpre, if_pos rfl, readBytes_writeString (hvalue.trans (by norm_num))]
  rfl

theorem tryDecode_extension {bytes : Bytes} (hpre : pre.length < 2 ^ 63)
    (hnode : decodeNode (bytes ++ rest) = .ok (node, rest)) :
    tryDecodeLeafOrExtensionPayload decodeNode
      (writeString (encodePathLeaf pre false) ++ (bytes ++ rest)) =
        .ok (.extension pre node, rest) := by
  rw [tryDecode_path hpre, if_neg nofun, hnode]
  rfl

theorem decodeWithin_pair {a b : Bytes} (ha : Item a) (hb : Item b)
    (hlen : (a ++ b).length < 2 ^ 64)
    (hdecode : tryDecodeLeafOrExtensionPayload (decodeWithin fuel) (a ++ (b ++ rest)) =
      .ok (node, rest)) :
    decodeWithin (fuel + 1) (header 0xc0 (a ++ b).length ++ (a ++ b) ++ rest) =
      .ok (node, rest) := by
  have hflat : [a, b].flatten = a ++ b := by simp
  have hitems : ∀ x ∈ [a, b], Item x := by
    intro x hx
    rcases mem_pair.mp hx with rfl | rfl
    · exact ha
    · exact hb
  have hcount := rlpListElementLength_list hitems (by rwa [hflat]) rest
  rw [hflat] at hcount
  rw [append_assoc, decodeWithin, decodeHeader_list hlen]
  simp only [bind, Except.bind, hcount]
  rw [← length_header 0xc0, drop_left, append_assoc, hdecode]
  rfl

theorem decodeWithin_blinded (commitment : B256) (rest : Bytes) (fuel : ℕ) :
    decodeWithin (fuel + 1) (writeString commitment.val ++ rest) =
      .ok (.blinded commitment, rest) := by
  have hlen : commitment.val.length < 2 ^ 64 := by
    rw [commitment.2]
    norm_num
  rw [decodeWithin, decodeHeader_writeString hlen, commitment.2]
  simp [bind, Except.bind, readBytes_writeString hlen, pure, Except.pure]

theorem decodeHeader_empty (rest : Bytes) : decodeHeader (0x80 :: rest) = .ok ((false, 0), rest) := by
  simp [decodeHeader, announce]

theorem decodeWithin_empty (rest : Bytes) (fuel : ℕ) :
    decodeWithin (fuel + 1) (0x80 :: rest) = .ok (.empty, rest) := by
  rw [decodeWithin, decodeHeader_empty]
  rfl

/-! ### The payloads of the nodes -/

theorem payload_leaf_length (value : Bytes) :
    (writeString (encodePathLeaf pre true) ++ writeString value).length =
      payloadLength (.leaf pre value) := by
  rw [length_append, length_writeString, length_writeString, encodedKey_length]
  rfl

theorem payload_extension_length :
    (writeString (encodePathLeaf pre false) ++ c.childBytes node).length =
      payloadLength (.extension pre node) := by
  rw [length_append, length_writeString, encodedKey_length, c.childBytes_length]
  rfl

theorem payload_branch_length (c : TrieCodec) (stack : Fin 17 → TrieNode) :
    ((finRange 17).flatMap fun i => c.childBytes (stack i)).length =
      payloadLength (.branch stack) := by
  rw [length_flatMap]
  simp only [c.childBytes_length]
  rfl

theorem encode_leaf (value : Bytes) :
    c.encode (.leaf pre value) =
      header 0xc0 (writeString (encodePathLeaf pre true) ++ writeString value).length ++
        (writeString (encodePathLeaf pre true) ++ writeString value) := by
  rw [payload_leaf_length]
  rfl

theorem encode_extension (c : TrieCodec) :
    c.encode (.extension pre node) =
      header 0xc0 (writeString (encodePathLeaf pre false) ++ c.childBytes node).length ++
        (writeString (encodePathLeaf pre false) ++ c.childBytes node) := by
  rw [payload_extension_length]
  rfl

theorem encode_branch (c : TrieCodec) (stack : Fin 17 → TrieNode) :
    c.encode (.branch stack) =
      header 0xc0 ((finRange 17).flatMap fun i => c.childBytes (stack i)).length ++
        (finRange 17).flatMap fun i => c.childBytes (stack i) := by
  rw [payload_branch_length]
  rfl

theorem item_encode (hnode : Sized node) : Item (c.encode node) := by
  have hpayload := payloadLength_lt hnode
  cases node with
  | empty =>
    exact ⟨by simp [encode], fun rest => ⟨false, [], decodeHeader_empty rest⟩⟩
  | blinded commitment =>
    refine item_writeString ?_
    rw [commitment.2]
    norm_num
  | leaf pre value =>
    rw [encode_leaf]
    exact item_header (by rwa [payload_leaf_length])
  | extension pre node =>
    rw [c.encode_extension]
    exact item_header (by rwa [payload_extension_length])
  | branch stack =>
    rw [c.encode_branch]
    exact item_header (by rwa [payload_branch_length])

theorem item_childBytes (hnode : Sized node) : Item (c.childBytes node) := by
  unfold childBytes childBytesOf
  split_ifs with hlong
  · refine item_writeString ?_
    rw [(c.commitmentOf (c.encode node) node).2]
    norm_num
  · exact item_encode hnode

theorem item_path (hpre : pre.length < 2 ^ 63) (isLeaf : Bool) :
    Item (writeString (encodePathLeaf pre isLeaf)) := by
  obtain ⟨x, tail, hbytes, hlen, -⟩ := encodePathLeaf_spec pre isLeaf
  rw [hbytes]
  refine item_writeString ?_
  rw [length_cons]
  omega

/-! ### The round trip -/

theorem length_pos (node : TrieNode) : 0 < node.length := by
  cases node with
  | empty => exact one_pos
  | blinded commitment => exact (stringLength_hash commitment).ge.trans' (by norm_num)
  | leaf _ _ | extension _ _ | branch _ => exact Nat.add_pos_left (lengthOfLength_pos _) _

theorem payload_lt {payload : Bytes}
    (h : (header 0xc0 payload.length ++ payload).length ≤ fuel + 1) : payload.length ≤ fuel := by
  have := lengthOfLength_pos payload.length
  rw [length_append, length_header] at h
  omega

theorem decodeWithin_childBytes (hnode : node.length ≤ fuel →
      decodeWithin fuel (c.encode node ++ rest) = .ok (c.shallow node, rest))
    (hfuel : node.blindedLength ≤ fuel) :
    decodeWithin fuel (c.childBytes node ++ rest) = .ok (c.blindChild node, rest) := by
  unfold blindedLength blindedLengthOf at hfuel
  unfold childBytes childBytesOf blindChild
  by_cases hlong : node.length ≥ 32
  · rw [if_pos hlong, stringLength_hash] at hfuel
    rw [if_pos hlong, if_pos hlong]
    obtain ⟨fuel, rfl⟩ := exists_eq_succ_of_ne_zero (n := fuel) (by omega)
    exact decodeWithin_blinded _ rest fuel
  · rw [if_neg hlong] at hfuel
    rw [if_neg hlong, if_neg hlong, hnode hfuel, shallow_of_short (by omega)]

theorem decodeWithin_branch (hstack : ∀ i, Sized (stack i))
    (hfuel : payloadLength (.branch stack) ≤ fuel) (hchild : ∀ i rest, (stack i).length ≤ fuel →
      decodeWithin fuel (c.encode (stack i) ++ rest) = .ok (c.shallow (stack i), rest))
    (rest : Bytes) :
    decodeWithin (fuel + 1) (c.encode (.branch stack) ++ rest) =
      .ok (c.shallow (.branch stack), rest) := by
  have hpayload : payloadLength (.branch stack) < 2 ^ 64 := payloadLength_lt hstack
  have hlen := c.payload_branch_length stack
  have hchildLength : ∀ i, (stack i).blindedLength ≤ payloadLength (.branch stack) := fun i =>
    single_le_sum (by simp) _ (mem_map.mpr ⟨i, mem_finRange i, rfl⟩)
  have hitems : ∀ b ∈ (finRange 17).map fun i => c.childBytes (stack i), Item b := by
    intro b hb
    obtain ⟨i, -, rfl⟩ := mem_map.mp hb
    exact item_childBytes (hstack i)
  have hcount := rlpListElementLength_list hitems (by rwa [← flatMap_def, hlen]) rest
  rw [← flatMap_def] at hcount
  have helements : decodeElements (decodeWithin fuel)
      ((finRange 17).flatMap fun i => c.childBytes (stack i)).length
      ((finRange 17).flatMap fun i => c.childBytes (stack i)) =
        .ok ((finRange 17).map fun i => c.blindChild (stack i)) := by
    refine decodeElements_flatMap _ (fun i _ => ⟨(item_childBytes (hstack i)).1, ?_⟩) ?_
    · intro rest
      exact decodeWithin_childBytes (hchild i rest) ((hchildLength i).trans hfuel)
    · have := length_le_flatten hitems
      rwa [← flatMap_def] at this
  have hfits : ((finRange 17).flatMap fun i => c.childBytes (stack i)).length < 2 ^ 64 := by
    rwa [hlen]
  have hvec : decodeVec (decodeWithin fuel)
      (header 0xc0 ((finRange 17).flatMap fun i => c.childBytes (stack i)).length ++
        (((finRange 17).flatMap fun i => c.childBytes (stack i)) ++ rest)) =
          .ok ((finRange 17).map fun i => c.blindChild (stack i), rest) := by
    unfold decodeVec
    rw [decodeHeader_list hfits]
    simp only [bind, Except.bind, Bool.not_true, Bool.false_eq_true, if_false, take_left,
      drop_left, helements, pure, Except.pure]
  rw [c.encode_branch, append_assoc, decodeWithin, decodeHeader_list hfits]
  simp only [bind, Except.bind, hcount, hvec, pure, Except.pure]
  simp [shallow]

/-- Decoding what was encoded blinds the long children. -/
theorem decodeWithin_encode (hnode : Sized node) (hfuel : node.length ≤ fuel)
    (rest : Bytes) : decodeWithin fuel (c.encode node ++ rest) = .ok (c.shallow node, rest) := by
  induction node generalizing fuel rest with
    obtain ⟨fuel, rfl⟩ := exists_eq_succ_of_ne_zero ((length_pos _).trans_le hfuel).ne'
  | empty => exact decodeWithin_empty rest fuel
  | blinded commitment => exact decodeWithin_blinded commitment rest fuel
  | leaf pre value =>
    have hpayload := payloadLength_lt hnode
    have hvalue : Item (writeString value) :=
      item_writeString (hnode.2.trans (by norm_num))
    rw [encode_leaf]
    exact decodeWithin_pair (item_path hnode.1 true) hvalue
      (by rwa [payload_leaf_length]) (tryDecode_leaf hnode.1 hnode.2 rest)
  | extension pre node ih =>
    have hpayload := payloadLength_lt hnode
    rw [← c.encode_length, c.encode_extension] at hfuel
    have hle := payload_lt hfuel
    have hchild : node.blindedLength ≤ fuel := by
      rw [length_append, c.childBytes_length] at hle
      omega
    rw [c.encode_extension]
    exact decodeWithin_pair (item_path hnode.1 false) (item_childBytes hnode.2)
      (by rwa [payload_extension_length])
      (tryDecode_extension hnode.1 (decodeWithin_childBytes (fun h => ih hnode.2 h rest) hchild))
  | branch stack ih =>
    rw [← c.encode_length, c.encode_branch] at hfuel
    have hle := payload_lt hfuel
    rw [c.payload_branch_length] at hle
    exact decodeWithin_branch hnode hle (fun i rest h => ih i (hnode i) h rest) rest

theorem decode_encode (hnode : Sized node) :
    decode (c.encode node) = .ok (c.shallow node, []) := by
  have h := decodeWithin_encode (c := c) hnode (c.encode_length node).ge []
  rwa [append_nil] at h

end RoundTrip

end NodeReth.TrieCodec
