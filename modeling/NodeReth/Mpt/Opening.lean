import NodeReth.Mpt.Blinding

/-!
# Opened nodes

`Opens` relates a node to the trie that remains when the provider's answers are put in place of its
blinded parts. The codec cannot tell the two apart: they have the same commitment. Blinding parts of
a node, by the codec or by their commitments, and opening them again leave the opened trie as it is.
-/

namespace NodeReth

open Bytes Radix RlpFormat

abbrev OpenTrie := Trie Nibble Bytes

namespace TrieNode

def isBlinded : TrieNode → Bool
  | blinded _ => true
  | _ => false

def ofTrie : OpenTrie → TrieNode
  | .empty => empty
  | .leaf pre value => leaf pre value
  | .edge pre t => extension pre (ofTrie t)
  | .branch children => branch fun i => if h : i.val < 16 then ofTrie (children ⟨i.val, h⟩) else empty

inductive Child : TrieNode → TrieNode → Prop
  | extension (pre : Nibbles) (node : TrieNode) : Child node (.extension pre node)
  | branch (stack : Fin 17 → TrieNode) (i : Fin 17) : Child (stack i) (.branch stack)

end TrieNode

namespace TrieCodec

open TrieNode

variable (c : TrieCodec) (fetcher : TrieProvider)

/-- The provider answers the commitment of a node with its preimage, and the commitment is not that
of the empty trie. -/
structure Answered (node : TrieNode) : Prop where
  not_empty : c.blind node ≠ c.emptyRootHash
  preimage : ∃ answer, decode (c.encode node) = .ok (answer, []) ∧ fetcher (c.blind node) = .ok answer

/-- The provider answers the commitments that the encoding of a node can contain. -/
def AnsweredBelow (node : TrieNode) : Prop :=
  ∀ sub, Relation.TransGen Child sub node → sub.isBlinded = false → sub.length ≥ 32 →
    c.Answered fetcher sub

/-- The trie that remains of a node when its blinded parts are replaced by the provider's answers.
A child is blinded only from 32 bytes on. -/
inductive Opens : TrieNode → OpenTrie → Prop
  | empty : Opens .empty .empty
  | leaf (pre : Nibbles) (value : Bytes) : Opens (.leaf pre value) (.leaf pre value)
  | extension {pre : Nibbles} {node : TrieNode} {t : OpenTrie} :
    Opens node t → Opens (.extension pre node) (.edge pre t)
  | branch {stack : Fin 17 → TrieNode} {children : Nibble → OpenTrie} :
    (∀ x : Nibble, Opens (stack x.castSucc) (children x)) → stack (Fin.last 16) = .empty →
      Opens (.branch stack) (.branch children)
  | blinded {commitment : B256} {node : TrieNode} {t : OpenTrie} :
    commitment = c.blind (ofTrie t) → (ofTrie t).length ≥ 32 → commitment ≠ c.emptyRootHash →
      fetcher commitment = .ok node → node.isBlinded = false → Opens node t →
      Opens (.blinded commitment) t

variable {c fetcher} {node : TrieNode} {t : OpenTrie}

/-! ## The code of an opened node -/

/-- Two nodes look the same inside a parent. -/
structure SameCode (c : TrieCodec) (m n : TrieNode) : Prop where
  childBytes : c.childBytes m = c.childBytes n
  blind : c.blind m = c.blind n

theorem ofTrie_branch_castSucc (children : Nibble → OpenTrie) (x : Nibble) :
    (if h : x.castSucc.val < 16 then ofTrie (children ⟨x.castSucc.val, h⟩) else empty) =
      ofTrie (children x) := by
  rw [dif_pos (show x.castSucc.val < 16 from x.isLt)]
  rfl

theorem forall_position {p : Fin 17 → Prop} (hchild : ∀ x : Nibble, p x.castSucc)
    (hlast : p (Fin.last 16)) (i : Fin 17) : p i :=
  Fin.lastCases hlast hchild i

section Code

variable {m n sub : TrieNode}

/-- Open nodes of the same code that are built alike look the same. -/
theorem sameCode_of_encode (hencode : c.encode m = c.encode n)
    (hblind : c.blind m = c.blind n) : SameCode c m n := by
  refine ⟨?_, hblind⟩
  have hlength : m.length = n.length := by
    rw [← c.encode_length, hencode, c.encode_length]
  have hcommitment : c.commitmentOf (c.encode m) m = c.commitmentOf (c.encode n) n := hblind
  unfold childBytes childBytesOf
  rw [hlength, hcommitment, hencode]

theorem sameCode_blinded {commitment : B256}
    (hcommitment : commitment = c.blind n) (hlong : n.length ≥ 32) :
    SameCode c (.blinded commitment) n := by
  refine ⟨?_, hcommitment⟩
  have hlength : TrieNode.length (.blinded commitment) = 33 := stringLength_hash commitment
  unfold childBytes childBytesOf
  rw [if_pos (by omega), if_pos hlong]
  show writeString commitment.val = writeString (c.blind n).val
  rw [hcommitment]

theorem encode_extension_congr {pre : Nibbles} (h : SameCode c m n) :
    c.encode (.extension pre m) = c.encode (.extension pre n) := by
  rw [c.encode_extension, c.encode_extension, h.childBytes]

theorem encode_branch_congr {s s' : Fin 17 → TrieNode} (h : ∀ i, SameCode c (s i) (s' i)) :
    c.encode (.branch s) = c.encode (.branch s') := by
  have hbytes : (fun i => c.childBytes (s i)) = fun i => c.childBytes (s' i) := by
    funext i
    exact (h i).childBytes
  rw [c.encode_branch, c.encode_branch, hbytes]

theorem sameCode_blindChild (n : TrieNode) : SameCode c (c.blindChild n) n := by
  unfold blindChild
  split_ifs with hlong
  · exact sameCode_blinded rfl hlong
  · exact ⟨rfl, rfl⟩

/-- Blinding the children of a node does not change its commitment. -/
theorem blind_shallow (n : TrieNode) : c.blind (c.shallow n) = c.blind n := by
  cases n with
  | extension pre node =>
    exact congrArg c.keccak256 (encode_extension_congr (sameCode_blindChild node))
  | branch stack =>
    exact congrArg c.keccak256 (encode_branch_congr fun i => sameCode_blindChild (stack i))
  | _ => rfl

/-- A node and what it opens to have the same code; if the node is open, the same encoding. -/
theorem code_of_opens (h : Opens c fetcher node t) : SameCode c node (ofTrie t) ∧
    (node.isBlinded = false → c.encode node = c.encode (ofTrie t)) := by
  induction h with
  | empty | leaf pre value => exact ⟨⟨rfl, rfl⟩, fun _ => rfl⟩
  | @extension pre node t _ ih =>
    have hencode : c.encode (.extension pre node) = c.encode (ofTrie (.edge pre t)) :=
      encode_extension_congr ih.1
    exact ⟨sameCode_of_encode hencode (congrArg c.keccak256 hencode), fun _ => hencode⟩
  | @branch stack children _ hlast ih =>
    have hencode : c.encode (.branch stack) = c.encode (ofTrie (.branch children)) := by
      refine encode_branch_congr (forall_position (fun x => ?_) ?_)
      · rw [ofTrie_branch_castSucc]
        exact (ih x).1
      · rw [hlast]
        exact ⟨rfl, rfl⟩
    exact ⟨sameCode_of_encode hencode (congrArg c.keccak256 hencode), fun _ => hencode⟩
  | blinded hcommitment hlong _ _ _ _ _ =>
    exact ⟨sameCode_blinded hcommitment hlong, nofun⟩

theorem blind_of_opens (h : Opens c fetcher node t) : c.blind node = c.blind (ofTrie t) :=
  (code_of_opens h).1.blind

theorem length_of_opens (h : Opens c fetcher node t) (hopen : node.isBlinded = false) :
    node.length = (ofTrie t).length := by
  rw [← c.encode_length, (code_of_opens h).2 hopen, c.encode_length]

/-! ## Blinding leaves the opened trie as it is -/

theorem shallow_not_blinded (h : node.isBlinded = false) : (c.shallow node).isBlinded = false := by
  cases node with
  | blinded commitment => cases h
  | _ => rfl

/-- A child of 32 bytes or more may be replaced by its commitment. -/
theorem opens_blind (h : Opens c fetcher node t) (hsized : Sized node)
    (hlong : node.length ≥ 32) (hanswered : node.isBlinded = false → c.Answered fetcher node)
    (hshallow : Opens c fetcher (c.shallow node) t) :
    Opens c fetcher (.blinded (c.blind node)) t := by
  by_cases hopen : node.isBlinded = false
  · obtain ⟨hne, answer, hdecode, hfetch⟩ := hanswered hopen
    rw [decode_encode hsized] at hdecode
    cases hdecode
    exact .blinded (blind_of_opens h) (length_of_opens h hopen ▸ hlong) hne hfetch
      (shallow_not_blinded hopen) hshallow
  · cases node with
    | blinded commitment => exact h
    | _ => exact absurd rfl hopen

theorem AnsweredBelow.child (h : c.AnsweredBelow fetcher node)
    (hsub : Child sub node) : c.AnsweredBelow fetcher sub :=
  fun sub' hsub' => h sub' (hsub'.tail hsub)

theorem opens_blindChild (hbelow : c.AnsweredBelow fetcher node)
    (hsub : Child sub node) (h : Opens c fetcher sub t) (hsized : Sized sub)
    (hshallow : Opens c fetcher (c.shallow sub) t) : Opens c fetcher (c.blindChild sub) t := by
  unfold blindChild
  split_ifs with hlong
  · exact opens_blind h hsized hlong (fun hopen => hbelow sub (.single hsub) hopen hlong) hshallow
  · exact h

/-- What the codec makes of a node opens to the same trie. -/
theorem opens_shallow (h : Opens c fetcher node t) (hsized : Sized node)
    (hbelow : c.AnsweredBelow fetcher node) : Opens c fetcher (c.shallow node) t := by
  induction h with
  | empty => exact .empty
  | leaf pre value => exact .leaf pre value
  | @extension pre node t hnode ih =>
    have hsub := Child.extension pre node
    exact .extension (opens_blindChild hbelow hsub hnode hsized.2 (ih hsized.2 (hbelow.child hsub)))
  | @branch stack children hstack hlast ih =>
    refine .branch (fun x => ?_) ?_
    · have hsub := Child.branch stack x.castSucc
      exact opens_blindChild hbelow hsub (hstack x) (hsized _) (ih x (hsized _) (hbelow.child hsub))
    · rw [hlast]
      rfl
  | blinded hcommitment hlong hne hfetch hopen hnode _ =>
    exact .blinded hcommitment hlong hne hfetch hopen hnode

end Code

end TrieCodec

end NodeReth
