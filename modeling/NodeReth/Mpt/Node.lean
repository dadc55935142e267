import NodeReth.Lib.Radix
import NodeReth.Lib.RlpReader
import NodeReth.Primitives

/-!
# Trie nodes

The nodes of `proof/mpt/src/node.rs` and the operations on them. An operation works on the node in
place and opens blinded nodes on its way, so its outcome is an answer together with the node it
leaves, also when the answer is an error. The recursion follows the nodes that a provider answers,
which need not end: it runs within a number of steps, and an operation that needs more, or that
panics, has no outcome.
-/

namespace NodeReth

open Function Radix

abbrev Nibble := Fin 16

abbrev Nibbles := List Nibble

inductive TrieNodeError
  | invalidNodeType
  | pathTooShort
  | rlpError (error : RlpFormat.RlpError)
  | keyNotFound
  | provider (message : String)
  deriving DecidableEq, Repr

/-- A branch holds its sixteen children and a value, which stays empty. -/
inductive TrieNode
  | empty
  | blinded (commitment : B256)
  | leaf (pre : Nibbles) (value : Bytes)
  | extension (pre : Nibbles) (node : TrieNode)
  | branch (stack : Fin 17 → TrieNode)

abbrev TrieProvider := B256 → Except String TrieNode

namespace TrieNode

/-- The answer of an operation and the node that it leaves. -/
abbrev Outcome (α : Type) := Except TrieNodeError α × TrieNode

def isEmpty : TrieNode → Bool
  | empty => true
  | _ => false

variable (emptyRootHash : B256) (fetcher : TrieProvider)

/-! ## Opening -/

def unblind : TrieNode → Outcome Unit
  | blinded commitment =>
    if commitment = emptyRootHash then (.ok (), empty)
    else
      match fetcher commitment with
      | .ok node => (.ok (), node)
      | .error e => (.error (.provider e), blinded commitment)
  | node => (.ok (), node)

def openPath : ℕ → TrieNode → Nibbles → Option (Outcome (Option Bytes))
  | 0, _, _ => none
  | _ + 1, branch stack, [] => some (.error .pathTooShort, branch stack)
  | fuel + 1, branch stack, x :: path =>
    (openPath fuel (stack x.castSucc) path).map fun (r, node) =>
      (r, branch (update stack x.castSucc node))
  | _ + 1, leaf pre value, path =>
    some (.ok (if path = pre then some value else none), leaf pre value)
  | fuel + 1, extension pre node, path =>
    if path.length < pre.length then none
    else if path.take pre.length = pre then
      match unblind emptyRootHash fetcher node with
      | (.error e, node) => some (.error e, extension pre node)
      | (.ok (), node) => (openPath fuel node (path.drop pre.length)).map fun (r, node) =>
        (r, extension pre node)
    else some (.ok none, extension pre node)
  | fuel + 1, blinded commitment, path =>
    match unblind emptyRootHash fetcher (blinded commitment) with
    | (.error e, node) => some (.error e, node)
    | (.ok (), node) => openPath fuel node path
  | _ + 1, empty, _ => some (.ok none, empty)

/-! ## Insertion -/

def forkStack (i : Nibble) (a : TrieNode) (j : Nibble) (b : TrieNode) : Fin 17 → TrieNode :=
  update (update (fun _ => empty) i.castSucc a) j.castSucc b

/-- Puts a branch where the path parts from the prefix of a leaf or an extension; `rest` is what
remains of that node behind the branch. -/
def splitAt (path pre : Nibbles) (value : Bytes) (rest : Nibbles → TrieNode) :
    Except TrieNodeError TrieNode :=
  let shared := commonPrefixLength path pre
  match pre[shared]?, path[shared]? with
  | some i, some j =>
    let stack := forkStack i (rest (pre.drop (shared + 1))) j
      (leaf (path.drop (shared + 1)) value)
    .ok (if shared = 0 then branch stack else extension (path.take shared) (branch stack))
  | _, _ => .error .pathTooShort

def splitOutcome (node : TrieNode) : Except TrieNodeError TrieNode → Outcome Unit
  | .ok node => (.ok (), node)
  | .error e => (.error e, node)

def insert : ℕ → TrieNode → Nibbles → Bytes → Option (Outcome Unit)
  | 0, _, _, _ => none
  | _ + 1, empty, path, value => some (.ok (), leaf path value)
  | _ + 1, leaf pre leafValue, path, value =>
    if path = pre then some (.ok (), leaf pre value)
    else some (splitOutcome (leaf pre leafValue)
      (splitAt path pre value fun rest => leaf rest leafValue))
  | fuel + 1, extension pre node, path, value =>
    if commonPrefixLength path pre = pre.length then
      (insert fuel node (path.drop pre.length) value).map fun (r, node) => (r, extension pre node)
    else some (splitOutcome (extension pre node)
      (splitAt path pre value fun rest => if rest = [] then node else extension rest node))
  | _ + 1, branch stack, [], _ => some (.error .pathTooShort, branch stack)
  | fuel + 1, branch stack, x :: path, value =>
    (insert fuel (stack x.castSucc) path value).map fun (r, node) =>
      (r, branch (update stack x.castSucc node))
  | fuel + 1, blinded commitment, path, value =>
    match unblind emptyRootHash fetcher (blinded commitment) with
    | (.error e, node) => some (.error e, node)
    | (.ok (), node) => insert fuel node path value

/-! ## Deletion -/

def nonEmptyChildren (stack : Fin 17 → TrieNode) : List (Fin 17) :=
  (List.finRange 17).filter fun i => !(stack i).isEmpty

/-- The nibble of a position of a branch; the position of the value has none. -/
def nibbleOf (i : Fin 17) : Option Nibble := if h : i.val < 16 then some ⟨i.val, h⟩ else none

def collapseIfPossible : ℕ → TrieNode → Option (Outcome Unit)
  | 0, _ => none
  | _ + 1, extension pre (extension childPre child) =>
    some (.ok (), extension (pre ++ childPre) child)
  | _ + 1, extension pre (leaf childPre value) => some (.ok (), leaf (pre ++ childPre) value)
  | _ + 1, extension _ empty => some (.ok (), empty)
  | fuel + 1, branch stack =>
    match nonEmptyChildren stack with
    | [i] =>
      match stack i with
      | leaf pre value => (nibbleOf i).map fun x => (.ok (), leaf (x :: pre) value)
      | extension pre node => (nibbleOf i).map fun x => (.ok (), extension (x :: pre) node)
      | branch inner => (nibbleOf i).map fun x => (.ok (), extension [x] (branch inner))
      | blinded commitment =>
        match unblind emptyRootHash fetcher (blinded commitment) with
        | (.error e, node) => some (.error e, branch (update stack i node))
        | (.ok (), node) => collapseIfPossible fuel (branch (update stack i node))
      | empty => some (.ok (), branch stack)
    | _ => some (.ok (), branch stack)
  | _ + 1, node => some (.ok (), node)

def delete : ℕ → TrieNode → Nibbles → Option (Outcome Unit)
  | 0, _, _ => none
  | _ + 1, empty, _ => some (.error .keyNotFound, empty)
  | _ + 1, leaf pre value, path =>
    if path = pre then some (.ok (), empty) else some (.error .keyNotFound, leaf pre value)
  | fuel + 1, extension pre node, path =>
    let shared := commonPrefixLength path pre
    if shared < pre.length then some (.error .keyNotFound, extension pre node)
    else if shared = path.length then some (.ok (), empty)
    else
      match delete fuel node (path.drop pre.length) with
      | none => none
      | some (.error e, node) => some (.error e, extension pre node)
      | some (.ok (), node) => collapseIfPossible emptyRootHash fetcher fuel (extension pre node)
  | _ + 1, branch stack, [] => some (.error .pathTooShort, branch stack)
  | fuel + 1, branch stack, x :: path =>
    match delete fuel (stack x.castSucc) path with
    | none => none
    | some (.error e, node) => some (.error e, branch (update stack x.castSucc node))
    | some (.ok (), node) =>
      collapseIfPossible emptyRootHash fetcher fuel (branch (update stack x.castSucc node))
  | fuel + 1, blinded commitment, path =>
    match unblind emptyRootHash fetcher (blinded commitment) with
    | (.error e, node) => some (.error e, node)
    | (.ok (), node) => delete fuel node path

end TrieNode

end NodeReth
