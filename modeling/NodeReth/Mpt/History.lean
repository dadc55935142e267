import NodeReth.Mpt.Operations

/-!
# Tries along their histories

A trie reached from the empty one by any operations, with parts of it blinded and opened in between,
stands for the map of the successful operations, and in canonical form. Its commitment depends on the
map alone.
-/

namespace NodeReth

open Bytes Function Radix TrieNode

inductive TrieEvent
  | inserted (key : Nibbles) (value : Bytes)
  | deleted (key : Nibbles)

/-- The value of a key after its last successful operation; the latest event comes first. -/
def mapOf : List TrieEvent → Nibbles → Option Bytes
  | [], _ => none
  | .inserted key value :: history, q => if q = key then some value else mapOf history q
  | .deleted key :: history, q => if q = key then none else mapOf history q

namespace TrieCodec

variable {fuel : ℕ} {key : Nibbles}

section Histories

variable (c : TrieCodec) (fetcher : TrieProvider)

/-- A node may be replaced by its commitment inside its parent: its encoding is long enough and the
provider answers every commitment this makes. -/
structure CanBlind (node : TrieNode) : Prop where
  long : node.length ≥ 32
  answered : node.isBlinded = false → c.Answered fetcher node
  below : c.AnsweredBelow fetcher node

/-- Somewhere in a node, a part is replaced by what the codec makes of it, by its commitment, or by
what its commitment opens to. -/
inductive Reblinds : TrieNode → TrieNode → Prop
  | recode {node node' : TrieNode} : c.AnsweredBelow fetcher node →
    decode (c.encode node) = .ok (node', []) → Reblinds node node'
  | unblind {node node' : TrieNode} :
    unblind c.emptyRootHash fetcher node = (.ok (), node') → Reblinds node node'
  | blindExtension {pre : Nibbles} {node : TrieNode} : CanBlind c fetcher node →
    Reblinds (.extension pre node) (.extension pre (.blinded (c.blind node)))
  | blindBranch {stack : Fin 17 → TrieNode} {i : Fin 17} : CanBlind c fetcher (stack i) →
    Reblinds (.branch stack) (.branch (update stack i (.blinded (c.blind (stack i)))))
  | extension {pre : Nibbles} {node node' : TrieNode} : Reblinds node node' →
    Reblinds (.extension pre node) (.extension pre node')
  | branch {stack : Fin 17 → TrieNode} {i : Fin 17} {node' : TrieNode} : Reblinds (stack i) node' →
    Reblinds (.branch stack) (.branch (update stack i node'))

/-- The nodes reached from the empty trie by operations on keys of length `n`, with the successful
ones in between. A call is given enough steps; values are no longer than an allocation can be. -/
inductive Reached (n : ℕ) : List TrieEvent → TrieNode → Prop
  | start : Reached n [] .empty
  | opened {history node node' key fuel r} : Reached n history node → key.length = n →
    2 * n + 2 ≤ fuel → openPath c.emptyRootHash fetcher fuel node key = some (r, node') →
    Reached n history node'
  | inserted {history node node' key value fuel} : Reached n history node → key.length = n →
    value.length < 2 ^ 63 → 2 * n + 2 ≤ fuel →
    insert c.emptyRootHash fetcher fuel node key value = some (.ok (), node') →
    Reached n (.inserted key value :: history) node'
  | insertFailed {history node node' key value fuel e} : Reached n history node → key.length = n →
    value.length < 2 ^ 63 → 2 * n + 2 ≤ fuel →
    insert c.emptyRootHash fetcher fuel node key value = some (.error e, node') →
    Reached n history node'
  | deleted {history node node' key fuel} : Reached n history node → key.length = n →
    2 * n + 2 ≤ fuel → delete c.emptyRootHash fetcher fuel node key = some (.ok (), node') →
    Reached n (.deleted key :: history) node'
  | deleteFailed {history node node' key fuel e} : Reached n history node → key.length = n →
    2 * n + 2 ≤ fuel → delete c.emptyRootHash fetcher fuel node key = some (.error e, node') →
    Reached n history node'
  | reblinded {history node node'} : Reached n history node → Reblinds c fetcher node node' →
    Reached n history node'
  | rootBlinded {history node} : Reached n history node → c.AnsweredBelow fetcher node →
    (node.isBlinded = false → node.isEmpty = false → c.Answered fetcher node) →
    Reached n history (.blinded (c.blind node))

/-- A root stands for an opened trie: the root itself may be blinded whatever its length. -/
def Stands (node : TrieNode) (t : OpenTrie) : Prop :=
  Opens c fetcher node t ∨ ∃ commitment answer, node = .blinded commitment ∧
    commitment = c.blind (ofTrie t) ∧
      unblind c.emptyRootHash fetcher (.blinded commitment) = (.ok (), answer) ∧
        answer.isBlinded = false ∧ Opens c fetcher answer t

/-- Reading the node gives the values of a map on the keys of a length. -/
def Represents (n : ℕ) (node : TrieNode) (m : Nibbles → Option Bytes) : Prop :=
  ∀ key, key.length = n → ∀ fuel, 2 * n + 2 ≤ fuel → ∃ node',
    openPath c.emptyRootHash fetcher fuel node key = some (.ok (m key), node')

/-- No branch has fewer than two children that are not empty; no extension is empty or stands in
front of anything but a branch. -/
def Compact : TrieNode → Prop
  | .extension pre node => pre ≠ [] ∧
    (∃ stack, unblind c.emptyRootHash fetcher node = (.ok (), .branch stack)) ∧ Compact node
  | .branch stack => (∃ i j, i ≠ j ∧ (stack i).isEmpty = false ∧ (stack j).isEmpty = false) ∧
    ∀ i, Compact (stack i)
  | _ => True

end Histories

variable {c : TrieCodec} {fetcher : TrieProvider} {node node' : TrieNode} {t : OpenTrie} {n : ℕ}
  {history : List TrieEvent}

/-! ## Sizes -/

/-- The nodes of a canonical trie are no larger than its keys and values. -/
theorem sized_ofTrie (hcan : t.Canonical n) (hn : n < 2 ^ 63)
    (hvalues : ∀ q v, q.length = n → t.find q = some v → v.length < 2 ^ 63) : Sized (ofTrie t) := by
  induction t generalizing n with
  | empty => trivial
  | leaf pre value => exact ⟨hcan.symm ▸ hn, hvalues pre value hcan (if_pos rfl)⟩
  | edge pre t ih =>
    obtain ⟨-, -, hle, hchild⟩ := hcan
    refine ⟨hle.trans_lt hn, ih hchild (by omega) fun q v hq hfind => ?_⟩
    refine hvalues (pre ++ q) v (by simp; omega) ?_
    rw [Trie.find, if_pos (List.prefix_append pre q), List.drop_left, hfind]
  | branch children ih =>
    cases n with
    | zero => exact hcan.elim
    | succ n =>
      intro i
      show Sized (if h : i.val < 16 then ofTrie (children ⟨i.val, h⟩) else .empty)
      split_ifs with hi
      · exact ih _ (hcan.2 _) (by omega) fun q v hq hfind =>
          hvalues (⟨i.val, hi⟩ :: q) v (by simp [hq]) hfind
      · trivial

theorem sized_of_opens (h : Opens c fetcher node t) (hsized : Sized (ofTrie t)) : Sized node := by
  induction h with
  | empty | blinded _ _ _ _ _ _ _ => trivial
  | leaf pre value => exact hsized
  | extension _ ih => exact ⟨hsized.1, ih hsized.2⟩
  | @branch stack children _ hlast ih =>
    refine forall_position (fun x => ih x ?_) ?_
    · rw [← ofTrie_branch_castSucc]
      exact hsized x.castSucc
    · rw [hlast]
      trivial

/-! ## Blinding -/

section Blinding

theorem opens_of_canBlind (h : Opens c fetcher node t) (hsized : Sized node)
    (hblind : CanBlind c fetcher node) : Opens c fetcher (.blinded (c.blind node)) t :=
  opens_blind h hsized hblind.long hblind.answered (opens_shallow h hsized hblind.below)

theorem eq_empty_of_opens (h : Opens c fetcher node .empty) : node = .empty := by
  cases h with
  | empty => rfl
  | blinded _ hlong =>
    have hone : (ofTrie .empty).length = 1 := rfl
    omega

theorem opens_branch_update {stack : Fin 17 → TrieNode} {children : Nibble → OpenTrie} {i : Fin 17}
    (h : Opens c fetcher (.branch stack) (.branch children))
    (hupdate : ∀ t, Opens c fetcher (stack i) t → Sized (stack i) → Opens c fetcher node' t)
    (hsized : ∀ i, Sized (stack i)) :
    Opens c fetcher (.branch (update stack i node')) (.branch children) := by
  obtain ⟨hstack, hlast⟩ := opens_branch.mp h
  refine Fin.lastCases ?_ (fun x hupdate => ?_) i hupdate
  · intro hupdate
    have hempty := eq_empty_of_opens (hupdate .empty (hlast ▸ .empty) (hsized _))
    rwa [hempty, ← hlast, update_eq_self]
  · have := h.update x (hupdate _ (hstack x) (hsized _))
    rwa [update_eq_self] at this

theorem opens_of_reblinds (hstep : Reblinds c fetcher node node')
    (h : Opens c fetcher node t) (hsized : Sized node) : Opens c fetcher node' t := by
  induction hstep generalizing t with
  | recode hbelow hdecode =>
    rw [decode_encode hsized] at hdecode
    cases hdecode
    exact opens_shallow h hsized hbelow
  | unblind hunblind =>
    obtain ⟨answer, hanswer, hopens, -⟩ := h.unblind
    rw [hunblind] at hanswer
    cases hanswer
    exact hopens
  | blindExtension hblind =>
    cases h with
    | extension hnode => exact .extension (opens_of_canBlind hnode hsized.2 hblind)
  | blindBranch hblind =>
    cases h with
    | branch hstack hlast =>
      exact opens_branch_update (.branch hstack hlast)
        (fun t ht hs => opens_of_canBlind ht hs hblind) hsized
  | extension _ ih =>
    cases h with
    | extension hnode => exact .extension (ih hnode hsized.2)
  | branch _ ih =>
    cases h with
    | branch hstack hlast =>
      exact opens_branch_update (.branch hstack hlast) (fun t ht hs => ih ht hs) hsized

end Blinding

/-! ## Operations on a root -/

section

variable (h : Stands c fetcher node t)

include h

theorem Stands.blind : c.blind node = c.blind (ofTrie t) := by
  rcases h with h | ⟨commitment, -, rfl, hcommitment, -⟩
  · exact blind_of_opens h
  · exact hcommitment

/-- A root, blinded or not, gives what its opened node gives with enough steps. -/
theorem Stands.exists_open (hfuel : 2 * n + 2 ≤ fuel) :
    ∃ answer steps, Opens c fetcher answer t ∧ (∀ path, path.length = n →
      stepsFor answer path ≤ steps) ∧
      (∀ path, openPath c.emptyRootHash fetcher fuel node path =
        openPath c.emptyRootHash fetcher steps answer path) ∧
      (∀ path value, insert c.emptyRootHash fetcher fuel node path value =
        insert c.emptyRootHash fetcher steps answer path value) ∧
      ∀ path, delete c.emptyRootHash fetcher fuel node path =
        delete c.emptyRootHash fetcher steps answer path := by
  rcases h with h | ⟨commitment, answer, rfl, -, hunblind, hopen, hanswer⟩
  · refine ⟨node, fuel, h, fun path hpath => ?_, fun _ => rfl, fun _ _ => rfl, fun _ => rfl⟩
    exact (stepsFor_le node path).trans (by omega)
  · obtain ⟨fuel, rfl⟩ := Nat.exists_eq_succ_of_ne_zero (n := fuel) (by omega)
    refine ⟨answer, fuel, hanswer, fun path hpath => ?_, fun path => ?_, fun path value => ?_,
      fun path => ?_⟩
    · rw [stepsFor_open hopen]
      omega
    · rw [openPath, hunblind]
    · rw [TrieNode.insert, hunblind]
    · rw [TrieNode.delete, hunblind]

theorem Stands.openPath (hcan : t.Canonical n) (hkey : key.length = n) (hfuel : 2 * n + 2 ≤ fuel) :
    ∃ node', openPath c.emptyRootHash fetcher fuel node key =
      some (.ok (t.find key), node') ∧ Stands c fetcher node' t := by
  obtain ⟨answer, steps, hopens, hsteps, hcall, -⟩ := h.exists_open hfuel
  subst hkey
  obtain ⟨node', hread, hnode'⟩ := hopens.openPath hcan (hsteps key rfl)
  exact ⟨node', (hcall key).trans hread, .inl hnode'⟩

theorem Stands.insert (hcan : t.Canonical n) (hkey : key.length = n)
    (hfuel : 2 * n + 2 ≤ fuel) (value : Bytes) :
    ∃ node' t', insert c.emptyRootHash fetcher fuel node key value =
      some (.ok (), node') ∧ Stands c fetcher node' t' ∧ Trie.Updates key (some value) t t' := by
  obtain ⟨answer, steps, hopens, hsteps, -, hcall, -⟩ := h.exists_open hfuel
  subst hkey
  obtain ⟨node', t', hinsert, hnode', -, hupdates, -⟩ := hopens.insert hcan (hsteps key rfl) value
  exact ⟨node', t', (hcall key value).trans hinsert, .inl hnode', hupdates⟩

theorem Stands.delete (hcan : t.Canonical n) (hkey : key.length = n) (hfuel : 2 * n + 2 ≤ fuel) :
    (t.find key = none ∧ ∃ node', delete c.emptyRootHash fetcher fuel node key =
      some (.error .keyNotFound, node') ∧ Stands c fetcher node' t) ∨
    ((t.find key).isSome ∧ ∃ node' t', delete c.emptyRootHash fetcher fuel node key =
      some (.ok (), node') ∧ Stands c fetcher node' t' ∧ Trie.Updates key none t t') := by
  obtain ⟨answer, steps, hopens, hsteps, -, -, hcall⟩ := h.exists_open hfuel
  subst hkey
  rcases hopens.delete hcan (hsteps key rfl) with
    ⟨hnone, node', hdelete, hnode'⟩ | ⟨hsome, node', t', hdelete, hnode', -, hupdates⟩
  · exact .inl ⟨hnone, node', (hcall key).trans hdelete, .inl hnode'⟩
  · exact .inr ⟨hsome, node', t', (hcall key).trans hdelete, .inl hnode', hupdates⟩

theorem Stands.reblinds (hsized : Sized (ofTrie t))
    (hstep : Reblinds c fetcher node node') : Stands c fetcher node' t := by
  rcases h with h | ⟨commitment, answer, rfl, hcommitment, hunblind, hopen, hanswer⟩
  · exact .inl (opens_of_reblinds hstep h (sized_of_opens h hsized))
  · cases hstep with
    | recode _ hdecode =>
      have hsame : decode (c.encode (.blinded commitment)) = .ok (.blinded commitment, []) :=
        decode_encode trivial
      rw [hsame] at hdecode
      cases hdecode
      exact .inr ⟨commitment, answer, rfl, hcommitment, hunblind, hopen, hanswer⟩
    | unblind hnode' =>
      rw [hunblind] at hnode'
      cases hnode'
      exact .inl hanswer

theorem Stands.blindRoot (hsized : Sized (ofTrie t))
    (hbelow : c.AnsweredBelow fetcher node)
    (hanswered : node.isBlinded = false → node.isEmpty = false → c.Answered fetcher node) :
    Stands c fetcher (.blinded (c.blind node)) t := by
  by_cases hopen : node.isBlinded = false
  · have hopens : Opens c fetcher node t := by
      rcases h with h | ⟨commitment, answer, rfl, -⟩
      · exact h
      · cases hopen
    have hsized' := sized_of_opens hopens hsized
    by_cases hempty : node.isEmpty = false
    · obtain ⟨hne, answer, hdecode, hfetch⟩ := hanswered hopen hempty
      rw [decode_encode hsized'] at hdecode
      cases hdecode
      refine .inr ⟨_, c.shallow node, rfl, blind_of_opens hopens, ?_, shallow_not_blinded hopen,
        opens_shallow hopens hsized' hbelow⟩
      simp [unblind, if_neg hne, hfetch]
    · rw [Bool.not_eq_false] at hempty
      obtain rfl := (isEmpty_iff_of_opens hopens).mp hempty
      obtain rfl := eq_empty_of_opens hopens
      refine .inr ⟨_, .empty, rfl, rfl, ?_, rfl, .empty⟩
      show unblind c.emptyRootHash fetcher (.blinded c.emptyRootHash) = (.ok (), .empty)
      rw [unblind, if_pos rfl]
  · cases node with
    | blinded commitment => exact h
    | _ => exact absurd rfl hopen

end

/-! ## Histories -/

/-- A root stands for the canonical trie of the map of its history. -/
structure StandsFor (c : TrieCodec) (fetcher : TrieProvider) (n : ℕ) (history : List TrieEvent)
    (node : TrieNode) (t : OpenTrie) : Prop where
  stands : Stands c fetcher node t
  canonical : t.Canonical n
  find : ∀ q, t.find q = mapOf history q
  sized : ∀ q v, mapOf history q = some v → v.length < 2 ^ 63

theorem StandsFor.sized_node (h : StandsFor c fetcher n history node t) (hn : n < 2 ^ 63) :
    Sized (ofTrie t) :=
  sized_ofTrie h.canonical hn fun q v _ hfind => h.sized q v ((h.find q).symm.trans hfind)

theorem exists_standsFor (hn : n < 2 ^ 63) (h : Reached c fetcher n history node) :
    ∃ t, StandsFor c fetcher n history node t := by
  induction h with try obtain ⟨t, ht⟩ := ih
  | start => exact ⟨.empty, .inl .empty, trivial, fun _ => rfl, nofun⟩
  | opened _ hkey hfuel hcall ih =>
    obtain ⟨node', hread, hstands⟩ := ht.stands.openPath ht.canonical hkey hfuel
    rw [hcall] at hread
    cases hread
    exact ⟨t, hstands, ht.canonical, ht.find, ht.sized⟩
  | @inserted history node node' key value fuel _ hkey hvalue hfuel hcall ih =>
    obtain ⟨node', t', hinsert, hstands, hupdates⟩ :=
      ht.stands.insert ht.canonical hkey hfuel value
    rw [hcall] at hinsert
    cases hinsert
    refine ⟨t', hstands, hkey ▸ hupdates.canonical, fun q => ?_, fun q v hq => ?_⟩
    · rw [hupdates.find q, ht.find q]
      rfl
    · unfold mapOf at hq
      split_ifs at hq
      · cases hq
        exact hvalue
      · exact ht.sized q v hq
  | insertFailed _ hkey _ hfuel hcall ih =>
    obtain ⟨node', t', hinsert, -⟩ := ht.stands.insert ht.canonical hkey hfuel _
    rw [hcall] at hinsert
    cases hinsert
  | @deleted history node node' key fuel _ hkey hfuel hcall ih =>
    rcases ht.stands.delete ht.canonical hkey hfuel with
      ⟨-, node', hdelete, -⟩ | ⟨-, node', t', hdelete, hstands, hupdates⟩ <;> rw [hcall] at hdelete
    · cases hdelete
    · cases hdelete
      refine ⟨t', hstands, hkey ▸ hupdates.canonical, fun q => ?_, fun q v hq => ?_⟩
      · rw [hupdates.find q, ht.find q]
        rfl
      · unfold mapOf at hq
        split_ifs at hq
        exact ht.sized q v hq
  | deleteFailed _ hkey hfuel hcall ih =>
    rcases ht.stands.delete ht.canonical hkey hfuel with
      ⟨-, node', hdelete, hstands⟩ | ⟨-, node', t', hdelete, -⟩ <;> rw [hcall] at hdelete
    · cases hdelete
      exact ⟨t, hstands, ht.canonical, ht.find, ht.sized⟩
    · cases hdelete
  | reblinded _ hstep ih =>
    exact ⟨t, ht.stands.reblinds (ht.sized_node hn) hstep, ht.canonical, ht.find, ht.sized⟩
  | rootBlinded _ hbelow hanswered ih =>
    exact ⟨t, ht.stands.blindRoot (ht.sized_node hn) hbelow hanswered, ht.canonical, ht.find,
      ht.sized⟩

theorem Stands.represents (h : Stands c fetcher node t) (hcan : t.Canonical n)
    {m : Nibbles → Option Bytes} (hfind : ∀ q, t.find q = m q) : Represents c fetcher n node m := by
  intro key hkey fuel hfuel
  obtain ⟨node', hread, -⟩ := h.openPath hcan hkey hfuel
  exact ⟨node', hfind key ▸ hread⟩

/-- Two roots of the same canonical map have the same commitment. -/
theorem Stands.blind_eq {fetcher' : TrieProvider} {t' : OpenTrie}
    (h : Stands c fetcher node t) (h' : Stands c fetcher' node' t') (hcan : t.Canonical n)
    (hcan' : t'.Canonical n) (hagree : Trie.Agree n t t') : c.blind node = c.blind node' := by
  rw [h.blind, h'.blind, hcan.eq_of_agree hcan' hagree]

/-- The trie refines a finite map. -/
theorem trie_refines_map (hn : n < 2 ^ 63) (h : Reached c fetcher n history node) :
    Represents c fetcher n node (mapOf history) ∧
      ∀ key, key.length = n → ∀ fuel, 2 * n + 2 ≤ fuel →
        (∀ value, ∃ node',
          insert c.emptyRootHash fetcher fuel node key value = some (.ok (), node') ∧
            Represents c fetcher n node' (mapOf (.inserted key value :: history))) ∧
        ((mapOf history key).isSome → ∃ node',
          delete c.emptyRootHash fetcher fuel node key = some (.ok (), node') ∧
            Represents c fetcher n node' (mapOf (.deleted key :: history))) ∧
        (mapOf history key = none → ∃ node',
          delete c.emptyRootHash fetcher fuel node key = some (.error .keyNotFound, node') ∧
            Represents c fetcher n node' (mapOf history) ∧ c.blind node' = c.blind node) := by
  obtain ⟨t, ht⟩ := exists_standsFor hn h
  refine ⟨ht.stands.represents ht.canonical ht.find, fun key hkey fuel hfuel => ⟨?_, ?_, ?_⟩⟩
  · intro value
    obtain ⟨node', t', hinsert, hstands, hupdates⟩ :=
      ht.stands.insert ht.canonical hkey hfuel value
    refine ⟨node', hinsert, hstands.represents (hkey ▸ hupdates.canonical) fun q => ?_⟩
    rw [hupdates.find q, ht.find q]
    rfl
  · intro hpresent
    rcases ht.stands.delete ht.canonical hkey hfuel with
      ⟨hnone, -⟩ | ⟨-, node', t', hdelete, hstands, hupdates⟩
    · rw [← ht.find, hnone] at hpresent
      cases hpresent
    · refine ⟨node', hdelete, hstands.represents (hkey ▸ hupdates.canonical) fun q => ?_⟩
      rw [hupdates.find q, ht.find q]
      rfl
  · intro habsent
    rcases ht.stands.delete ht.canonical hkey hfuel with
      ⟨-, node', hdelete, hstands⟩ | ⟨hsome, -⟩
    · refine ⟨node', hdelete, hstands.represents ht.canonical ht.find, ?_⟩
      rw [hstands.blind, ht.stands.blind]
    · rw [ht.find, habsent] at hsome
      cases hsome

def emptyRoot : B256 :=
  ⟨toBe 32 0x56e81f171bcc55a6ff8345e692c0f86e5b48e01b996cadc001622fb5e363b421, toBe_length _ _⟩

def longValue : Bytes := List.replicate 32 0x2a

def leafHash : B256 :=
  ⟨toBe 32 0x20bf21a5aaad8c5f20e75d65a39c2369e76581c207b881bf1aa31679a2c30c1b, toBe_length _ _⟩

/-- A branch over a child that may be blinded and one that is too short for it. -/
def sampleBranch (child : TrieNode) : TrieNode := .branch (forkStack 0 child 1 (.leaf [] [0x07]))

def sampleRoot : B256 :=
  ⟨toBe 32 0x4c7f07053bec8890e3d1e546aef04f9e0fdcd7ec93d3b7b16f823b3223d5a769, toBe_length _ _⟩

/-- The hashes of the leaf, of the branch and of the empty trie. -/
def sampleCodec : TrieCodec where
  keccak256 b :=
    if b = [0xe2, 0x20, 0xa0] ++ longValue then leafHash
    else if b = [0xf3, 0xa0] ++ leafHash.val ++ [0xc2, 0x20, 0x07] ++ List.replicate 15 0x80 then
      sampleRoot
    else emptyRoot
  emptyRootHash := emptyRoot

def sampleProvider : TrieProvider := fun commitment =>
  if commitment = leafHash then .ok (.leaf [] longValue)
  else if commitment = sampleRoot then .ok (sampleBranch (.blinded leafHash))
  else .error "not found"

theorem sampleCodec_leaf : sampleCodec.blind (.leaf [] longValue) = leafHash := by decide +kernel

theorem sampleCodec_branch : sampleCodec.blind (sampleBranch (.blinded leafHash)) = sampleRoot := by
  decide +kernel

theorem answered_longLeaf : sampleCodec.Answered sampleProvider (.leaf [] longValue) := by
  refine ⟨by rw [sampleCodec_leaf]; decide +kernel, .leaf [] longValue, decode_encode ?_, ?_⟩
  · constructor <;> norm_num [longValue]
  · rw [sampleCodec_leaf]
    exact if_pos rfl

/-- The children of the branch are blinded or short, and none of them has children. -/
theorem sampleBranch_child {sub : TrieNode} (h : Child sub (sampleBranch (.blinded leafHash))) :
    (sub.isBlinded = true ∨ sub.length < 32) ∧ ∀ below, ¬Child below sub := by
  cases h with
  | branch stack i =>
    simp only [forkStack, update_apply]
    split_ifs
    · exact ⟨.inr (by decide), nofun⟩
    · exact ⟨.inl rfl, nofun⟩
    · exact ⟨.inr (by decide), nofun⟩

theorem sampleBranch_below :
    sampleCodec.AnsweredBelow sampleProvider (sampleBranch (.blinded leafHash)) := by
  intro sub hsub hopen hlong
  obtain h | ⟨hdeep, h⟩ := hsub
  · rcases (sampleBranch_child h).1 with hblinded | hshort
    · rw [hopen] at hblinded
      cases hblinded
    · omega
  · obtain h' | ⟨-, h'⟩ := hdeep <;> exact ((sampleBranch_child h).2 _ h').elim

theorem shallow_sampleBranch (child : TrieNode) (h : child.length ≥ 32) :
    sampleCodec.shallow (sampleBranch child) = sampleBranch (.blinded (sampleCodec.blind child)) := by
  rw [sampleBranch, shallow]
  congr 1
  funext i
  simp only [forkStack, update_apply]
  split_ifs
  · exact if_neg (by decide)
  · exact if_pos h
  · exact if_neg (by decide)

theorem update_sampleBranch (child : TrieNode) :
    update (forkStack 0 (.leaf [] longValue) 1 (.leaf [] [0x07])) 0 child =
      forkStack 0 child 1 (.leaf [] [0x07]) := by
  unfold forkStack
  rw [update_comm (by decide)]
  exact congrArg (update · _ _) (update_idem _ _ _)

theorem sized_sampleBranch {child : TrieNode} (h : Sized child) : Sized (sampleBranch child) := by
  intro i
  simp only [forkStack, update_apply]
  split_ifs
  · constructor <;> norm_num
  · exact h
  · trivial

/-- First the long child is blinded inside the branch, then the branch itself. -/
theorem blinded_sampleBranch
    (h : Reached sampleCodec sampleProvider 1 history (sampleBranch (.leaf [] longValue))) :
    Reached sampleCodec sampleProvider 1 history (.blinded sampleRoot) := by
  have hlong : (TrieNode.leaf [] longValue).length ≥ 32 := by decide +kernel
  have hchild := Reached.reblinded h (.blindBranch (i := 0) ⟨hlong, fun _ => answered_longLeaf,
    fun _ hsub => by rcases hsub with h | ⟨_, h⟩ <;> cases h⟩)
  have hblind : sampleCodec.blind (forkStack 0 (.leaf [] longValue) 1 (.leaf [] [0x07]) 0) = leafHash :=
    sampleCodec_leaf
  rw [hblind, update_sampleBranch] at hchild
  have hroot := Reached.rootBlinded hchild sampleBranch_below fun _ _ =>
    ⟨by decide +kernel, sampleBranch (.blinded leafHash), ?_,
      by rw [← sampleBranch, sampleCodec_branch]; rfl⟩
  · exact sampleCodec_branch ▸ hroot
  · have hchildSized : Sized (.blinded leafHash) := trivial
    rw [← sampleBranch, decode_encode (sized_sampleBranch hchildSized),
      shallow_sampleBranch _ (by decide +kernel)]
    rfl

abbrev sampleHistory : List TrieEvent := [.inserted [1] [0x07], .inserted [0] longValue]

theorem sample_reached :
    Reached sampleCodec sampleProvider 1 sampleHistory (sampleBranch (.leaf [] longValue)) :=
  Reached.inserted (Reached.inserted .start rfl (by norm_num [longValue]) le_rfl rfl) rfl (by norm_num)
    le_rfl rfl

theorem trie_refines_map_sample :
    Represents sampleCodec sampleProvider 1 (.blinded sampleRoot) (mapOf sampleHistory) ∧
      (∃ node', delete emptyRoot sampleProvider 4 (.blinded sampleRoot) [0] = some (.ok (), node') ∧
        Represents sampleCodec sampleProvider 1 node' (mapOf (.deleted [0] :: sampleHistory))) ∧
      ∃ node', delete emptyRoot sampleProvider 4 (.blinded sampleRoot) [2] =
          some (.error .keyNotFound, node') ∧
        Represents sampleCodec sampleProvider 1 node' (mapOf sampleHistory) ∧
        sampleCodec.blind node' = sampleRoot := by
  obtain ⟨hrep, hcalls⟩ := trie_refines_map (by norm_num) (blinded_sampleBranch sample_reached)
  exact ⟨hrep, (hcalls [0] rfl 4 le_rfl).2.1 rfl, (hcalls [2] rfl 4 le_rfl).2.2 rfl⟩

theorem compact_of_opens (h : Opens c fetcher node t) (hcan : t.Canonical n) :
    Compact c fetcher node := by
  induction h generalizing n with
  | empty | leaf pre value | blinded _ _ _ _ _ _ _ => trivial
  | @extension pre node t hnode ih =>
    obtain ⟨hpre, ⟨children, rfl⟩, -, hchild⟩ := hcan
    refine ⟨hpre, ?_, ih hchild⟩
    obtain ⟨answer, hunblind, hopens, hopen⟩ := hnode.unblind
    cases hopens with
    | @branch stack _ _ _ => exact ⟨stack, hunblind⟩
    | blinded _ _ _ _ _ _ => cases hopen
  | @branch stack children hstack hlast ih =>
    cases n with
    | zero => exact hcan.elim
    | succ n =>
      obtain ⟨⟨a, b, hab, ha, hb⟩, hchildren⟩ := hcan
      have hpresent : ∀ x, children x ≠ .empty → (stack x.castSucc).isEmpty = false := by
        intro x hx
        rwa [← Bool.not_eq_true, isEmpty_iff_of_opens (hstack x)]
      refine ⟨⟨a.castSucc, b.castSucc, fun h => hab (Fin.castSucc_injective 16 h), hpresent a ha,
        hpresent b hb⟩, forall_position (fun x => ih x (hchildren x)) ?_⟩
      rw [hlast]
      trivial

theorem Stands.compact (h : Stands c fetcher node t) (hcan : t.Canonical n) :
    Compact c fetcher node := by
  rcases h with h | ⟨-, -, rfl, -⟩
  · exact compact_of_opens h hcan
  · trivial

/-- The commitment of a trie depends on its map alone, and the trie is in canonical form. -/
theorem trie_root_canonical (hn : n < 2 ^ 63) {fetcher' : TrieProvider}
    {history' : List TrieEvent} (h : Reached c fetcher n history node)
    (h' : Reached c fetcher' n history' node') :
    ((∀ key, key.length = n → mapOf history key = mapOf history' key) → c.blind node = c.blind node') ∧
    Compact c fetcher node ∧ (∃ t, Stands c fetcher node t ∧ t.Canonical n) ∧
    ∀ key value fuel, key.length = n → 2 * n + 2 ≤ fuel → mapOf history key = none →
      ∃ node₁ node₂,
        insert c.emptyRootHash fetcher fuel node key value = some (.ok (), node₁) ∧
          delete c.emptyRootHash fetcher fuel node₁ key = some (.ok (), node₂) ∧
            c.blind node₂ = c.blind node := by
  obtain ⟨t, ht⟩ := exists_standsFor hn h
  obtain ⟨t', ht'⟩ := exists_standsFor hn h'
  refine ⟨fun hmaps => ?_, ht.stands.compact ht.canonical, ⟨t, ht.stands, ht.canonical⟩,
    fun key value fuel hkey hfuel hfresh => ?_⟩
  · refine ht.stands.blind_eq ht'.stands ht.canonical ht'.canonical fun q hq => ?_
    rw [ht.find, ht'.find, hmaps q hq]
  · subst hkey
    obtain ⟨node₁, t₁, hinsert, hstands₁, hupdates₁⟩ :=
      ht.stands.insert ht.canonical rfl hfuel value
    have hfound : t₁.find key = some value := by
      rw [hupdates₁.find key, if_pos rfl]
    rcases hstands₁.delete hupdates₁.canonical rfl hfuel with
      ⟨hnone, -⟩ | ⟨-, node₂, t₂, hdelete, hstands₂, hupdates₂⟩
    · rw [hfound] at hnone
      cases hnone
    · refine ⟨node₁, node₂, hinsert, hdelete, ?_⟩
      refine hstands₂.blind_eq ht.stands hupdates₂.canonical ht.canonical fun q _ => ?_
      rw [hupdates₂.find q, hupdates₁.find q]
      by_cases hq : q = key
      · rw [if_pos hq, hq, ht.find, hfresh]
      · rw [if_neg hq, if_neg hq]

abbrev otherHistory : List TrieEvent :=
  [.deleted [2], .inserted [0] longValue, .inserted [2] [0x09], .inserted [1] [0x07]]

theorem sample_reached_otherwise : ∃ node, Reached sampleCodec sampleProvider 1 otherHistory node :=
  ⟨_, .deleted (.inserted (.inserted (.inserted .start rfl (by norm_num) le_rfl rfl) rfl
    (by norm_num) le_rfl rfl) rfl (by norm_num [longValue]) le_rfl rfl) rfl le_rfl rfl⟩

theorem mapOf_sample (key : Nibbles) : mapOf sampleHistory key = mapOf otherHistory key := by
  simp only [mapOf]
  grind

theorem trie_root_canonical_sample : ∃ node, Reached sampleCodec sampleProvider 1 otherHistory node ∧
    sampleCodec.blind (.blinded sampleRoot) = sampleCodec.blind node := by
  obtain ⟨node, hnode⟩ := sample_reached_otherwise
  exact ⟨node, hnode, (trie_root_canonical (by norm_num) (blinded_sampleBranch sample_reached)
    hnode).1 fun key _ => mapOf_sample key⟩

/-- Where one provider answers for two roots, they are equal exactly if their maps are. -/
theorem root_commits_to_map (hn : n < 2 ^ 63) {history' : List TrieEvent}
    {root root' : B256} (h : Reached c fetcher n history (.blinded root))
    (h' : Reached c fetcher n history' (.blinded root')) :
    root = root' ↔ ∀ key, key.length = n → mapOf history key = mapOf history' key := by
  obtain ⟨t, ht⟩ := exists_standsFor hn h
  obtain ⟨t', ht'⟩ := exists_standsFor hn h'
  constructor
  · rintro rfl key hkey
    -- the values are read from the one node that both have become
    obtain ⟨_, hread⟩ := ht.stands.represents ht.canonical ht.find key hkey _ le_rfl
    obtain ⟨_, hread'⟩ := ht'.stands.represents ht'.canonical ht'.find key hkey _ le_rfl
    exact Except.ok.inj (Prod.mk.inj (Option.some.inj (hread.symm.trans hread'))).1
  · intro hmaps
    refine ht.stands.blind_eq ht'.stands ht.canonical ht'.canonical fun q hq => ?_
    rw [ht.find, ht'.find, hmaps q hq]

theorem root_commits_to_map_sample :
    (∀ key, key.length = 1 → mapOf sampleHistory key =
      mapOf [.inserted [1] [0x07], .deleted [2], .inserted [2] [0x09], .inserted [0] longValue] key) ∧
      sampleRoot ≠ emptyRoot := by
  have hroot := blinded_sampleBranch sample_reached
  have hagain : Reached sampleCodec sampleProvider 1
      [.inserted [1] [0x07], .deleted [2], .inserted [2] [0x09], .inserted [0] longValue]
      (sampleBranch (.leaf [] longValue)) :=
    .inserted (.deleted (.inserted (.inserted .start rfl (by norm_num [longValue]) le_rfl rfl) rfl
      (by norm_num) le_rfl rfl) rfl le_rfl rfl) rfl (by norm_num) le_rfl rfl
  have hempty : Reached sampleCodec sampleProvider 1 [] (.blinded emptyRoot) :=
    .rootBlinded .start (fun _ hsub => by rcases hsub with h | ⟨_, h⟩ <;> cases h) nofun
  refine ⟨(root_commits_to_map (by norm_num) hroot (blinded_sampleBranch hagain)).mp rfl, fun heq => ?_⟩
  cases (root_commits_to_map (by norm_num) hroot hempty).mp heq [0] rfl

/-! ## One node -/

/-- A node is encoded to its length and comes back with its long children blinded. -/
theorem node_codec (hnode : Sized node) :
    (c.encode node).length = node.length ∧ decode (c.encode node) = .ok (c.shallow node, []) ∧
      c.blind (c.shallow node) = c.blind node :=
  ⟨c.encode_length node, decode_encode hnode, blind_shallow node⟩

theorem node_codec_sample :
    decode (sampleCodec.encode (sampleBranch (.leaf [] longValue))) =
        .ok (sampleBranch (.blinded leafHash), []) ∧
      decode (sampleCodec.encode (.extension [3] (sampleBranch (.leaf [] longValue)))) =
        .ok (.extension [3] (.blinded sampleRoot), []) := by
  have hsized : Sized (sampleBranch (.leaf [] longValue)) :=
    sized_sampleBranch ⟨by norm_num, by norm_num [longValue]⟩
  have hextension : Sized (.extension [3] (sampleBranch (.leaf [] longValue))) :=
    ⟨by norm_num, hsized⟩
  have hblind : sampleCodec.blind (sampleBranch (.leaf [] longValue)) = sampleRoot := by decide +kernel
  constructor
  · rw [(node_codec hsized).2.1, shallow_sampleBranch _ (by decide +kernel), sampleCodec_leaf]
  · rw [(node_codec hextension).2.1, shallow, blindChild, if_pos (by decide +kernel), hblind]

end TrieCodec

end NodeReth
