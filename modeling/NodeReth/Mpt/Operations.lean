import NodeReth.Mpt.Opening

/-!
# Operations on opened nodes

Each operation answers for the opened trie and leaves a node that opens to the updated one: reading
leaves the trie as it is, insertion and deletion change it at one key and keep it canonical. A step
down takes a nibble and at most one answer of the provider, which bounds the number of steps.
-/

namespace NodeReth.TrieCodec

open List hiding splitAt isEmpty
open Bytes Function Radix Trie TrieNode

variable {c : TrieCodec} {fetcher : TrieProvider} {node : TrieNode} {t : OpenTrie}
  {path pre : Nibbles} {fuel : ℕ}
  {children : Nibble → OpenTrie} {stack : Fin 17 → TrieNode} {a b : Nibble} {value : Bytes}
  {x : Nibble} {i : Fin 17}

/-- Enough steps for a path below a node. -/
def stepsFor (node : TrieNode) (path : Nibbles) : ℕ :=
  2 * path.length + if node.isBlinded then 2 else 1

/-! ## Opened nodes -/

theorem opens_branch : Opens c fetcher (.branch stack) (.branch children) ↔
    (∀ x : Nibble, Opens c fetcher (stack x.castSucc) (children x)) ∧ stack (Fin.last 16) = .empty := by
  refine ⟨fun h => ?_, fun h => .branch h.1 h.2⟩
  cases h with
  | branch hstack hlast => exact ⟨hstack, hlast⟩

theorem Opens.update (h : Opens c fetcher (.branch stack) (.branch children)) (x : Nibble)
    (hx : Opens c fetcher node t) :
    Opens c fetcher (.branch (update stack x.castSucc node)) (.branch (update children x t)) := by
  obtain ⟨hstack, hlast⟩ := opens_branch.mp h
  refine .branch (fun y => ?_) ?_
  · by_cases hy : y = x
    · subst hy
      simpa using hx
    · have hne : y.castSucc ≠ x.castSucc := fun heq => hy (Fin.castSucc_injective 16 heq)
      simpa [hy] using hstack y
  · rwa [update_of_ne (Fin.castSucc_lt_last x).ne']

theorem Opens.unblind (h : Opens c fetcher node t) :
    ∃ node', unblind c.emptyRootHash fetcher node = (.ok (), node') ∧
      Opens c fetcher node' t ∧ node'.isBlinded = false := by
  cases h with
  | empty => exact ⟨_, rfl, .empty, rfl⟩
  | leaf pre value => exact ⟨_, rfl, .leaf pre value, rfl⟩
  | extension hnode => exact ⟨_, rfl, .extension hnode, rfl⟩
  | branch hstack hlast => exact ⟨_, rfl, .branch hstack hlast, rfl⟩
  | @blinded commitment node' _ _ _ hne hfetch hopen hnode =>
    refine ⟨node', ?_, hnode, hopen⟩
    simp [unblind, if_neg hne, hfetch]

theorem unblind_open (h : node.isBlinded = false) :
    unblind c.emptyRootHash fetcher node = (.ok (), node) := by
  cases node with
  | blinded commitment => cases h
  | _ => rfl

theorem length_pos_of_canonical_branch (h : (branch children).Canonical path.length) :
    ∃ x rest, path = x :: rest := by
  cases path with
  | nil => exact h.elim
  | cons x rest => exact ⟨x, rest, rfl⟩

theorem stepsFor_open (h : node.isBlinded = false) : stepsFor node path = 2 * path.length + 1 := by
  rw [stepsFor, h]
  rfl

theorem stepsFor_le (node : TrieNode) (path : Nibbles) : stepsFor node path ≤ 2 * path.length + 2 := by
  unfold stepsFor
  split_ifs <;> omega

theorem exists_succ_of_stepsFor (h : stepsFor node path ≤ fuel) : ∃ n, fuel = n + 1 := by
  refine Nat.exists_eq_succ_of_ne_zero ?_
  unfold stepsFor at h
  split_ifs at h <;> omega

theorem stepsFor_answer {commitment : B256} (hopen : node.isBlinded = false)
    (h : stepsFor (.blinded commitment) path ≤ fuel + 1) : stepsFor node path ≤ fuel := by
  rw [stepsFor_open hopen]
  unfold stepsFor at h
  simp only [isBlinded, if_true] at h
  omega

/-! ## Reading -/

theorem openPath_blinded {commitment : B256} {answer : TrieNode} (hne : commitment ≠ c.emptyRootHash)
    (hfetch : fetcher commitment = .ok answer) :
    openPath c.emptyRootHash fetcher (fuel + 1) (.blinded commitment) path =
      openPath c.emptyRootHash fetcher fuel answer path := by
  simp only [openPath, unblind, if_neg hne, hfetch]

/-- Reading a blinded node takes one step more than reading what it opens to. -/
theorem openPath_unblind (h : Opens c fetcher node t) (fuel : ℕ) (path : Nibbles) :
    ∃ answer, unblind c.emptyRootHash fetcher node = (.ok (), answer) ∧
      openPath c.emptyRootHash fetcher fuel answer path =
        openPath c.emptyRootHash fetcher (fuel + if node.isBlinded then 1 else 0) node path := by
  by_cases hopen : node.isBlinded = false
  · exact ⟨node, unblind_open hopen, by rw [hopen]; rfl⟩
  · cases h with
    | blinded _ _ hne hfetch _ _ =>
      refine ⟨_, ?_, (openPath_blinded hne hfetch).symm⟩
      simp [unblind, if_neg hne, hfetch]
    | _ => exact absurd rfl hopen

theorem Opens.openPath (h : Opens c fetcher node t) (hcan : t.Canonical path.length)
    (hfuel : stepsFor node path ≤ fuel) :
    ∃ node', openPath c.emptyRootHash fetcher fuel node path =
      some (.ok (t.find path), node') ∧ Opens c fetcher node' t := by
  induction h generalizing fuel path with obtain ⟨fuel, rfl⟩ := exists_succ_of_stepsFor hfuel
  | empty => exact ⟨_, rfl, .empty⟩
  | leaf pre value => exact ⟨_, rfl, .leaf pre value⟩
  | @extension pre node t hnode ih =>
    obtain ⟨hpre, -, hle, hchild⟩ := hcan
    by_cases hpath : pre <+: path
    · obtain ⟨rest, rfl⟩ := hpath
      have hpos := length_pos_iff.mpr hpre
      rw [length_append, Nat.add_sub_cancel_left] at hchild
      rw [stepsFor_open rfl, length_append] at hfuel
      have hsteps : stepsFor node rest ≤ fuel + if node.isBlinded then 1 else 0 :=
        Nat.le_add_right_of_le ((stepsFor_le node rest).trans (by omega))
      obtain ⟨answer, hunblind, hcall⟩ := openPath_unblind hnode fuel rest
      obtain ⟨node', hread, hopens⟩ := ih hchild hsteps
      refine ⟨.extension pre node', ?_, .extension hopens⟩
      rw [find, if_pos (prefix_append pre rest), openPath, if_neg (by simp), take_left,
        if_pos rfl, hunblind]
      simp [hcall, hread]
    · refine ⟨.extension pre node, ?_, .extension hnode⟩
      rw [find, if_neg hpath, openPath, if_neg (by omega), if_neg]
      exact fun htake => hpath (prefix_iff_eq_take.mpr htake.symm)
  | @branch stack children hstack hlast ih =>
    obtain ⟨x, rest, rfl⟩ := length_pos_of_canonical_branch hcan
    rw [stepsFor_open rfl, length_cons] at hfuel
    have hsteps : stepsFor (stack x.castSucc) rest ≤ fuel :=
      (stepsFor_le _ rest).trans (by omega)
    obtain ⟨node', hread, hopens⟩ := ih x (hcan.2 x) hsteps
    refine ⟨_, ?_, update_eq_self x children ▸ Opens.update (.branch hstack hlast) x hopens⟩
    simp only [openPath, hread]
    rfl
  | @blinded commitment answer t _ _ hne hfetch hopen _ ih =>
    rw [openPath_blinded hne hfetch]
    exact ih hcan (stepsFor_answer hopen hfuel)

/-! ## Insertion -/

theorem opens_fork {m n : TrieNode} {s : OpenTrie} (hm : Opens c fetcher m s)
    (hn : Opens c fetcher n t) : Opens c fetcher (.branch (forkStack a m b n)) (fork a s b t) := by
  have hempty : Opens c fetcher (.branch fun _ => .empty) (.branch fun _ => .empty) :=
    .branch (fun _ => .empty) rfl
  exact (hempty.update a hm).update b hn

/-- Where the paths part, a split puts a branch. -/
theorem splitAt_parting (hab : a ≠ b) (s x y : Nibbles) (value : Bytes) (rest : Nibbles → TrieNode) :
    splitAt (s ++ b :: y) (s ++ a :: x) value rest =
      .ok (if s.length = 0 then .branch (forkStack a (rest x) b (.leaf y value))
        else .extension s (.branch (forkStack a (rest x) b (.leaf y value)))) := by
  unfold splitAt
  rw [commonPrefixLength_of_parting hab.symm]
  simp

theorem opens_splitAt (hab : a ≠ b) (s x y : Nibbles) (value : Bytes) (rest : Nibbles → TrieNode)
    (hrest : Opens c fetcher (rest x) t) (hne : t ≠ .empty) (hcan : t.Canonical y.length) :
    ∃ node' t',
      splitAt (s ++ b :: y) (s ++ a :: x) value rest = .ok node' ∧ Opens c fetcher node' t' ∧
        node'.isBlinded = false ∧
        Trie.Updates (s ++ b :: y) (some value) (t.extend (s ++ [a])) t' := by
  refine ⟨_, _, splitAt_parting hab s x y value rest, ?_, ?_, updates_fork hab hne hcan⟩
  · have hfork := opens_fork (a := a) (b := b) hrest (Opens.leaf y value)
    by_cases hs : s = []
    · subst hs
      exact hfork
    · rw [if_neg (by simpa using hs), Trie.fork, Trie.extend, if_neg hs]
      exact .extension hfork
  · split_ifs <;> rfl

theorem opens_extend (h : Opens c fetcher node (.branch children)) (pre : Nibbles) :
    Opens c fetcher (if pre = [] then node else .extension pre node)
      ((branch children).extend pre) := by
  unfold Trie.extend
  split_ifs
  · exact h
  · exact .extension h

theorem edge_eq_extend (hpre : pre ≠ []) :
    Trie.edge pre (.branch children) = (Trie.branch children).extend pre := by
  rw [Trie.extend, if_neg hpre]

/-- What an insertion leaves. A branch stays a branch. -/
def Inserts (c : TrieCodec) (fetcher : TrieProvider) (fuel : ℕ) (node : TrieNode) (path : Nibbles)
    (value : Bytes) (t : OpenTrie) : Prop :=
  ∃ node' t', insert c.emptyRootHash fetcher fuel node path value = some (.ok (), node') ∧
    Opens c fetcher node' t' ∧ node'.isBlinded = false ∧ Trie.Updates path (some value) t t' ∧
    ∀ children, t = .branch children → ∃ children', t' = .branch children'

theorem insert_leaf {leafValue : Bytes} (hlen : pre.length = path.length) :
    Inserts c fetcher (fuel + 1) (.leaf pre leafValue) path value (.leaf pre leafValue) := by
  by_cases hpath : path = pre
  · subst hpath
    refine ⟨.leaf path value, .leaf path value, by rw [TrieNode.insert, if_pos rfl],
      .leaf path value, rfl, ⟨rfl, fun q => ?_⟩, by rintro _ ⟨⟩⟩
    by_cases hq : q = path <;> simp [find, hq]
  · have hpart : ¬ pre <+: path := fun h => hpath (h.eq_of_length hlen).symm
    obtain ⟨s, a, b, x, y, rfl, rfl, hab⟩ := exists_parting hlen.le hpart
    have hxy : x.length = y.length := by simpa using hlen
    obtain ⟨node', t', hsplit, hopens, hopen, hupdates⟩ := opens_splitAt hab s x y value
      (fun rest => .leaf rest leafValue) (Opens.leaf x leafValue) (by simp) hxy
    refine ⟨node', t', ?_, hopens, hopen, ?_, by rintro _ ⟨⟩⟩
    · rw [TrieNode.insert, if_neg hpath, hsplit]
      rfl
    · simpa [Trie.extend] using hupdates

theorem insert_extension (hnode : Opens c fetcher node (.branch children))
    (hcan : (edge pre (.branch children)).Canonical path.length)
    (hinsert : ∀ rest, path = pre ++ rest → Inserts c fetcher fuel node rest value (.branch children)) :
    Inserts c fetcher (fuel + 1) (.extension pre node) path value (.edge pre (.branch children)) := by
  obtain ⟨hpre, -, hle, hchild⟩ := hcan
  rw [edge_eq_extend hpre]
  by_cases hpath : pre <+: path
  · obtain ⟨rest, rfl⟩ := hpath
    obtain ⟨node', t', hcall, hopens, hopen, hupdates, hbranch⟩ := hinsert rest rfl
    obtain ⟨children', rfl⟩ := hbranch children rfl
    refine ⟨.extension pre node', (branch children').extend pre, ?_, ?_, rfl, hupdates.extend pre, ?_⟩
    · rw [TrieNode.insert, if_pos (commonPrefixLength_append pre rest), drop_left, hcall]
      rfl
    · rw [← edge_eq_extend hpre]
      exact .extension hopens
    · rw [← edge_eq_extend hpre]
      exact nofun
  · obtain ⟨s, a, b, x, y, rfl, rfl, hab⟩ := exists_parting hle hpath
    have hcanx : ((branch children).extend x).Canonical y.length := by
      have hextend := Trie.Canonical.extend hchild x
      simp only [length_append, length_cons] at hle hextend
      rwa [show x.length + (s.length + (y.length + 1) - (s.length + (x.length + 1))) = y.length by
        omega] at hextend
    obtain ⟨node', t', hsplit, hopens, hopen, hupdates⟩ := opens_splitAt hab s x y value
      (fun rest => if rest = [] then node else .extension rest node) (opens_extend hnode x)
      (extend_ne_empty x (by simp)) hcanx
    refine ⟨node', t', ?_, hopens, hopen, ?_, ?_⟩
    · rw [TrieNode.insert, if_neg ?_, hsplit]
      · rfl
      · rw [commonPrefixLength_of_parting hab.symm]
        simp
    · simpa [extend_extend] using hupdates
    · rw [← edge_eq_extend hpre]
      exact nofun

theorem insert_branch {rest : Nibbles} (h : Opens c fetcher (.branch stack) (.branch children))
    (hcan : (branch children).Canonical (rest.length + 1))
    (hinsert : Inserts c fetcher fuel (stack x.castSucc) rest value (children x)) :
    Inserts c fetcher (fuel + 1) (.branch stack) (x :: rest) value (.branch children) := by
  obtain ⟨node', t', hcall, hopens, -, hupdates, -⟩ := hinsert
  refine ⟨_, _, ?_, h.update x hopens, rfl, hupdates.branch hcan, fun _ _ => ⟨_, rfl⟩⟩
  rw [TrieNode.insert, hcall]
  rfl

theorem Opens.insert (h : Opens c fetcher node t) (hcan : t.Canonical path.length)
    (hfuel : stepsFor node path ≤ fuel) (value : Bytes) :
    Inserts c fetcher fuel node path value t := by
  induction h generalizing fuel path with obtain ⟨fuel, rfl⟩ := exists_succ_of_stepsFor hfuel
  | empty =>
    exact ⟨_, _, rfl, .leaf path value, rfl, ⟨rfl, fun _ => rfl⟩, nofun⟩
  | leaf pre leafValue => exact insert_leaf hcan
  | @extension pre node t hnode ih =>
    obtain ⟨hpre, ⟨children, rfl⟩, hle, hchild⟩ := hcan
    refine insert_extension hnode ⟨hpre, ⟨children, rfl⟩, hle, hchild⟩ ?_
    rintro rest rfl
    have hpos := length_pos_iff.mpr hpre
    rw [length_append, Nat.add_sub_cancel_left] at hchild
    rw [stepsFor_open rfl, length_append] at hfuel
    exact ih hchild ((stepsFor_le node rest).trans (by omega))
  | @branch stack children hstack hlast ih =>
    obtain ⟨x, rest, rfl⟩ := length_pos_of_canonical_branch hcan
    rw [stepsFor_open rfl, length_cons] at hfuel
    exact insert_branch (.branch hstack hlast) hcan
      (ih x (hcan.2 x) ((stepsFor_le _ rest).trans (by omega)))
  | @blinded commitment answer t _ _ hne hfetch hopen _ ih =>
    obtain ⟨node', t', hcall, hrest⟩ := ih hcan (stepsFor_answer hopen hfuel)
    refine ⟨node', t', ?_, hrest⟩
    rw [← hcall, TrieNode.insert]
    simp [TrieNode.unblind, if_neg hne, hfetch]

/-! ## Deletion -/

theorem isEmpty_iff_of_opens (h : Opens c fetcher node t) : node.isEmpty = true ↔ t = .empty := by
  cases h with
  | empty | leaf pre value | extension hnode | branch hstack hlast => simp [isEmpty]
  | blinded hcommitment hlong =>
    simp only [isEmpty, Bool.false_eq_true, false_iff]
    rintro rfl
    have hone : (ofTrie .empty).length = 1 := rfl
    omega

/-- What a collapse leaves. -/
def Collapses (c : TrieCodec) (fetcher : TrieProvider) (fuel : ℕ) (node : TrieNode) (t : OpenTrie) :
    Prop :=
  ∃ node', collapseIfPossible c.emptyRootHash fetcher fuel node = some (.ok (), node') ∧
    Opens c fetcher node' t ∧ node'.isBlinded = false

theorem collapse_extension (h : Opens c fetcher node t) (hopen : node.isBlinded = false)
    (hpre : pre ≠ []) (fuel : ℕ) :
    Collapses c fetcher (fuel + 1) (.extension pre node) (t.extend pre) := by
  cases h with
  | empty => exact ⟨_, rfl, .empty, rfl⟩
  | leaf childPre value => exact ⟨_, rfl, .leaf _ _, rfl⟩
  | extension hnode => exact ⟨_, rfl, .extension hnode, rfl⟩
  | branch hstack hlast =>
    refine ⟨_, rfl, ?_, rfl⟩
    rw [← edge_eq_extend hpre]
    exact .extension (.branch hstack hlast)
  | blinded _ _ _ _ _ _ => cases hopen

theorem nibbleOf_castSucc : nibbleOf x.castSucc = some x := by
  unfold nibbleOf
  rw [dif_pos (show x.castSucc.val < 16 from x.isLt)]
  rfl

theorem collapse_sole (hsole : nonEmptyChildren stack = [x.castSucc])
    (h : Opens c fetcher (stack x.castSucc) t) (hopen : (stack x.castSucc).isBlinded = false)
    (hne : t ≠ .empty) : Collapses c fetcher (fuel + 1) (.branch stack) (t.extend [x]) := by
  generalize hchild : stack x.castSucc = child at h hopen
  cases h with
  | empty => exact absurd rfl hne
  | leaf pre value =>
    refine ⟨.leaf (x :: pre) value, ?_, .leaf _ _, rfl⟩
    simp [collapseIfPossible, hsole, hchild, nibbleOf_castSucc]
  | @extension pre node t hnode =>
    refine ⟨.extension (x :: pre) node, ?_, .extension hnode, rfl⟩
    simp [collapseIfPossible, hsole, hchild, nibbleOf_castSucc]
  | @branch inner children hstack hlast =>
    refine ⟨.extension [x] (.branch inner), ?_, .extension (.branch hstack hlast), rfl⟩
    simp [collapseIfPossible, hsole, hchild, nibbleOf_castSucc]
  | blinded _ _ _ _ _ _ => cases hopen

theorem nonEmptyChildren_update (h : (stack i).isEmpty = node.isEmpty) :
    nonEmptyChildren (update stack i node) = nonEmptyChildren stack := by
  unfold nonEmptyChildren
  congr 1
  funext j
  by_cases hj : j = i
  · subst hj
    simp [h]
  · simp [hj]

/-- If the only child is blinded, it is opened first. -/
theorem collapse_sole_blinded (hsole : nonEmptyChildren stack = [x.castSucc])
    (h : Opens c fetcher (stack x.castSucc) t) (hne : t ≠ .empty) :
    Collapses c fetcher (fuel + 2) (.branch stack) (t.extend [x]) := by
  by_cases hopen : (stack x.castSucc).isBlinded = false
  · exact collapse_sole hsole h hopen hne
  · have hempty := isEmpty_iff_of_opens h
    generalize hchild : stack x.castSucc = child at h hopen hempty
    cases h with
    | @blinded commitment answer t _ _ hcne hfetch hanswer hnode =>
      have hsame : (stack x.castSucc).isEmpty = answer.isEmpty := by
        rw [hchild, Bool.eq_iff_iff, hempty, isEmpty_iff_of_opens hnode]
      have hupdated := nonEmptyChildren_update hsame
      rw [hsole] at hupdated
      have hat : update stack x.castSucc answer x.castSucc = answer :=
        update_self _ _ _
      obtain ⟨node', hcall, hopens⟩ : Collapses c fetcher (fuel + 1)
          (.branch (update stack x.castSucc answer)) (t.extend [x]) :=
        collapse_sole hupdated (hat.symm ▸ hnode) (hat.symm ▸ hanswer) hne
      refine ⟨node', ?_, hopens⟩
      rw [← hcall, collapseIfPossible, hsole]
      simp [hchild, unblind, if_neg hcne, hfetch]
    | _ => exact absurd rfl hopen

theorem mem_nonEmptyChildren : i ∈ nonEmptyChildren stack ↔ (stack i).isEmpty = false := by
  simp [nonEmptyChildren]

/-- The children that are not empty stand at nibbles. -/
theorem exists_nibble_of_mem (h : Opens c fetcher (.branch stack) (.branch children))
    (hi : i ∈ nonEmptyChildren stack) : ∃ x : Nibble, i = x.castSucc ∧ children x ≠ .empty := by
  obtain ⟨hstack, hlast⟩ := opens_branch.mp h
  rw [mem_nonEmptyChildren] at hi
  have hne : i ≠ Fin.last 16 := by
    rintro rfl
    rw [hlast] at hi
    cases hi
  obtain ⟨x, rfl⟩ := Fin.exists_castSucc_eq.mpr hne
  refine ⟨x, rfl, fun hx => ?_⟩
  rw [(isEmpty_iff_of_opens (hstack x)).mpr hx] at hi
  cases hi

/-- A branch that a deletion left with a child takes the canonical form. -/
theorem collapse_branch {n : ℕ} (h : Opens c fetcher (.branch stack) (.branch children))
    (hcan : ∀ x, (children x).Canonical n) (hsome : ∃ x, children x ≠ .empty) :
    ∃ node' t', collapseIfPossible c.emptyRootHash fetcher (fuel + 2) (.branch stack) =
      some (.ok (), node') ∧ Opens c fetcher node' t' ∧ node'.isBlinded = false ∧
        t'.Canonical (n + 1) ∧ ∀ q, t'.find q = (branch children).find q := by
  have hstack := (opens_branch.mp h).1
  have hmem : ∀ x : Nibble, x.castSucc ∈ nonEmptyChildren stack ↔ children x ≠ .empty := by
    intro x
    rw [mem_nonEmptyChildren, ← Bool.not_eq_true, isEmpty_iff_of_opens (hstack x)]
  have hnodup : (nonEmptyChildren stack).Nodup := (nodup_finRange 17).filter _
  cases hl : nonEmptyChildren stack with
  | nil =>
    obtain ⟨x, hx⟩ := hsome
    have := (hmem x).mpr hx
    rw [hl] at this
    cases this
  | cons i rest =>
    obtain ⟨x, rfl, hx⟩ := exists_nibble_of_mem h (hl ▸ mem_cons_self)
    cases rest with
    | nil =>
      have hothers : ∀ y, y ≠ x → children y = .empty := by
        intro y hy
        by_contra hne
        have hin := (hmem y).mpr hne
        rw [hl, mem_singleton] at hin
        exact hy (Fin.castSucc_injective 16 hin)
      obtain ⟨node', hcall, hopens, hopen⟩ := collapse_sole_blinded hl (hstack x) hx
      refine ⟨node', _, hcall, hopens, hopen, ?_, find_extend_sole hothers⟩
      have hextend := (hcan x).extend [x]
      rwa [Nat.add_comm] at hextend
    | cons j rest =>
      obtain ⟨y, rfl, hy⟩ := exists_nibble_of_mem h (hl ▸ mem_cons_of_mem _ mem_cons_self)
      have hxy : x ≠ y := by
        rintro rfl
        rw [hl] at hnodup
        simp at hnodup
      refine ⟨.branch stack, .branch children, ?_, h, rfl, ⟨⟨x, y, hxy, hx, hy⟩, hcan⟩, fun _ => rfl⟩
      simp [collapseIfPossible, hl]

/-- What a deletion leaves: without the key, or as it was if there is none. -/
def Deletes (c : TrieCodec) (fetcher : TrieProvider) (fuel : ℕ) (node : TrieNode) (path : Nibbles)
    (t : OpenTrie) : Prop :=
  (t.find path = none ∧ ∃ node', delete c.emptyRootHash fetcher fuel node path =
    some (.error .keyNotFound, node') ∧ Opens c fetcher node' t) ∨
  ((t.find path).isSome ∧ ∃ node' t', delete c.emptyRootHash fetcher fuel node path =
    some (.ok (), node') ∧ Opens c fetcher node' t' ∧ node'.isBlinded = false ∧
      Trie.Updates path none t t')

theorem delete_leaf : Deletes c fetcher (fuel + 1) (.leaf pre value) path (.leaf pre value) := by
  by_cases hpath : path = pre
  · subst hpath
    refine .inr ⟨by simp [find], .empty, .empty, by rw [delete, if_pos rfl], .empty,
      rfl, trivial, fun q => ?_⟩
    by_cases hq : q = path <;> simp [find]
  · refine .inl ⟨if_neg hpath, .leaf pre value, ?_, .leaf pre value⟩
    rw [delete, if_neg hpath]

theorem delete_extension (hnode : Opens c fetcher node (.branch children))
    (hcan : (edge pre (.branch children)).Canonical path.length)
    (hdelete : ∀ rest, path = pre ++ rest → Deletes c fetcher (fuel + 1) node rest (.branch children)) :
    Deletes c fetcher (fuel + 2) (.extension pre node) path (.edge pre (.branch children)) := by
  obtain ⟨hpre, -, hle, hchild⟩ := hcan
  by_cases hpath : pre <+: path
  · obtain ⟨rest, rfl⟩ := hpath
    rw [length_append, Nat.add_sub_cancel_left] at hchild
    obtain ⟨x, tail, rfl⟩ := length_pos_of_canonical_branch hchild
    have hfind : (edge pre (.branch children)).find (pre ++ x :: tail) =
        (branch children).find (x :: tail) := by
      rw [edge_eq_extend hpre, find_extend_append]
    have hcommon : commonPrefixLength (pre ++ x :: tail) pre = pre.length :=
      commonPrefixLength_append _ _
    have hlonger : ¬ pre.length = (pre ++ x :: tail).length := by simp
    rcases hdelete (x :: tail) rfl with
      ⟨hnone, node', hcall, hopens⟩ | ⟨hpresent, node', t', hcall, hopens, hopen, hupdates⟩
    · refine .inl ⟨hfind.trans hnone, .extension pre node', ?_, .extension hopens⟩
      rw [delete]
      simp [hcommon, hcall]
    · obtain ⟨node'', hcollapse, hopens', hopen'⟩ := collapse_extension hopens hopen hpre fuel
      refine .inr ⟨hfind ▸ hpresent, node'', t'.extend pre, ?_, hopens', hopen', ?_⟩
      · rw [delete]
        simp only [hcommon, lt_irrefl, hlonger, drop_left, hcall]
        exact hcollapse
      · rw [edge_eq_extend hpre]
        exact hupdates.extend pre
  · obtain ⟨s, a, b, x, y, rfl, rfl, hab⟩ := exists_parting hle hpath
    refine .inl ⟨?_, .extension (s ++ a :: x) node, ?_, .extension hnode⟩
    · rw [find, if_neg hpath]
    · rw [delete]
      simp only [commonPrefixLength_of_parting hab.symm]
      rw [if_pos (by simp)]

theorem delete_branch {rest : Nibbles} (h : Opens c fetcher (.branch stack) (.branch children))
    (hcan : (branch children).Canonical (rest.length + 1))
    (hdelete : Deletes c fetcher (fuel + 2) (stack x.castSucc) rest (children x)) :
    Deletes c fetcher (fuel + 3) (.branch stack) (x :: rest) (.branch children) := by
  rcases hdelete with
    ⟨hnone, node', hcall, hopens⟩ | ⟨hpresent, node', t', hcall, hopens, hopen, hupdates⟩
  · refine .inl ⟨hnone, .branch (update stack x.castSucc node'), ?_,
      update_eq_self x children ▸ h.update x hopens⟩
    rw [delete, hcall]
  · obtain ⟨⟨a, b, hab, ha, hb⟩, hchildren⟩ := hcan
    have hcan' : ∀ y, (update children x t' y).Canonical rest.length := by
      intro y
      by_cases hy : y = x
      · subst hy
        simpa using hupdates.canonical
      · simpa [hy] using hchildren y
    -- Of the two children of the branch one is not the one that changed.
    have hsome : ∃ y, update children x t' y ≠ .empty := by
      by_cases hax : a = x
      · exact ⟨b, by simpa [show b ≠ x from fun h => hab (hax.trans h.symm)] using hb⟩
      · exact ⟨a, by simpa [hax] using ha⟩
    obtain ⟨node'', t'', hcollapse, hopens', hopen', hcanonical, hfind⟩ :=
      collapse_branch (h.update x hopens) hcan' hsome
    refine .inr ⟨hpresent, node'', t'', ?_, hopens', hopen', hcanonical, fun q => ?_⟩
    · rwa [delete, hcall]
    · rw [hfind q]
      exact hupdates.find.branch q

theorem Opens.delete (h : Opens c fetcher node t) (hcan : t.Canonical path.length)
    (hfuel : stepsFor node path ≤ fuel) : Deletes c fetcher fuel node path t := by
  induction h generalizing fuel path with obtain ⟨fuel, rfl⟩ := exists_succ_of_stepsFor hfuel
  | empty => exact .inl ⟨rfl, _, rfl, .empty⟩
  | leaf pre value => exact delete_leaf
  | @extension pre node t hnode ih =>
    obtain ⟨hpre, ⟨children, rfl⟩, hle, hchild⟩ := hcan
    have hpos := length_pos_iff.mpr hpre
    rw [stepsFor_open rfl] at hfuel
    obtain ⟨fuel, rfl⟩ := Nat.exists_eq_add_of_le' (show 1 ≤ fuel by omega)
    refine delete_extension hnode ⟨hpre, ⟨children, rfl⟩, hle, hchild⟩ ?_
    rintro rest rfl
    rw [length_append, Nat.add_sub_cancel_left] at hchild
    rw [length_append] at hfuel
    exact ih hchild ((stepsFor_le node rest).trans (by omega))
  | @branch stack children hstack hlast ih =>
    obtain ⟨x, rest, rfl⟩ := length_pos_of_canonical_branch hcan
    rw [stepsFor_open rfl, length_cons] at hfuel
    obtain ⟨fuel, rfl⟩ := Nat.exists_eq_add_of_le' (show 2 ≤ fuel by omega)
    exact delete_branch (.branch hstack hlast) hcan
      (ih x (hcan.2 x) ((stepsFor_le _ rest).trans (by omega)))
  | @blinded commitment answer t _ _ hne hfetch hopen _ ih =>
    have hcall : delete c.emptyRootHash fetcher (fuel + 1) (.blinded commitment) path =
        delete c.emptyRootHash fetcher fuel answer path := by
      rw [delete]
      simp [TrieNode.unblind, if_neg hne, hfetch]
    unfold Deletes
    rw [hcall]
    exact ih hcan (stepsFor_answer hopen hfuel)

end NodeReth.TrieCodec
