import Mathlib.Data.List.Infix
import Mathlib.Logic.Function.Basic
import Mathlib.Tactic.ByContra

/-!
# Radix tries

Tries over an arbitrary alphabet for keys of one length. A trie is canonical when every branch has
two children and every edge is as long as it can be, that is when it ends at a branch. A canonical
trie is determined by the map it stands for, so any way to compute one gives the same.
-/

namespace Radix

open Function List

variable {σ V : Type}

inductive Trie (σ V : Type)
  | empty
  | leaf (path : List σ) (value : V)
  | edge (path : List σ) (child : Trie σ V)
  | branch (children : σ → Trie σ V)

/-! ## Common prefixes -/

section Prefixes

variable {a b : σ} {p q r x y : List σ}

theorem prefix_of_parting (hab : a ≠ b) (hx : r <+: p ++ a :: x) (hy : r <+: p ++ b :: y) :
    r <+: p := by
  induction p generalizing r with
  | nil =>
    cases r with
    | nil => exact nil_prefix
    | cons c r =>
      rw [nil_append, cons_prefix_cons] at hx hy
      exact absurd (hx.1.symm.trans hy.1) hab
  | cons d p ih =>
    cases r with
    | nil => exact nil_prefix
    | cons c r =>
      rw [cons_append, cons_prefix_cons] at hx hy
      rw [cons_prefix_cons]
      exact ⟨hx.1, ih hx.2 hy.2⟩

variable [DecidableEq σ]

def commonPrefixLength : List σ → List σ → ℕ
  | a :: p, b :: q => if a = b then commonPrefixLength p q + 1 else 0
  | _, _ => 0

theorem commonPrefixLength_of_parting (hab : a ≠ b) (p x y : List σ) :
    commonPrefixLength (p ++ a :: x) (p ++ b :: y) = p.length := by
  induction p with
  | nil => exact if_neg hab
  | cons c p ih => simp [commonPrefixLength, ih]

theorem commonPrefixLength_append (p q : List σ) : commonPrefixLength (p ++ q) p = p.length := by
  induction p with
  | nil => cases q <;> rfl
  | cons c p ih => simp [commonPrefixLength, ih]

/-- Two lists part, unless the second is a prefix of the first or is longer than it. -/
theorem exists_parting (hlen : p.length ≤ q.length) (hne : ¬ p <+: q) :
    ∃ c a b x y, p = c ++ a :: x ∧ q = c ++ b :: y ∧ a ≠ b := by
  induction p generalizing q with
  | nil => exact absurd nil_prefix hne
  | cons a p ih =>
    cases q with
    | nil => simp at hlen
    | cons b q =>
      by_cases hab : a = b
      · subst hab
        obtain ⟨c, d, e, x, y, rfl, rfl, hde⟩ := ih (by simpa using hlen) (by simpa using hne)
        exact ⟨a :: c, d, e, x, y, rfl, rfl, hde⟩
      · exact ⟨[], a, b, p, q, rfl, rfl, hab⟩

end Prefixes

namespace Trie

/-! ## Canonical tries -/

section Canonical

variable {t : Trie σ V} {n : ℕ}

/-- The trie of keys of a length in canonical form. -/
def Canonical : Trie σ V → ℕ → Prop
  | empty, _ => True
  | leaf p _, n => p.length = n
  | edge p t, n => p ≠ [] ∧ (∃ children, t = branch children) ∧ p.length ≤ n ∧
    Canonical t (n - p.length)
  | branch _, 0 => False
  | branch children, n + 1 => (∃ a b, a ≠ b ∧ children a ≠ empty ∧ children b ≠ empty) ∧
    ∀ a, Canonical (children a) n

/-- The trie behind a path, in canonical form. -/
def extend (p : List σ) : Trie σ V → Trie σ V
  | empty => empty
  | leaf q v => leaf (p ++ q) v
  | edge q t => edge (p ++ q) t
  | branch children => if p = [] then branch children else edge p (branch children)

theorem extend_extend (p q : List σ) (t : Trie σ V) : extend p (extend q t) = extend (p ++ q) t := by
  cases t with
  | empty => rfl
  | leaf r v | edge r t => simp [extend]
  | branch children =>
    by_cases hq : q = [] <;> simp [extend, hq]

theorem Canonical.extend (ht : t.Canonical n) (p : List σ) : (t.extend p).Canonical (p.length + n) := by
  cases t with
  | empty => exact ht
  | leaf q v =>
    show (p ++ q).length = p.length + n
    rw [length_append, show q.length = n from ht]
  | edge q t =>
    obtain ⟨hq, hbranch, hle, hcan⟩ := ht
    refine ⟨by simp [hq], hbranch, by simpa using hle, ?_⟩
    rwa [length_append, Nat.add_sub_add_left]
  | branch children =>
    by_cases hp : p = []
    · simpa [Trie.extend, hp] using ht
    · rw [Trie.extend, if_neg hp]
      refine ⟨hp, ⟨children, rfl⟩, Nat.le_add_right _ _, ?_⟩
      rwa [Nat.add_sub_cancel_left]

theorem extend_ne_empty (p : List σ) (ht : t ≠ empty) : t.extend p ≠ empty := by
  cases t with
  | empty => exact absurd rfl ht
  | leaf q v | edge q t => exact nofun
  | branch children =>
    unfold Trie.extend
    split_ifs <;> exact nofun

theorem Canonical.shape (ht : t.Canonical n) :
    t = empty ∨ (∃ p v, t = leaf p v ∧ p.length = n) ∨
      ∃ p children m, t = (branch children).extend p ∧ n = p.length + (m + 1) ∧
        (branch children).Canonical (m + 1) := by
  cases t with
  | empty => exact .inl rfl
  | leaf p v => exact .inr (.inl ⟨p, v, rfl, ht⟩)
  | edge p t =>
    obtain ⟨hp, ⟨children, rfl⟩, -, hcan⟩ := ht
    cases hm : n - p.length with
    | zero =>
      rw [hm] at hcan
      exact hcan.elim
    | succ m =>
      refine .inr (.inr ⟨p, children, m, ?_, by omega, hm ▸ hcan⟩)
      rw [Trie.extend, if_neg hp]
  | branch children =>
    cases n with
    | zero => exact ht.elim
    | succ m => exact .inr (.inr ⟨[], children, m, rfl, by simp, ht⟩)

end Canonical

/-! ## The map of a trie -/

section Find

variable [DecidableEq σ] {p q r : List σ} {t : Trie σ V} {children : σ → Trie σ V} {a b : σ}

def find : Trie σ V → List σ → Option V
  | empty, _ => none
  | leaf p v, q => if q = p then some v else none
  | edge p t, q => if p <+: q then find t (q.drop p.length) else none
  | branch _, [] => none
  | branch children, a :: q => find (children a) q

theorem find_extend (p q : List σ) (t : Trie σ V) :
    find (extend p t) q = if p <+: q then find t (q.drop p.length) else none := by
  by_cases hpq : p <+: q
  · obtain ⟨s, rfl⟩ := hpq
    rw [if_pos (prefix_append p s)]
    cases t with
    | empty => rfl
    | leaf r v | edge r t => simp [extend, find]
    | branch children =>
      by_cases hp : p = []
      · simp [extend, hp]
      · simp [extend, hp, find]
  · rw [if_neg hpq]
    cases t with
    | empty => rfl
    | leaf r v =>
      refine if_neg fun hq => hpq ?_
      rw [hq]
      exact prefix_append p r
    | edge r t => exact if_neg fun hr => hpq ((prefix_append p r).trans hr)
    | branch children =>
      by_cases hp : p = []
      · exact absurd (hp ▸ nil_prefix) hpq
      · simp [extend, hp, find, hpq]

theorem find_extend_append (p q : List σ) (t : Trie σ V) : find (extend p t) (p ++ q) = find t q := by
  rw [find_extend, if_pos (prefix_append p q), drop_left]

def fork (a : σ) (s : Trie σ V) (b : σ) (t : Trie σ V) : Trie σ V :=
  branch (update (update (fun _ => empty) a s) b t)

/-- Where a path parts from a trie's, a fork adds one key. -/
theorem find_extend_fork (hab : a ≠ b) (c x q : List σ) (t : Trie σ V) (v : V) :
    find (extend c (fork a t b (leaf x v))) q =
      if q = c ++ b :: x then some v else find (extend (c ++ [a]) t) q := by
  rw [find_extend]
  by_cases hc : c <+: q
  · obtain ⟨s, rfl⟩ := hc
    rw [← extend_extend]
    cases s with
    | nil => simp [fork, find, find_extend]
    | cons d s =>
      by_cases hd : d = b
      · subst hd
        simp [fork, find, find_extend, hab]
      · by_cases hda : d = a
        · subst hda
          simp [fork, find, find_extend, hd]
        · simp [fork, find, find_extend, hd, hda, Ne.symm hda]
  · have hq : q ≠ c ++ b :: x := fun hq => hc (hq ▸ prefix_append c _)
    rw [if_neg hc, if_neg hq, find_extend, if_neg fun hca => hc ((prefix_append c [a]).trans hca)]

/-- A branch with one child is the child behind its symbol. -/
theorem find_extend_sole (hsole : ∀ b, b ≠ a → children b = empty) (q : List σ) :
    find (extend [a] (children a)) q = find (branch children) q := by
  rw [find_extend]
  cases q with
  | nil => simp [find]
  | cons b q =>
    by_cases hb : b = a
    · subst hb
      simp [find]
    · simp [find, hsole b hb, Ne.symm hb]

end Find

/-! ## Forks -/

variable [DecidableEq σ] {t s : Trie σ V} {children : σ → Trie σ V} {n : ℕ} {a b : σ}

theorem canonical_fork (hab : a ≠ b) (hs : s ≠ empty) (ht : t ≠ empty) (hsn : s.Canonical n)
    (htn : t.Canonical n) : (fork a s b t).Canonical (n + 1) := by
  refine ⟨⟨a, b, hab, by simpa [hab] using hs, by simpa using ht⟩, fun d => ?_⟩
  by_cases hdb : d = b
  · subst hdb
    simpa using htn
  · by_cases hda : d = a
    · subst hda
      simpa [hdb] using hsn
    · simp only [update_of_ne hdb, update_of_ne hda]
      trivial

theorem Canonical.exists_key (ht : t.Canonical n) (hne : t ≠ empty) :
    ∃ q v, q.length = n ∧ t.find q = some v := by
  induction n using Nat.strong_induction_on generalizing t with
  | _ n ih =>
    rcases ht.shape with rfl | ⟨p, v, rfl, hp⟩ | ⟨p, children, m, rfl, rfl, hcan⟩
    · exact absurd rfl hne
    · exact ⟨p, v, hp, if_pos rfl⟩
    · obtain ⟨⟨a, _, _, ha, _⟩, hchildren⟩ := hcan
      obtain ⟨q, v, hq, hfind⟩ := ih m (by omega) (hchildren a) ha
      refine ⟨p ++ a :: q, v, by simp [hq], ?_⟩
      rwa [find_extend_append]

/-- A child of a canonical branch may be replaced, but not taken away. -/
theorem Canonical.branch_update (ht : (branch children).Canonical (n + 1)) (a : σ) (hne : t ≠ empty)
    (htn : t.Canonical n) : (branch (update children a t)).Canonical (n + 1) := by
  obtain ⟨⟨b, d, hbd, hb, hd⟩, hchildren⟩ := ht
  have hpresent : ∀ e, children e ≠ empty → update children a t e ≠ empty := by
    intro e he
    by_cases hea : e = a
    · subst hea
      simpa using hne
    · simpa [hea] using he
  refine ⟨⟨b, d, hbd, hpresent b hb, hpresent d hd⟩, fun e => ?_⟩
  by_cases hea : e = a
  · subst hea
    simpa using htn
  · simpa [hea] using hchildren e

/-- A canonical branch has keys that start differently. -/
theorem Canonical.exists_parting_keys (ht : (branch children).Canonical (n + 1)) :
    ∃ a b x y v w, a ≠ b ∧ x.length = n ∧ y.length = n ∧
      (branch children).find (a :: x) = some v ∧ (branch children).find (b :: y) = some w := by
  obtain ⟨⟨a, b, hab, ha, hb⟩, hchildren⟩ := ht
  obtain ⟨x, v, hx, hv⟩ := (hchildren a).exists_key ha
  obtain ⟨y, w, hy, hw⟩ := (hchildren b).exists_key hb
  exact ⟨a, b, x, y, v, w, hab, hx, hy, hv, hw⟩

/-! ## Updates -/

/-- The second trie has the map of the first, changed at one key. -/
def FindUpdates (path : List σ) (value : Option V) (t t' : Trie σ V) : Prop :=
  ∀ q, t'.find q = if q = path then value else t.find q

/-- The second trie is the canonical trie of the map of the first, changed at one key. -/
structure Updates (path : List σ) (value : Option V) (t t' : Trie σ V) : Prop where
  canonical : t'.Canonical path.length
  find : FindUpdates path value t t'

section Updates

variable {t' : Trie σ V} {value : Option V} {p q : List σ}

theorem FindUpdates.extend (h : FindUpdates q value t t') (p : List σ) :
    FindUpdates (p ++ q) value (t.extend p) (t'.extend p) := by
  intro r
  rw [find_extend, find_extend]
  by_cases hr : p <+: r
  · obtain ⟨s, rfl⟩ := hr
    rw [drop_left, h s]
    simp
  · have hne : r ≠ p ++ q := fun heq => hr (heq ▸ prefix_append p q)
    rw [if_neg hr, if_neg hne, if_neg hr]

theorem FindUpdates.branch (h : FindUpdates q value (children a) t') :
    FindUpdates (a :: q) value (branch children) (branch (update children a t')) := by
  intro r
  cases r with
  | nil => simp [Trie.find]
  | cons b r =>
    by_cases hb : b = a
    · subst hb
      simp [Trie.find, h r]
    · simp [Trie.find, hb]

theorem Updates.extend (h : Updates q value t t') (p : List σ) :
    Updates (p ++ q) value (t.extend p) (t'.extend p) :=
  ⟨by rw [length_append]; exact h.canonical.extend p, h.find.extend p⟩

theorem FindUpdates.ne_empty {v : V} (h : FindUpdates q (some v) t t') : t' ≠ empty := by
  rintro rfl
  have hfind := h q
  rw [if_pos rfl] at hfind
  cases hfind

/-- A key added to a child is added to the branch. -/
theorem Updates.branch {v : V} (hcan : (Trie.branch children).Canonical (q.length + 1))
    (h : Updates q (some v) (children a) t') :
    Updates (a :: q) (some v) (Trie.branch children) (Trie.branch (update children a t')) :=
  ⟨hcan.branch_update a h.find.ne_empty h.canonical, h.find.branch⟩

/-- Where a path parts from that of a trie, a fork adds its key. -/
theorem updates_fork {s y : List σ} {v : V} (hab : a ≠ b) (hne : t ≠ empty)
    (ht : t.Canonical y.length) :
    Updates (s ++ b :: y) (some v) (t.extend (s ++ [a])) ((fork a t b (leaf y v)).extend s) := by
  refine ⟨?_, fun q => find_extend_fork hab s y q t v⟩
  have hleaf : (leaf y v).Canonical y.length := rfl
  rw [length_append]
  exact (canonical_fork hab hne (fun h => by cases h) ht hleaf).extend s

end Updates

/-! ## Uniqueness -/

/-- Tries agree on the keys of a length. -/
def Agree (n : ℕ) (s t : Trie σ V) : Prop := ∀ q, q.length = n → s.find q = t.find q

theorem Agree.symm (h : Agree n s t) : Agree n t s := fun q hq => (h q hq).symm

/-- The path in front of a branch is a prefix of that of any trie of the same map. -/
theorem Agree.prefix_of_branch {p r : List σ} {t' : Trie σ V}
    (hcan : (branch children).Canonical (n + 1))
    (h : Agree (p.length + (n + 1)) ((branch children).extend p) (t'.extend r)) : r <+: p := by
  obtain ⟨a, b, x, y, v, w, hab, hx, hy, hv, hw⟩ := hcan.exists_parting_keys
  have hstart : ∀ z u, z.length = n + 1 → (branch children).find z = some u → r <+: p ++ z := by
    intro z u hz hfind
    by_contra hr
    have hagree := h (p ++ z) (by simp [hz])
    rw [find_extend_append, hfind, find_extend, if_neg hr] at hagree
    cases hagree
  exact prefix_of_parting hab (hstart _ v (by simp [hx]) hv) (hstart _ w (by simp [hy]) hw)

theorem Agree.ne_leaf {p r : List σ} {v : V} (hcan : (branch children).Canonical (n + 1))
    (h : Agree (p.length + (n + 1)) ((branch children).extend p) (leaf r v)) : False := by
  obtain ⟨a, b, x, y, u, w, hab, hx, hy, hu, hw⟩ := hcan.exists_parting_keys
  have hkey : ∀ z u, z.length = n + 1 → (branch children).find z = some u → p ++ z = r := by
    intro z u hz hfind
    by_contra hr
    have hagree := h (p ++ z) (by simp [hz])
    rw [find_extend_append, hfind, find, if_neg hr] at hagree
    cases hagree
  have heq := (hkey _ u (by simp [hx]) hu).trans (hkey _ w (by simp [hy]) hw).symm
  rw [append_cancel_left_eq, cons.injEq] at heq
  exact hab heq.1

theorem Agree.eq_empty (hcan : t.Canonical n) (h : Agree n t empty) : t = empty := by
  by_contra hne
  obtain ⟨q, v, hq, hfind⟩ := hcan.exists_key hne
  have hagree := h q hq
  rw [hfind] at hagree
  cases hagree

/-- A canonical trie is determined by its map. -/
theorem Canonical.eq_of_agree (hs : s.Canonical n) (ht : t.Canonical n) (h : Agree n s t) : s = t := by
  induction n using Nat.strong_induction_on generalizing s t with
  | _ n ih =>
    rcases hs.shape with rfl | ⟨p, v, rfl, hp⟩ | ⟨p, children, m, rfl, hn, hcan⟩
    · exact (h.symm.eq_empty ht).symm
    · rcases ht.shape with rfl | ⟨r, w, rfl, hr⟩ | ⟨r, children', m', rfl, rfl, hcan'⟩
      · exact h.eq_empty hs
      · have hfind := h p hp
        simp only [find, if_true] at hfind
        split_ifs at hfind with hpr
        · cases hfind
          rw [hpr]
      · exact (h.symm.ne_leaf hcan').elim
    · rcases ht.shape with rfl | ⟨r, w, rfl, hr⟩ | ⟨r, children', m', rfl, hn', hcan'⟩
      · exact h.eq_empty hs
      · subst hn
        exact (h.ne_leaf hcan).elim
      · -- Each path is a prefix of the other, so the branches hang at the same place.
        have hrp : r <+: p := by
          subst hn
          exact h.prefix_of_branch hcan
        have hpr : p <+: r := by
          rw [hn'] at h
          exact h.symm.prefix_of_branch hcan'
        obtain rfl := hrp.eq_of_length_le hpr.length_le
        obtain rfl : m = m' := by omega
        congr 2
        funext a
        refine ih m (by omega) (hcan.2 a) (hcan'.2 a) fun q hq => ?_
        have hagree := h (r ++ a :: q) (by simp [hn, hq])
        rwa [find_extend_append, find_extend_append] at hagree

end Trie

end Radix
