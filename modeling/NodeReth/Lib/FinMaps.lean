import Mathlib.Data.List.AList
import Mathlib.Algebra.BigOperators.Group.Finset.Basic
import Mathlib.Tactic

/-!
# Totals over finite maps

A finite map is an association list without repeated keys. `total` adds a weight over its entries;
inserting a new key or erasing one changes the total by the weight of that entry, and the total
depends on the map only through its lookups.
-/

abbrev FinMap (K V : Type) := AList fun _ : K => V

namespace FinMap

open List

variable {K V W : Type} {m : FinMap K V} {k : K} {v : V} (f : K → V → ℕ)

def total (m : FinMap K V) : ℕ := (m.entries.map fun e => f e.1 e.2).sum

variable (p : K → V → Bool)

def count (m : FinMap K V) : ℕ := m.entries.countP fun e => p e.1 e.2

theorem count_eq_total (m : FinMap K V) : m.count p = m.total fun k v => if p k v then 1 else 0 := by
  unfold count total
  induction m.entries with
  | nil => rfl
  | cons e l ih =>
    rw [countP_cons, map_cons, sum_cons, ih, Nat.add_comm]

@[simp] theorem total_empty : total f (∅ : FinMap K V) = 0 := rfl

/-- The entries with a property. -/
def filter (m : FinMap K V) : FinMap K V :=
  ⟨m.entries.filter fun e => p e.1 e.2, m.nodupKeys.sublist filter_sublist⟩

theorem total_filter_add (m : FinMap K V) :
    total f (m.filter p) + total f (m.filter fun k v => !p k v) = total f m := by
  unfold total filter
  dsimp only
  induction m.entries with
  | nil => rfl
  | cons e l ih =>
    rw [filter_cons, filter_cons, map_cons]
    cases p e.1 e.2 with
    | true =>
      simp only [if_true, Bool.not_true, Bool.false_eq_true, if_false, map_cons, sum_cons]
      omega
    | false =>
      simp only [if_true, Bool.not_false, Bool.false_eq_true, if_false, map_cons, sum_cons]
      omega

variable [DecidableEq K]

theorem total_insert (h : k ∉ m) : total f (m.insert k v) = f k v + total f m := by
  unfold total
  rw [AList.entries_insert_of_notMem h, map_cons, sum_cons]

theorem total_erase (h : m.lookup k = some v) : f k v + total f (m.erase k) = total f m := by
  have hmem : k ∈ m.entries.keys := AList.lookup_isSome.mp (by rw [h]; rfl)
  obtain ⟨w, l₁, l₂, -, hentries, herase⟩ := exists_of_kerase hmem
  obtain rfl : w = v := by
    have hw : m.lookup k = some w := AList.mem_lookup_iff.mpr (by rw [hentries]; simp)
    rw [h] at hw
    exact (Option.some.inj hw).symm
  unfold total
  show f k w + ((kerase k m.entries).map _).sum = _
  rw [herase, hentries]
  simp only [map_append, map_cons, sum_append, sum_cons]
  omega

theorem count_insert (h : m.lookup k = none) :
    count p (m.insert k v) = count p m + if p k v then 1 else 0 := by
  rw [count_eq_total, count_eq_total, total_insert _ (AList.lookup_eq_none.mp h), Nat.add_comm]

theorem count_erase (h : m.lookup k = some v) :
    count p (m.erase k) + (if p k v then 1 else 0) = count p m := by
  rw [count_eq_total, count_eq_total, ← total_erase _ h, Nat.add_comm]

variable {S : Finset K}

theorem total_eq_sum (hS : ∀ k ∈ m, k ∈ S) : total f m = ∑ k ∈ S, ((m.lookup k).map (f k)).getD 0 := by
  have hkeys : total f m = ∑ k ∈ m.keys.toFinset, ((m.lookup k).map (f k)).getD 0 := by
    rw [sum_toFinset _ m.keys_nodup]
    unfold AList.keys keys
    rw [map_map]
    refine congrArg sum (map_congr_left fun e he => ?_)
    have : m.lookup e.1 = some e.2 := AList.mem_lookup_iff.mpr he
    simp [this]
  rw [hkeys]
  refine Finset.sum_subset (fun k hk => hS k (mem_toFinset.mp hk)) fun k _ hk => ?_
  have : m.lookup k = none := AList.lookup_eq_none.mpr fun hmem => hk (mem_toFinset.mpr hmem)
  rw [this]
  rfl

theorem total_congr {m' : FinMap K W} {f : K → V → ℕ} {g : K → W → ℕ}
    (h : ∀ k, ((m.lookup k).map (f k)).getD 0 = ((m'.lookup k).map (g k)).getD 0) :
    total f m = total g m' := by
  have hS : ∀ k ∈ m, k ∈ m.keys.toFinset ∪ m'.keys.toFinset := fun k hk =>
    Finset.mem_union_left _ (mem_toFinset.mpr hk)
  have hS' : ∀ k ∈ m', k ∈ m.keys.toFinset ∪ m'.keys.toFinset := fun k hk =>
    Finset.mem_union_right _ (mem_toFinset.mpr hk)
  rw [total_eq_sum f hS, total_eq_sum g hS']
  exact Finset.sum_congr rfl fun k _ => h k

theorem le_total (h : m.lookup k = some v) : f k v ≤ total f m := by
  rw [← total_erase f h]
  exact Nat.le_add_right _ _

theorem lookup_insert_eq (m : FinMap K V) (k : K) (v : V) (j : K) :
    (m.insert k v).lookup j = if j = k then some v else m.lookup j := by
  by_cases h : j = k
  · subst h
    rw [AList.lookup_insert, if_pos rfl]
  · rw [AList.lookup_insert_ne h, if_neg h]

theorem lookup_erase_eq (m : FinMap K V) (k j : K) :
    (m.erase k).lookup j = if j = k then none else m.lookup j := by
  by_cases h : j = k
  · subst h
    rw [AList.lookup_erase, if_pos rfl]
  · rw [AList.lookup_erase_ne h, if_neg h]

theorem mem_iff_lookup : k ∈ m ↔ ∃ v, m.lookup k = some v := by
  rw [← AList.lookup_isSome, Option.isSome_iff_exists]

theorem lookup_filter_eq_some {p : K → V → Bool} :
    (m.filter p).lookup k = some v ↔ m.lookup k = some v ∧ p k v = true := by
  rw [← Option.mem_def, ← Option.mem_def, AList.mem_lookup_iff, AList.mem_lookup_iff]
  exact mem_filter

/-! ## The number of entries -/

def size (m : FinMap K V) : ℕ := m.entries.length

theorem size_erase_le (m : FinMap K V) (k : K) : size (m.erase k) ≤ m.size :=
  (kerase_sublist k m.entries).length_le

theorem size_insert_le (m : FinMap K V) (k : K) (v : V) : size (m.insert k v) ≤ m.size + 1 :=
  Nat.succ_le_succ (size_erase_le m k)

/-- A map with the keys of a finite set has as many entries. -/
theorem size_eq_card (h : ∀ k, k ∈ m ↔ k ∈ S) : m.size = S.card := by
  have hS : m.keys.toFinset = S := by
    ext k
    rw [mem_toFinset]
    exact h k
  rw [← hS, toFinset_card_of_nodup m.keys_nodup]
  unfold size AList.keys keys
  rw [length_map]

/-- A map with keys in a finite set and as many entries has every key of it. -/
theorem mem_of_card_le (h : ∀ k ∈ m, k ∈ S) (hcard : S.card ≤ m.size) (hk : k ∈ S) : k ∈ m := by
  have hsub : m.keys.toFinset ⊆ S := by
    intro j hj
    exact h j (mem_toFinset.mp hj)
  have hsize : m.size = m.keys.toFinset.card := size_eq_card fun j => mem_toFinset.symm
  rw [hsize] at hcard
  rw [← Finset.eq_of_subset_of_card_le hsub hcard] at hk
  exact mem_toFinset.mp hk

theorem erase_insert (h : k ∉ m) : (m.insert k v).erase k = m := by
  apply AList.ext
  show kerase k (m.insert k v).entries = m.entries
  rw [AList.entries_insert_of_notMem h]
  exact kerase_cons_eq rfl

end FinMap
