import NodeReth.Primitives
import Mathlib.Data.Finset.Sort

/-!
# Invalidation index

The reverse index of `txpool/src/invalidation.rs`: which transactions watch a piece of state. A
bucket that becomes empty is dropped, and the occupied expiry buckets are kept apart in an ordered
set. `InvalidationIndex.Valid` says that the buckets are exactly the watch sets read backwards.
-/

namespace NodeReth

open Function List

inductive InvalidationKey
  | balance (account : Address)
  | protocolNonce (account : Address)
  | codeHash (account : Address)
  | slot (address : Address) (slot : B256)
  | expiryBucket (bucket : ℕ)
  deriving DecidableEq

/-- Keys where any change drops every transaction that watches them. -/
def InvalidationKey.isExact : InvalidationKey → Bool
  | balance _ => false
  | _ => true

/-- The keys a transaction depends on, each once. -/
structure WatchSet where
  keys : List InvalidationKey
  nodup : keys.Nodup

namespace WatchSet

def new : WatchSet := ⟨[], nodup_nil⟩

def push (w : WatchSet) (key : InvalidationKey) : WatchSet :=
  if h : key ∈ w.keys then w
  else ⟨w.keys ++ [key], nodup_append.mpr ⟨w.nodup, nodup_singleton key, fun a ha b hb => by
    rw [mem_singleton.mp hb]
    exact fun heq => h (heq ▸ ha)⟩⟩

end WatchSet

structure InvalidationIndex where
  byKey : InvalidationKey → Option (List B256)
  watchSets : B256 → Option WatchSet
  expiryBuckets : Finset ℕ

namespace InvalidationIndex

def new : InvalidationIndex := ⟨fun _ => none, fun _ => none, ∅⟩

def watchers (index : InvalidationIndex) (key : InvalidationKey) : Option (List B256) :=
  index.byKey key

/-- The bucket of one key without a hash; an empty bucket is dropped. -/
def unlink (hash : B256) (index : InvalidationIndex) (key : InvalidationKey) : InvalidationIndex :=
  match index.byKey key with
  | none => index
  | some bucket =>
    if (bucket.erase hash).isEmpty then
      { index with
        byKey := update index.byKey key none
        expiryBuckets := match key with
          | .expiryBucket n => index.expiryBuckets.erase n
          | _ => index.expiryBuckets }
    else { index with byKey := update index.byKey key (some (bucket.erase hash)) }

/-- The bucket of one key with a hash. -/
def link (hash : B256) (index : InvalidationIndex) (key : InvalidationKey) : InvalidationIndex :=
  { index with
    byKey := update index.byKey key (some (((index.byKey key).getD []).insert hash))
    expiryBuckets := match key with
      | .expiryBucket n => insert n index.expiryBuckets
      | _ => index.expiryBuckets }

def remove (index : InvalidationIndex) (hash : B256) : Option WatchSet × InvalidationIndex :=
  match index.watchSets hash with
  | none => (none, index)
  | some watch =>
    (some watch, watch.keys.foldl (unlink hash)
      { index with watchSets := update index.watchSets hash none })

def insert (index : InvalidationIndex) (hash : B256) (watch : WatchSet) : Bool × InvalidationIndex :=
  let (present, index) := index.remove hash
  let index := watch.keys.foldl (link hash) index
  (present.isNone, { index with watchSets := update index.watchSets hash (some watch) })

def dueExpiryBuckets (index : InvalidationIndex) (horizon : ℕ) : List InvalidationKey :=
  ((index.expiryBuckets.filter (· ≤ horizon)).sort (· ≤ ·)).map .expiryBucket

def affectedExact (index : InvalidationIndex) (changed : List InvalidationKey) : List B256 :=
  changed.foldl (fun affected key =>
    if key.isExact then affected ∪ (index.byKey key).getD [] else affected) []

/-! ## Buckets -/

def bucket (index : InvalidationIndex) (key : InvalidationKey) : List B256 :=
  (index.byKey key).getD []

/-- No bucket is empty or repeats a hash, and the occupied expiry buckets are known. -/
structure Tidy (index : InvalidationIndex) : Prop where
  nonempty : ∀ key, index.byKey key ≠ some []
  nodup : ∀ key, (index.bucket key).Nodup
  expiry : ∀ n, n ∈ index.expiryBuckets ↔ index.byKey (.expiryBucket n) ≠ none

variable {index : InvalidationIndex} {hash h : B256} {key k : InvalidationKey}

theorem mem_bucket_link :
    h ∈ (link hash index key).bucket k ↔ (h = hash ∧ k = key) ∨ h ∈ index.bucket k := by
  unfold bucket link
  by_cases hk : k = key
  · subst hk
    simp
  · simp [hk]

/-- One bucket is replaced. -/
theorem Tidy.update (ht : index.Tidy) {b : Option (List B256)} {buckets : Finset ℕ}
    (hnil : b ≠ some []) (hnodup : (b.getD []).Nodup) (hbuckets : ∀ n, n ∈ buckets ↔
      if .expiryBucket n = key then b ≠ none else n ∈ index.expiryBuckets) :
    Tidy { index with byKey := update index.byKey key b, expiryBuckets := buckets } where
  nonempty k := by
    by_cases hk : k = key
    · subst hk
      simpa using hnil
    · simpa [hk] using ht.nonempty k
  nodup k := by
    unfold InvalidationIndex.bucket
    by_cases hk : k = key
    · subst hk
      simpa using hnodup
    · simpa [hk, InvalidationIndex.bucket] using ht.nodup k
  expiry n := by
    rw [hbuckets]
    by_cases hk : .expiryBucket n = key
    · subst hk
      simp
    · simp [hk, ht.expiry]

theorem Tidy.link (ht : index.Tidy) : (link hash index key).Tidy := by
  refine ht.update ?_ (List.Nodup.insert (ht.nodup key)) fun n => ?_
  · simpa using ne_nil_of_mem mem_insert_self
  · cases key with
    | expiryBucket m => by_cases hn : n = m <;> simp [hn]
    | _ => simp

theorem mem_bucket_unlink (ht : index.Tidy) :
    h ∈ (unlink hash index key).bucket k ↔ h ∈ index.bucket k ∧ ¬(h = hash ∧ k = key) := by
  unfold unlink
  cases hb : index.byKey key with
  | none =>
    by_cases hk : k = key
    · subst hk
      simp [bucket, hb]
    · simp [hk]
  | some b =>
    have hnodup : b.Nodup := by
      have := ht.nodup key
      unfold bucket at this
      rwa [hb] at this
    have herase : h ∈ b.erase hash ↔ h ≠ hash ∧ h ∈ b := hnodup.mem_erase_iff
    by_cases hk : k = key
    · subst hk
      by_cases hempty : (b.erase hash).isEmpty = true
      · rw [isEmpty_iff.mp hempty] at herase
        simp only [hempty, if_true]
        unfold bucket
        simp only [update_self, hb]
        tauto
      · simp only [hempty, Bool.false_eq_true, if_false]
        unfold bucket
        simp only [update_self, hb]
        tauto
    · by_cases hempty : (b.erase hash).isEmpty = true <;> simp [hempty, bucket, hk]

theorem Tidy.unlink (ht : index.Tidy) : (unlink hash index key).Tidy := by
  unfold InvalidationIndex.unlink
  cases hb : index.byKey key with
  | none => exact ht
  | some b =>
    have hnodup : b.Nodup := by
      have := ht.nodup key
      unfold InvalidationIndex.bucket at this
      rwa [hb] at this
    by_cases hempty : (b.erase hash).isEmpty = true
    · simp only [hempty, if_true]
      refine ht.update nofun nodup_nil fun n => ?_
      cases key with
      | expiryBucket m => by_cases hn : n = m <;> simp [hn]
      | _ => simp
    · simp only [hempty, Bool.false_eq_true, if_false]
      refine ht.update (by simpa using hempty) (hnodup.erase hash) fun n => ?_
      by_cases hk : .expiryBucket n = key
      · subst hk
        simp [ht.expiry n, hb]
      · simp [hk]

theorem unlink_watchSets : (unlink hash index key).watchSets = index.watchSets := by
  unfold unlink
  split
  · rfl
  · split_ifs <;> rfl

/-- Unlinking a hash from some keys takes it out of exactly their buckets. -/
theorem foldl_unlink (hash : B256) (ht : index.Tidy) (keys : List InvalidationKey) :
    (keys.foldl (unlink hash) index).Tidy ∧
      (keys.foldl (unlink hash) index).watchSets = index.watchSets ∧
      ∀ h k, h ∈ (keys.foldl (unlink hash) index).bucket k ↔
        h ∈ index.bucket k ∧ ¬(h = hash ∧ k ∈ keys) := by
  induction keys generalizing index with
  | nil => exact ⟨ht, rfl, fun h k => by simp⟩
  | cons key keys ih =>
    have hfirst : (unlink hash index key).Tidy := ht.unlink
    obtain ⟨htidy, hsets, hmem⟩ := ih hfirst
    refine ⟨htidy, hsets.trans unlink_watchSets, fun h k => ?_⟩
    rw [foldl_cons, hmem, mem_bucket_unlink ht, mem_cons]
    tauto

theorem foldl_link (hash : B256) (ht : index.Tidy) (keys : List InvalidationKey) :
    (keys.foldl (link hash) index).Tidy ∧ (keys.foldl (link hash) index).watchSets = index.watchSets ∧
      ∀ h k, h ∈ (keys.foldl (link hash) index).bucket k ↔
        h ∈ index.bucket k ∨ (h = hash ∧ k ∈ keys) := by
  induction keys generalizing index with
  | nil => exact ⟨ht, rfl, fun h k => by simp⟩
  | cons key keys ih =>
    have hfirst : (link hash index key).Tidy := ht.link
    obtain ⟨htidy, hsets, hmem⟩ := ih hfirst
    refine ⟨htidy, hsets, fun h k => ?_⟩
    rw [foldl_cons, hmem, mem_bucket_link, mem_cons]
    tauto

/-! ## The index as a whole -/

/-- The buckets are the watch sets read backwards. -/
structure Valid (index : InvalidationIndex) : Prop where
  tidy : index.Tidy
  mem_iff : ∀ h key, h ∈ index.bucket key ↔ ∃ w, index.watchSets h = some w ∧ key ∈ w.keys

theorem valid_new : new.Valid :=
  ⟨⟨fun _ => by simp [new], fun _ => nodup_nil, fun _ => by simp [new]⟩,
    fun _ _ => by simp [new, bucket]⟩

theorem remove_spec (hv : index.Valid) (hash : B256) :
    (index.remove hash).2.Valid ∧
      (index.remove hash).2.watchSets = update index.watchSets hash none := by
  unfold remove
  cases hw : index.watchSets hash with
  | none =>
    exact ⟨hv, (update_eq_self_iff.mpr hw.symm).symm⟩
  | some w =>
    have htidy : { index with watchSets := update index.watchSets hash none }.Tidy :=
      ⟨hv.tidy.nonempty, hv.tidy.nodup, hv.tidy.expiry⟩
    obtain ⟨htidy', hsets, hmem⟩ := foldl_unlink hash htidy w.keys
    refine ⟨⟨htidy', fun h key => ?_⟩, hsets⟩
    have hbefore := hv.mem_iff h key
    rw [hmem, hsets]
    show h ∈ index.bucket key ∧ _ ↔ ∃ v, update index.watchSets hash none h = some v ∧ _
    rw [hbefore]
    by_cases hh : h = hash
    · subst hh
      simp [hw]
    · simp [hh]

theorem insert_spec (hv : index.Valid) (hash : B256) (w : WatchSet) :
    (index.insert hash w).2.Valid ∧
      (index.insert hash w).2.watchSets = update index.watchSets hash (some w) := by
  obtain ⟨hremoved, hsets⟩ := remove_spec hv hash
  obtain ⟨htidy, hlinked, hmem⟩ := foldl_link hash hremoved.tidy w.keys
  have hwatch : (index.insert hash w).2.watchSets = update index.watchSets hash (some w) := by
    show update (w.keys.foldl (link hash) (index.remove hash).2).watchSets hash (some w) = _
    rw [hlinked, hsets, update_idem]
  refine ⟨⟨⟨htidy.nonempty, htidy.nodup, htidy.expiry⟩, fun h key => ?_⟩, hwatch⟩
  rw [hwatch]
  show h ∈ (w.keys.foldl (link hash) (index.remove hash).2).bucket key ↔ _
  rw [hmem, hremoved.mem_iff, hsets]
  by_cases hh : h = hash
  · subst hh
    simp
  · simp [hh]

theorem nodup_affectedExact (ht : index.Tidy) (changed : List InvalidationKey) :
    (index.affectedExact changed).Nodup := by
  suffices hfold : ∀ acc : List B256, acc.Nodup → (changed.foldl (fun affected key =>
      if key.isExact then affected ∪ (index.byKey key).getD [] else affected) acc).Nodup from
    hfold [] nodup_nil
  induction changed with
  | nil => exact fun _ hacc => hacc
  | cons key changed ih =>
    intro acc hacc
    rw [foldl_cons]
    refine ih _ ?_
    split_ifs
    · exact List.Nodup.union acc (ht.nodup key)
    · exact hacc

/-- The transactions that an exact change affects watch one of the changed keys. -/
theorem mem_affectedExact (index : InvalidationIndex) (changed : List InvalidationKey) (h : B256) :
    h ∈ index.affectedExact changed ↔ ∃ key ∈ changed, key.isExact = true ∧ h ∈ index.bucket key := by
  unfold affectedExact
  suffices hfold : ∀ acc : List B256, h ∈ changed.foldl (fun affected key =>
      if key.isExact then affected ∪ (index.byKey key).getD [] else affected) acc ↔
      h ∈ acc ∨ ∃ key ∈ changed, key.isExact = true ∧ h ∈ index.bucket key by
    rw [hfold]
    simp
  induction changed with
  | nil => simp
  | cons key changed ih =>
    intro acc
    rw [foldl_cons, ih]
    by_cases hexact : key.isExact = true
    · simp only [hexact, if_true, mem_union_iff, exists_mem_cons_iff]
      tauto
    · simp [hexact]

end InvalidationIndex

end NodeReth
