import NodeReth.Lib.Ring
import NodeReth.Protocol.SingleBatch

/-!
# Nonce-free replay protection

`NonceManagerStorage::check_and_mark_expiring_nonce` of `precompiles/src/nonce/storage.rs`: the
replay hash of a nonce-free transaction is recorded with its expiry, and a ring of fixed capacity
says which record is reclaimed next. `Tracks` describes the storage by the calls accepted so far:
the last `replayBufferCapacity` of them are in the ring with their expiry, and every earlier one has
expired. Storage is a total map with the default zero; a guarded group of writes that fails leaves
the storage as it was.
-/

namespace NodeReth

open Function List Nat Words

inductive NonceError
  | invalidExpiringNonceExpiry
  | expiringNonceReplay
  | expiringNonceSetFull
  deriving DecidableEq, Repr

/-- The expiring-nonce part of the nonce manager. -/
structure NonceManagerStorage where
  /-- Replay hash to `valid_before`; zero is not seen. -/
  expiringNonceSeen : B256 → ℕ
  expiringNonceRing : ℕ → B256
  expiringNonceRingPtr : ℕ
  /-- The account of the precompile has its marker byte code. -/
  initialized : Bool

namespace NonceManagerStorage

def replayBufferCapacity : ℕ := 300000

/-- In milliseconds. -/
def nonceFreeExpiryWindow : ℕ := 30000

def empty : NonceManagerStorage where
  expiringNonceSeen _ := 0
  expiringNonceRing _ := FixedBytes.zero 32
  expiringNonceRingPtr := 0
  initialized := false

/-- The block timestamp in milliseconds. -/
def nowMillis (timestamp : ℕ) : ℕ := satMul (min timestamp u64Max) 1000

def isExpiringNonceSeen (s : NonceManagerStorage) (hash : B256) (now : ℕ) : Bool :=
  let expiry := s.expiringNonceSeen hash
  decide (expiry ≠ 0) && decide (expiry > now)

/-- The seen set without the occupant of the slot at the pointer; `none` while it has not
expired. -/
def reclaim (s : NonceManagerStorage) (now : ℕ) : Option (B256 → ℕ) :=
  let oldHash := s.expiringNonceRing s.expiringNonceRingPtr
  if oldHash ≠ FixedBytes.zero 32 then
    let oldExpiry := s.expiringNonceSeen oldHash
    if oldExpiry ≠ 0 ∧ oldExpiry > now then none
    else some (update s.expiringNonceSeen oldHash 0)
  else some s.expiringNonceSeen

/-- The storage with a new entry at the pointer. -/
def record (s : NonceManagerStorage) (seen : B256 → ℕ) (hash : B256) (validBefore : ℕ) :
    NonceManagerStorage :=
  let ptr := s.expiringNonceRingPtr
  let incremented := (ptr + 1) % 2 ^ 32
  { expiringNonceSeen := update seen hash validBefore
    expiringNonceRing := update s.expiringNonceRing ptr hash
    expiringNonceRingPtr := if incremented ≥ replayBufferCapacity then 0 else incremented
    initialized := true }

/-- Validates and records a replay hash; the timestamp is that of the block. -/
def checkAndMarkExpiringNonce (s : NonceManagerStorage) (timestamp : ℕ) (hash : B256)
    (validBefore : ℕ) : Except NonceError Unit × NonceManagerStorage :=
  let now := nowMillis timestamp
  if validBefore ≤ now ∨ validBefore > satAdd now nonceFreeExpiryWindow then
    (.error .invalidExpiringNonceExpiry, s)
  else
    let seenExpiry := s.expiringNonceSeen hash
    if seenExpiry ≠ 0 ∧ seenExpiry > now then (.error .expiringNonceReplay, s)
    else
      match s.reclaim now with
      -- the checkpoint takes back the initialization
      | none => (.error .expiringNonceSetFull, s)
      | some seen => (.ok (), s.record seen hash validBefore)

end NonceManagerStorage

/-! ## Histories -/

structure ExpiringNonceCall where
  timestamp : ℕ
  hash : B256
  validBefore : ℕ

namespace ExpiringNonceCall

def now (c : ExpiringNonceCall) : ℕ := NonceManagerStorage.nowMillis c.timestamp

theorem now_mono {c d : ExpiringNonceCall} (h : c.timestamp ≤ d.timestamp) : c.now ≤ d.now := by
  unfold now NonceManagerStorage.nowMillis satMul
  omega

end ExpiringNonceCall

namespace NonceManagerStorage

def apply (s : NonceManagerStorage) (c : ExpiringNonceCall) :
    Except NonceError Unit × NonceManagerStorage :=
  s.checkAndMarkExpiringNonce c.timestamp c.hash c.validBefore

/-- One more call, behind the accepted ones. -/
def step (p : List ExpiringNonceCall × NonceManagerStorage) (c : ExpiringNonceCall) :
    List ExpiringNonceCall × NonceManagerStorage :=
  match p.2.apply c with
  | (.ok (), s) => (p.1 ++ [c], s)
  | (.error _, s) => (p.1, s)

/-- The accepted calls and the storage, from empty storage on. -/
def history (calls : List ExpiringNonceCall) : List ExpiringNonceCall × NonceManagerStorage :=
  calls.foldl step ([], empty)

/-! ## One call -/

variable {s s' : NonceManagerStorage} {c : ExpiringNonceCall}

theorem apply_error {e : NonceError} (h : (s.apply c).1 = .error e) : (s.apply c).2 = s := by
  unfold apply checkAndMarkExpiringNonce at h ⊢
  simp only at h ⊢
  split_ifs at h ⊢
  · rfl
  · rfl
  · split
    · rfl
    · rename_i hseen
      simp only [hseen] at h
      cases h

/-- An accepted call is within its window, is not seen, and reclaims a slot that is free. -/
theorem apply_ok (h : s.apply c = (.ok (), s')) :
    c.now < c.validBefore ∧ c.validBefore ≤ satAdd c.now nonceFreeExpiryWindow ∧
      s.expiringNonceSeen c.hash ≤ c.now ∧
      ∃ seen, s.reclaim c.now = some seen ∧ s' = s.record seen c.hash c.validBefore := by
  unfold apply checkAndMarkExpiringNonce at h
  simp only at h
  split_ifs at h with hwindow hseen
  · cases h
  · cases h
  · split at h
    · cases h
    rename_i seen hreclaim
    cases h
    unfold ExpiringNonceCall.now
    exact ⟨by omega, by omega, by omega, seen, hreclaim, rfl⟩

/-- The set is full only while the oldest entry has not expired. -/
theorem apply_full (h : (s.apply c).1 = .error .expiringNonceSetFull) : s.reclaim c.now = none := by
  unfold apply checkAndMarkExpiringNonce at h
  simp only at h
  split_ifs at h with hwindow hseen
  · cases h
  · cases h
  · split at h
    · rename_i hreclaim
      exact hreclaim
    · cases h

variable {now : ℕ}

/-- A reclaimed slot was empty, or its entry has expired. -/
theorem reclaim_some {seen : B256 → ℕ} (h : s.reclaim now = some seen) :
    (s.expiringNonceRing s.expiringNonceRingPtr = FixedBytes.zero 32 ∧ seen = s.expiringNonceSeen) ∨
      (s.expiringNonceSeen (s.expiringNonceRing s.expiringNonceRingPtr) ≤ now ∧
        seen = update s.expiringNonceSeen (s.expiringNonceRing s.expiringNonceRingPtr) 0) := by
  unfold reclaim at h
  simp only at h
  split_ifs at h with hold hexpiry <;> obtain rfl := Option.some.inj h
  · exact .inr ⟨by omega, rfl⟩
  · exact .inl ⟨not_not.mp hold, rfl⟩

/-! ## The invariant -/

/-- The storage after the accepted calls `acc`, none later than `now`. -/
structure Tracks (acc : List ExpiringNonceCall) (now : ℕ) (s : NonceManagerStorage) : Prop where
  ring : Ring.Holds replayBufferCapacity (FixedBytes.zero 32) (acc.map (·.hash))
    s.expiringNonceRing s.expiringNonceRingPtr
  nodup : (acc.map (·.hash)).Nodup
  nonzero : ∀ a ∈ acc, a.hash ≠ FixedBytes.zero 32
  window : ∀ a ∈ acc, a.now < a.validBefore ∧ a.validBefore ≤ a.now + nonceFreeExpiryWindow
  sorted : acc.Pairwise (·.now ≤ ·.now)
  live : ∀ k a, acc[k]? = some a → acc.length ≤ k + replayBufferCapacity →
    s.expiringNonceSeen a.hash = a.validBefore
  /-- What has left the ring is forgotten and has expired. -/
  gone : ∀ k a, acc[k]? = some a → k + replayBufferCapacity < acc.length →
    s.expiringNonceSeen a.hash = 0 ∧ a.validBefore ≤ now
  unseen : ∀ h, h ∉ acc.map (·.hash) → s.expiringNonceSeen h = 0
  before : ∀ a ∈ acc, a.now ≤ now

namespace Tracks

variable {acc : List ExpiringNonceCall} {now : ℕ}

theorem empty : Tracks [] 0 NonceManagerStorage.empty where
  ring := Ring.Holds.nil _ _
  nodup := nodup_nil
  nonzero := nofun
  window := nofun
  sorted := .nil
  live := by simp
  gone := by simp
  unseen _ _ := rfl
  before := nofun

theorem capacity_pos : 0 < replayBufferCapacity := by decide

section

variable (h : Tracks acc now s)

include h

theorem mono {now' : ℕ} (hle : now ≤ now') : Tracks acc now' s :=
  { h with
    gone := fun k a ha hk => ⟨(h.gone k a ha hk).1, (h.gone k a ha hk).2.trans hle⟩
    before := fun a ha => (h.before a ha).trans hle }

/-- A hash that was accepted is rejected for as long as it is valid. -/
theorem fresh_of_ok (hnow : now ≤ c.now)
    (hsame : ∀ a ∈ acc, a.hash = c.hash → a.validBefore = c.validBefore)
    (hok : s.apply c = (.ok (), s')) : c.hash ∉ acc.map (·.hash) := by
  obtain ⟨hvalid, -, hseen, -⟩ := apply_ok hok
  intro hmem
  obtain ⟨a, ha, hhash⟩ := mem_map.mp hmem
  have hbefore := hsame a ha hhash
  obtain ⟨k, hk⟩ := mem_iff_getElem?.mp ha
  rcases lt_or_ge (k + replayBufferCapacity) acc.length with hgone | hlive
  · have := (h.gone k a hk hgone).2
    omega
  · have := h.live k a hk hlive
    rw [hhash] at this
    omega

theorem index_eq {j k : ℕ} {a b : ExpiringNonceCall} (hj : acc[j]? = some a)
    (hk : acc[k]? = some b) (hhash : a.hash = b.hash) : j = k := by
  have hlt : j < (acc.map (·.hash)).length := by
    rw [length_map]
    exact (List.getElem?_eq_some_iff.mp hj).1
  refine (getElem?_inj hlt h.nodup).mp ?_
  rw [getElem?_map, getElem?_map, hj, hk, Option.map_some, Option.map_some, hhash]

/-- The entry that the next write reclaims. -/
theorem oldest (hfull : replayBufferCapacity ≤ acc.length) :
    ∃ a, acc[acc.length - replayBufferCapacity]? = some a ∧
      s.expiringNonceRing s.expiringNonceRingPtr = a.hash ∧
      s.expiringNonceSeen a.hash = a.validBefore := by
  have hslot := h.ring.at_ptr_of_le capacity_pos (by rwa [length_map])
  rw [length_map, getElem?_map, Option.map_eq_some_iff] at hslot
  obtain ⟨a, ha, hhash⟩ := hslot
  exact ⟨a, ha, hhash.symm, h.live _ a ha (by omega)⟩

theorem unused (hfree : acc.length < replayBufferCapacity) :
    s.expiringNonceRing s.expiringNonceRingPtr = FixedBytes.zero 32 :=
  h.ring.at_ptr_of_lt (by rwa [length_map])

theorem apply_ok (hnow : now ≤ c.now) (hnonzero : c.hash ≠ FixedBytes.zero 32)
    (hsame : ∀ a ∈ acc, a.hash = c.hash → a.validBefore = c.validBefore)
    (hok : s.apply c = (.ok (), s')) : Tracks (acc ++ [c]) c.now s' := by
  have hfresh := h.fresh_of_ok hnow hsame hok
  obtain ⟨hvalid, hwindow, -, seen, hreclaim, rfl⟩ := NonceManagerStorage.apply_ok hok
  have hne : ∀ a ∈ acc, a.hash ≠ c.hash := fun a ha heq =>
    hfresh (heq ▸ mem_map_of_mem ha)
  -- what reclaiming changes: only the entry that leaves the ring, which has expired
  have hseen : ∀ h', seen h' = s.expiringNonceSeen h' ∨ seen h' = 0 := by
    intro h'
    rcases reclaim_some hreclaim with ⟨-, rfl⟩ | ⟨-, rfl⟩
    · exact .inl rfl
    · rcases eq_or_ne h' (s.expiringNonceRing s.expiringNonceRingPtr) with rfl | hother
      · exact .inr (update_self _ _ _)
      · exact .inl (update_of_ne hother _ _)
  have hkept : ∀ k a, acc[k]? = some a → acc.length < k + replayBufferCapacity →
      seen a.hash = a.validBefore := by
    intro k a ha hk
    rw [← h.live k a ha hk.le]
    rcases reclaim_some hreclaim with ⟨-, rfl⟩ | ⟨-, rfl⟩
    · rfl
    · refine update_of_ne (fun heq => ?_) _ _
      rcases lt_or_ge acc.length replayBufferCapacity with hfree | hfull
      · exact h.nonzero a (mem_of_getElem? ha) (heq.trans (h.unused hfree))
      · obtain ⟨b, hb, hring, -⟩ := h.oldest hfull
        have := h.index_eq ha hb (heq.trans hring)
        omega
  have hleft : ∀ k a, acc[k]? = some a → k + replayBufferCapacity = acc.length →
      seen a.hash = 0 ∧ a.validBefore ≤ c.now := by
    intro k a ha hk
    obtain ⟨b, hb, hring, hlive⟩ := h.oldest (by omega)
    have hindex : k = acc.length - replayBufferCapacity := by omega
    rw [← hindex] at hb
    obtain rfl : a = b := Option.some.inj (ha.symm.trans hb)
    rcases reclaim_some hreclaim with ⟨hzero, -⟩ | ⟨hexpired, rfl⟩
    · exact absurd (hring.symm.trans hzero) (h.nonzero a (mem_of_getElem? ha))
    · rw [hring] at hexpired ⊢
      exact ⟨update_self _ _ _, hlive ▸ hexpired⟩
  refine ⟨?_, ?_, ?_, ?_, ?_, fun k a ha hk => ?_, fun k a ha hk => ?_, fun h' hh' => ?_, ?_⟩
  · have hpush := h.ring.push capacity_pos c.hash
    have hptr : (s.record seen c.hash c.validBefore).expiringNonceRingPtr =
        Ring.advance replayBufferCapacity s.expiringNonceRingPtr := by
      have hlt := h.ring.ptr_lt capacity_pos
      have hword : replayBufferCapacity < 2 ^ 32 := by decide
      unfold record Ring.advance
      simp only
      rw [mod_eq_of_lt (by omega)]
    rwa [map_append, hptr]
  · rw [map_append, map_singleton, nodup_append]
    refine ⟨h.nodup, nodup_singleton _, fun i hi j hj heq => ?_⟩
    rw [mem_singleton.mp hj] at heq
    exact hfresh (heq ▸ hi)
  · exact forall_mem_append.mpr ⟨h.nonzero, by simpa using hnonzero⟩
  · have := satAdd_le c.now nonceFreeExpiryWindow
    exact forall_mem_append.mpr ⟨h.window, by simpa using ⟨hvalid, by omega⟩⟩
  · rw [pairwise_append]
    refine ⟨h.sorted, pairwise_singleton _ _, fun a ha b hb => ?_⟩
    rw [mem_singleton.mp hb]
    exact (h.before a ha).trans hnow
  · rw [length_append, length_singleton] at hk
    rcases Ring.getElem?_concat_eq_some ha with hold | ⟨-, rfl⟩
    · unfold record
      simp only
      rw [update_of_ne (hne a (mem_of_getElem? hold))]
      exact hkept k a hold (by omega)
    · exact update_self _ _ _
  · rw [length_append, length_singleton] at hk
    rcases Ring.getElem?_concat_eq_some ha with hold | ⟨rfl, -⟩
    · unfold record
      simp only
      rw [update_of_ne (hne a (mem_of_getElem? hold))]
      rcases lt_or_ge (k + replayBufferCapacity) acc.length with hgone | hlast
      · obtain ⟨hzero, hexpired⟩ := h.gone k a hold hgone
        refine ⟨?_, hexpired.trans hnow⟩
        rcases hseen a.hash with heq | heq
        · rw [heq, hzero]
        · exact heq
      · exact hleft k a hold (by omega)
    · have := capacity_pos
      omega
  · rw [map_append, map_singleton, mem_append, mem_singleton, not_or] at hh'
    unfold record
    simp only
    rw [update_of_ne hh'.2]
    rcases hseen h' with heq | heq
    · rw [heq, h.unseen h' hh'.1]
    · exact heq
  · refine forall_mem_append.mpr ⟨fun a ha => (h.before a ha).trans hnow, by simp⟩

theorem recent_of_seen {hash : B256} (hseen : s.expiringNonceSeen hash ≠ 0) :
    ∃ k a, acc[k]? = some a ∧ a.hash = hash ∧ acc.length ≤ k + replayBufferCapacity := by
  have hmem : hash ∈ acc.map (·.hash) := by
    by_contra hnot
    exact hseen (h.unseen hash hnot)
  obtain ⟨a, ha, rfl⟩ := mem_map.mp hmem
  obtain ⟨k, hk⟩ := mem_iff_getElem?.mp ha
  refine ⟨k, a, hk, rfl, ?_⟩
  by_contra hgone
  exact hseen (h.gone k a hk (by omega)).1

theorem slot_of_seen {hash : B256} (hseen : s.expiringNonceSeen hash ≠ 0) :
    ∃ i < replayBufferCapacity, s.expiringNonceRing i = hash ∧
      ∀ j, s.expiringNonceRing j = hash → j = i := by
  obtain ⟨k, a, hk, rfl, hrecent⟩ := h.recent_of_seen hseen
  have hnonzero := h.nonzero a (mem_of_getElem? hk)
  have hslot : s.expiringNonceRing (k % replayBufferCapacity) = a.hash :=
    h.ring.recent k a.hash (by rw [getElem?_map, hk]; rfl) (by rwa [length_map])
  refine ⟨k % replayBufferCapacity, mod_lt _ capacity_pos, hslot, fun j hj => ?_⟩
  -- slot `j` was written, by the last entry with that position
  have hused : j < replayBufferCapacity ∧ j < acc.length := by
    by_contra hnot
    rw [not_and_or, not_lt, not_lt] at hnot
    exact hnonzero (hj ▸ h.ring.unused j (by rwa [length_map]))
  have hcap := capacity_pos
  have hquot := div_add_mod (acc.length - 1 - j) replayBufferCapacity
  have hmod := mod_lt (acc.length - 1 - j) hcap
  set m := replayBufferCapacity * ((acc.length - 1 - j) / replayBufferCapacity) with hm
  have hlt : j + m < acc.length := by omega
  obtain ⟨b, hb⟩ : ∃ b, acc[j + m]? = some b := ⟨_, getElem?_eq_getElem hlt⟩
  have hposition : (j + m) % replayBufferCapacity = j := by
    rw [add_mul_mod_self_left, mod_eq_of_lt hused.1]
  have hlast := h.ring.recent (j + m) b.hash (by rw [getElem?_map, hb]; rfl) (by rw [length_map]; omega)
  rw [hposition, hj] at hlast
  rw [h.index_eq hk hb hlast, hposition]

theorem encard_seen_le : Set.encard {hash | s.expiringNonceSeen hash ≠ 0} ≤ replayBufferCapacity := by
  set recent := (acc.map (·.hash)).drop (acc.length - replayBufferCapacity) with hrecent
  have hsub : {hash | s.expiringNonceSeen hash ≠ 0} ⊆ (recent.toFinset : Set B256) := by
    intro hash hseen
    obtain ⟨k, a, hk, rfl, hle⟩ := h.recent_of_seen hseen
    rw [coe_toFinset, Set.mem_ofPred_eq, mem_iff_getElem?]
    refine ⟨k - (acc.length - replayBufferCapacity), ?_⟩
    rw [getElem?_drop, getElem?_map,
      show acc.length - replayBufferCapacity + (k - (acc.length - replayBufferCapacity)) = k by omega,
      hk]
    rfl
  calc Set.encard {hash | s.expiringNonceSeen hash ≠ 0}
      ≤ Set.encard (recent.toFinset : Set B256) := Set.encard_le_encard hsub
    _ = recent.toFinset.card := Set.encard_coe_eq_coe_finsetCard _
    _ ≤ recent.length := by exact_mod_cast recent.toFinset_card_le
    _ ≤ replayBufferCapacity := by
      rw [length_drop, length_map]
      exact_mod_cast (by omega)

/-- While the set is full, the last `replayBufferCapacity` calls are recent. -/
theorem recent_of_full (hfull : (s.apply c).1 = .error .expiringNonceSetFull) :
    replayBufferCapacity ≤ (acc.filter fun a => c.now < a.now + nonceFreeExpiryWindow).length := by
  have hreclaim := apply_full hfull
  unfold reclaim at hreclaim
  simp only at hreclaim
  split_ifs at hreclaim with hoccupied hlive
  obtain ⟨-, hexpiry⟩ := hlive
  have hlength : replayBufferCapacity ≤ acc.length := by
    by_contra hfree
    exact hoccupied (h.unused (not_le.mp hfree))
  obtain ⟨a, ha, hring, hseen⟩ := h.oldest hlength
  rw [hring] at hexpiry
  have hwindow := (h.window a (mem_of_getElem? ha)).2
  -- the entries from the oldest one on are not before it
  have hdrop : (acc.drop (acc.length - replayBufferCapacity)).length = replayBufferCapacity := by
    rw [length_drop]
    omega
  have hsorted := h.sorted.sublist (drop_sublist (acc.length - replayBufferCapacity) acc)
  have hlater : ∀ b ∈ acc.drop (acc.length - replayBufferCapacity), a.now ≤ b.now := by
    obtain ⟨hlt, hget⟩ := List.getElem?_eq_some_iff.mp ha
    rw [drop_eq_getElem_cons hlt, hget] at hsorted ⊢
    intro b hb
    rcases mem_cons.mp hb with rfl | hb
    · exact le_rfl
    · exact (pairwise_cons.mp hsorted).1 b hb
  have hkeep : (acc.drop (acc.length - replayBufferCapacity)).filter
      (fun b => c.now < b.now + nonceFreeExpiryWindow) =
        acc.drop (acc.length - replayBufferCapacity) := by
    refine filter_eq_self.mpr fun b hb => decide_eq_true ?_
    have := hlater b hb
    omega
  calc replayBufferCapacity
      = ((acc.drop (acc.length - replayBufferCapacity)).filter
          fun b => c.now < b.now + nonceFreeExpiryWindow).length := by rw [hkeep, hdrop]
    _ ≤ _ := ((drop_sublist _ acc).filter _).length_le

end

end Tracks

theorem tracks_history {calls : List ExpiringNonceCall}
    (hsorted : calls.Pairwise (·.timestamp ≤ ·.timestamp))
    (hsame : ∀ c ∈ calls, ∀ d ∈ calls, c.hash = d.hash → c.validBefore = d.validBefore)
    (hnonzero : ∀ c ∈ calls, c.hash ≠ FixedBytes.zero 32) (hnow : ∀ c ∈ calls, c.now ≤ now) :
    Tracks (history calls).1 now (history calls).2 ∧ (history calls).1 ⊆ calls := by
  induction calls using reverseRecOn generalizing now with
  | nil => exact ⟨Tracks.empty.mono (zero_le now), List.Subset.refl _⟩
  | append_singleton calls c ih =>
    rw [pairwise_append] at hsorted
    have hmem : ∀ d ∈ calls, d ∈ calls ++ [c] := fun d hd => mem_append_left _ hd
    have hbefore : ∀ d ∈ calls, d.now ≤ c.now := fun d hd =>
      ExpiringNonceCall.now_mono (hsorted.2.2 d hd c (mem_singleton_self c))
    obtain ⟨htracks, hsub⟩ := ih hsorted.1 (fun d hd d' hd' => hsame d (hmem d hd) d' (hmem d' hd'))
      (fun d hd => hnonzero d (hmem d hd)) hbefore
    have hlast : c ∈ calls ++ [c] := by simp
    rw [history, List.foldl_concat, ← history, step]
    split
    · rename_i s' hok
      refine ⟨(htracks.apply_ok le_rfl (hnonzero c hlast) (fun a ha => ?_) hok).mono (hnow c hlast), ?_⟩
      · exact hsame a (hmem a (hsub ha)) c hlast
      · exact append_subset.mpr ⟨fun d hd => hmem d (hsub hd), by simp⟩
    · rename_i e s' herror
      have hunchanged : s' = (history calls).2 := by
        have := apply_error (s := (history calls).2) (c := c) (e := e) (by rw [herror])
        rwa [herror] at this
      rw [hunchanged]
      exact ⟨htracks.mono (hnow c hlast), fun d hd => hmem d (hsub hd)⟩

/-- In every history of calls at non-decreasing times, in which equal hashes have equal expiries and
no hash is zero: no hash is accepted twice, the set is full only with `replayBufferCapacity`
accepted calls within the window, at most that many hashes are seen, each in one slot of the ring,
and a rejected call changes nothing. -/
theorem replay_protection (calls : List ExpiringNonceCall)
    (hsorted : calls.Pairwise (·.timestamp ≤ ·.timestamp))
    (hsame : ∀ c ∈ calls, ∀ d ∈ calls, c.hash = d.hash → c.validBefore = d.validBefore)
    (hnonzero : ∀ c ∈ calls, c.hash ≠ FixedBytes.zero 32) :
    ((history calls).1.map (·.hash)).Nodup ∧
      (∀ before c after, calls = before ++ c :: after →
        ((history before).2.apply c).1 = .error .expiringNonceSetFull →
          replayBufferCapacity ≤ ((history before).1.filter
            fun d => d.now ≤ c.now ∧ c.now < d.now + nonceFreeExpiryWindow).length) ∧
      (∀ before after, calls = before ++ after →
        Set.encard {hash | (history before).2.expiringNonceSeen hash ≠ 0} ≤ replayBufferCapacity ∧
        (∀ hash, (history before).2.expiringNonceSeen hash ≠ 0 →
          ∃ i < replayBufferCapacity, (history before).2.expiringNonceRing i = hash ∧
            ∀ j, (history before).2.expiringNonceRing j = hash → j = i) ∧
        (history before).2.expiringNonceRingPtr < replayBufferCapacity) ∧
      ∀ before c after, calls = before ++ c :: after →
        ∀ e, ((history before).2.apply c).1 = .error e →
          ((history before).2.apply c).2 = (history before).2 := by
  -- the invariant at every moment
  have htracks : ∀ before after, calls = before ++ after → ∀ now, (∀ d ∈ before, d.now ≤ now) →
      Tracks (history before).1 now (history before).2 := by
    rintro before after rfl now hnow
    have hmem : ∀ d ∈ before, d ∈ before ++ after := fun d hd => mem_append_left _ hd
    exact (tracks_history (pairwise_append.mp hsorted).1
      (fun c hc d hd => hsame c (hmem c hc) d (hmem d hd)) (fun c hc => hnonzero c (hmem c hc))
      hnow).1
  have hbound : ∀ before : List ExpiringNonceCall, ∃ now, ∀ d ∈ before, d.now ≤ now := by
    intro before
    refine ⟨(before.map (·.now)).sum, fun d hd => ?_⟩
    exact single_le_sum (by simp) _ (mem_map_of_mem hd)
  refine ⟨?_, ?_, ?_, ?_⟩
  · obtain ⟨now, hnow⟩ := hbound calls
    exact (htracks calls [] (append_nil _).symm now hnow).nodup
  · intro before c after hcalls hfull
    have hbefore : ∀ d ∈ before, d.now ≤ c.now := by
      rw [hcalls, pairwise_append] at hsorted
      exact fun d hd => ExpiringNonceCall.now_mono (hsorted.2.2 d hd c mem_cons_self)
    have h := htracks before (c :: after) hcalls c.now hbefore
    have hrecent := h.recent_of_full hfull
    rw [filter_congr (q := fun d => decide (c.now < d.now + nonceFreeExpiryWindow))]
    · exact hrecent
    · intro d hd
      have := h.before d hd
      simp [this]
  · intro before after hcalls
    obtain ⟨now, hnow⟩ := hbound before
    have h := htracks before after hcalls now hnow
    exact ⟨h.encard_seen_le, fun hash hseen => h.slot_of_seen hseen, h.ring.ptr_lt Tracks.capacity_pos⟩
  · intro before c after _ e herror
    exact apply_error herror

/-- One hash twice, and another one. -/
def sampleNonceCalls : List ExpiringNonceCall :=
  [⟨10, ⟨replicate 32 1, length_replicate⟩, 20000⟩, ⟨12, ⟨replicate 32 1, length_replicate⟩, 20000⟩,
    ⟨30, ⟨replicate 32 2, length_replicate⟩, 45000⟩]

theorem replay_protection_sample :
    (history sampleNonceCalls).1.length = 2 ∧ ((history sampleNonceCalls).1.map (·.hash)).Nodup := by
  refine ⟨by decide, (replay_protection sampleNonceCalls ?_ ?_ ?_).1⟩
  · simp [sampleNonceCalls]
  · simp [sampleNonceCalls]
  · simp [sampleNonceCalls]
    decide

end NonceManagerStorage

end NodeReth
