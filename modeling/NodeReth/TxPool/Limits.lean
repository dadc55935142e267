import NodeReth.Lib.FinMaps
import NodeReth.Lib.Sorted
import NodeReth.Primitives

/-!
# Admission limits

The counters and the payer books of `txpool/src/limits.rs`. A payer book keeps its reservations
twice, by hash and by priority; `PayerBook.Valid` says that the two agree and that the reserved sum
is theirs. Hashes are compared as big-endian numbers, which is the order of their bytes.
-/

namespace NodeReth

open Bytes FinMap Function List

abbrev TxHash := B256

/-! ## Counters -/

/-- The entries of the counters; an account without an entry counts zero. -/
abbrev InflightCounters := Address → Option ℕ

namespace InflightCounters

def u32Max : ℕ := 2 ^ 32 - 1

def new : InflightCounters := fun _ => none

def get (c : InflightCounters) (account : Address) : ℕ := (c account).getD 0

/-- A refused increment still leaves the entry behind. -/
def tryIncrement (c : InflightCounters) (account : Address) (cap : ℕ) : Bool × InflightCounters :=
  if c.get account ≥ cap then (false, update c account (some (c.get account)))
  else (true, update c account (some (c.get account + 1)))

def decrement (c : InflightCounters) (account : Address) : InflightCounters :=
  match c account with
  | some entry =>
    if entry - 1 = 0 then update c account none
    else update c account (some (entry - 1))
  | none => c

variable {c c' : InflightCounters} {account : Address} {cap : ℕ}

theorem tryIncrement_true (h : c.tryIncrement account cap = (true, c')) :
    c.get account < cap ∧ ∀ a, c'.get a = c.get a + if a = account then 1 else 0 := by
  unfold tryIncrement at h
  split_ifs at h with hcap <;> cases h
  · refine ⟨Nat.lt_of_not_le hcap, fun a => ?_⟩
    by_cases ha : a = account
    · subst ha
      simp [get]
    · simp [get, ha]

theorem tryIncrement_false (h : c.tryIncrement account cap = (false, c')) :
    cap ≤ c.get account ∧ ∀ a, c'.get a = c.get a := by
  unfold tryIncrement at h
  split_ifs at h with hcap <;> cases h
  · refine ⟨hcap, fun a => ?_⟩
    by_cases ha : a = account
    · subst ha
      simp [get]
    · simp [get, ha]

theorem tryIncrement_of_lt (h : c.get account < cap) : (c.tryIncrement account cap).1 = true := by
  unfold tryIncrement
  rw [if_neg (Nat.not_le.mpr h)]

theorem get_decrement (a : Address) :
    (c.decrement account).get a = c.get a - if a = account then 1 else 0 := by
  unfold decrement
  cases hc : c account with
  | none =>
    by_cases ha : a = account
    · subst ha
      simp [get, hc]
    · simp [ha]
  | some entry =>
    by_cases ha : a = account
    · subst ha
      by_cases hentry : entry - 1 = 0 <;> simp [get, hc, hentry]
    · by_cases hentry : entry - 1 = 0 <;> simp [get, hentry, ha]

end InflightCounters

/-! ## Payer books -/

/-- The reservations of one balance-bounded payer. -/
structure PayerBook where
  balance : ℕ
  reserved : ℕ
  /-- Ascending by priority and hash; the front is evicted first. -/
  byPriority : List ((ℕ × TxHash) × ℕ)
  /-- Priority and maximum cost. -/
  entries : FinMap TxHash (ℕ × ℕ)

/-- The position of a reservation: priority first, then hash. -/
def PayerBook.rank (key : ℕ × TxHash) : ℕ := key.1 * 2 ^ 256 + ofBe key.2.val

namespace PayerBook

def new (balance : ℕ) : PayerBook := ⟨balance, 0, [], ∅⟩

def isEmpty (b : PayerBook) : Bool := b.entries.entries.isEmpty

def tryReserve (b : PayerBook) (hash : TxHash) (maxCost priority : ℕ) : Bool × PayerBook :=
  if (b.entries.lookup hash).isSome then (true, b)
  else
    let newReserved := b.reserved + maxCost
    -- the checked addition
    if newReserved ≥ 2 ^ 256 then (false, b)
    else if newReserved > b.balance then (false, b)
    else
      (true,
        { b with
          byPriority := b.byPriority.orderedInsert (fun x y => rank x.1 ≤ rank y.1)
            ((priority, hash), maxCost)
          entries := b.entries.insert hash (priority, maxCost)
          reserved := newReserved })

def remove (b : PayerBook) (hash : TxHash) : Bool × PayerBook :=
  match b.entries.lookup hash with
  | none => (false, b)
  | some (priority, maxCost) =>
    (true,
      { b with
        entries := b.entries.erase hash
        byPriority := b.byPriority.eraseP (·.1 = (priority, hash))
        reserved := b.reserved - maxCost })

/-- Evicts from the front until the reservations fit; `none` when the assertion fails or the rounds
run out. -/
def evict : ℕ → PayerBook → Option (List TxHash × PayerBook)
  | 0, _ => none
  | rounds + 1, b =>
    if b.reserved > b.balance then
      match b.byPriority with
      | [] => some ([], b)
      | ((_, hash), _) :: _ =>
        match b.remove hash with
        | (false, _) => none
        | (true, b) => (evict rounds b).map fun (evicted, b) => (hash :: evicted, b)
    else some ([], b)

def setBalance (b : PayerBook) (balance : ℕ) : Option (List TxHash × PayerBook) :=
  evict (b.byPriority.length + 1) { b with balance }

/-- The two views of the reservations agree. -/
structure Valid (b : PayerBook) : Prop where
  sorted : b.byPriority.Pairwise fun x y => rank x.1 < rank y.1
  mem_iff : ∀ priority hash cost, ((priority, hash), cost) ∈ b.byPriority ↔
    b.entries.lookup hash = some (priority, cost)
  reserved_eq : b.reserved = b.entries.total fun _ v => v.2

theorem valid_new (balance : ℕ) : (new balance).Valid :=
  ⟨List.Pairwise.nil, fun _ _ _ => by simp [new], rfl⟩

theorem isEmpty_iff {b : PayerBook} : b.isEmpty = true ↔ b.entries = ∅ := by
  unfold isEmpty
  rw [List.isEmpty_iff]
  exact ⟨fun h => AList.ext h, fun h => congrArg AList.entries h⟩

theorem rank_injective {x y : ℕ × TxHash} (h : rank x = rank y) : x = y := by
  have hx : ofBe x.2.val < 2 ^ 256 := by
    have := ofBe_lt x.2.val
    rwa [x.2.2] at this
  have hy : ofBe y.2.val < 2 ^ 256 := by
    have := ofBe_lt y.2.val
    rwa [y.2.2] at this
  unfold rank at h
  have hpriority : x.1 = y.1 := by omega
  have hhash : ofBe x.2.val = ofBe y.2.val := by omega
  refine Prod.ext hpriority (Subtype.ext ?_)
  rw [← toBe_ofBe_of_length x.2.2, hhash, toBe_ofBe_of_length y.2.2]

variable {b b' : PayerBook} {hash : TxHash} {maxCost priority : ℕ}

/-- A granted reservation is recorded in both views and fits the balance; removing it again gives
the book back. -/
theorem tryReserve_true (hb : b.Valid) (hnew : b.entries.lookup hash = none)
    (h : b.tryReserve hash maxCost priority = (true, b')) :
    b'.Valid ∧ b'.entries = b.entries.insert hash (priority, maxCost) ∧
      b'.reserved ≤ b'.balance ∧ b'.remove hash = (true, b) := by
  unfold tryReserve at h
  simp only [hnew, Option.isSome_none, Bool.false_eq_true, if_false] at h
  split_ifs at h with hadd hfit <;> cases h
  · have hnotin : hash ∉ b.entries := AList.lookup_eq_none.mp hnew
    have hfresh : ∀ x ∈ b.byPriority, x.1 ≠ (priority, hash) := by
      rintro ⟨⟨p, g⟩, cost⟩ hx heq
      cases heq
      rw [(hb.mem_iff _ _ _).mp hx] at hnew
      cases hnew
    refine ⟨⟨?_, fun p g cost => ?_, ?_⟩, rfl, Nat.le_of_not_lt hfit, ?_⟩
    · exact Sorted.pairwise_orderedInsert hb.sorted fun x hx heq => hfresh x hx (rank_injective heq)
    · rw [mem_orderedInsert, lookup_insert_eq, hb.mem_iff]
      by_cases hg : g = hash
      · subst hg
        rw [hnew]
        simp [eq_comm]
      · simp [hg]
    · rw [total_insert _ hnotin, hb.reserved_eq, Nat.add_comm]
    · unfold remove
      simp only [AList.lookup_insert, erase_insert hnotin, Nat.add_sub_cancel]
      rw [Sorted.eraseP_orderedInsert (by simp) fun x hx => by simpa using hfresh x hx]

theorem tryReserve_false (h : b.tryReserve hash maxCost priority = (false, b')) : b' = b := by
  unfold tryReserve at h
  split_ifs at h
  · cases h
  · simp only at h
    split_ifs at h <;> cases h
    · rfl
    · rfl

theorem remove_some (hb : b.Valid) (h : b.entries.lookup hash = some (priority, maxCost)) :
    ∃ b', b.remove hash = (true, b') ∧ b'.Valid ∧ b'.entries = b.entries.erase hash ∧
      b'.byPriority = b.byPriority.eraseP (·.1 = (priority, hash)) ∧
      b'.reserved + maxCost = b.reserved ∧ b'.balance = b.balance := by
  have hsum := total_erase (fun _ v => v.2) h
  have hle : maxCost ≤ b.reserved := by
    rw [hb.reserved_eq]
    exact le_total (fun _ v => v.2) h
  refine ⟨{ b with
    entries := b.entries.erase hash
    byPriority := b.byPriority.eraseP (·.1 = (priority, hash))
    reserved := b.reserved - maxCost }, ?_, ⟨?_, fun p g cost => ?_, ?_⟩, rfl, rfl,
    Nat.sub_add_cancel hle, rfl⟩
  · unfold remove
    rw [h]
  · exact hb.sorted.sublist eraseP_sublist
  · -- no two entries have the same key
    have hunique : b.byPriority.Pairwise fun x y =>
        ¬(decide (x.1 = (priority, hash)) = true ∧ decide (y.1 = (priority, hash)) = true) :=
      hb.sorted.imp fun hlt ⟨hx, hy⟩ => by
        rw [of_decide_eq_true hx, of_decide_eq_true hy] at hlt
        exact lt_irrefl _ hlt
    rw [Sorted.eraseP_eq_filter hunique, mem_filter, lookup_erase_eq, hb.mem_iff]
    by_cases hg : g = hash
    · subst hg
      rw [if_pos rfl, h]
      refine ⟨fun ⟨heq, hne⟩ => ?_, nofun⟩
      cases heq
      simp at hne
    · simp [hg]
  · show b.reserved - maxCost = total _ (b.entries.erase hash)
    rw [hb.reserved_eq]
    omega

def costs (l : List ((ℕ × TxHash) × ℕ)) : ℕ := (l.map Prod.snd).sum

/-- What an eviction of the front of the priorities leaves. -/
structure Evicts (b b' : PayerBook) (front : List ((ℕ × TxHash) × ℕ)) : Prop where
  valid : b'.Valid
  split : b.byPriority = front ++ b'.byPriority
  lookup : ∀ h, b'.entries.lookup h = if h ∈ front.map (·.1.2) then none else b.entries.lookup h
  reserved : b'.reserved + costs front = b.reserved
  fits : b'.reserved ≤ b'.balance
  balance : b'.balance = b.balance
  /-- Without its last reservation the front would not have been enough. -/
  needed : ∀ l x r, front = l ++ x :: r → b.balance < b'.reserved + costs (x :: r)

theorem evict_spec {rounds : ℕ} (hb : b.Valid) (hrounds : b.byPriority.length < rounds) :
    ∃ front b', evict rounds b = some (front.map (·.1.2), b') ∧ b.Evicts b' front := by
  induction rounds generalizing b with
  | zero => omega
  | succ rounds ih =>
    unfold evict
    split_ifs with hover
    · cases hlist : b.byPriority with
      | nil =>
        -- without reservations nothing is reserved
        have hempty : b.entries.total (fun _ v => v.2) = 0 := by
          have : b.entries = ∅ := by
            apply AList.ext
            refine eq_nil_iff_forall_not_mem.mpr fun e he => ?_
            have := (hb.mem_iff e.2.1 e.1 e.2.2).mpr (AList.mem_lookup_iff.mpr he)
            rw [hlist] at this
            cases this
          rw [this, total_empty]
        have := hb.reserved_eq
        omega
      | cons x rest =>
        obtain ⟨⟨p, g⟩, cost⟩ := x
        have hlookup : b.entries.lookup g = some (p, cost) :=
          (hb.mem_iff _ _ _).mp (by rw [hlist]; exact mem_cons_self)
        obtain ⟨b₁, hremove, hvalid, hentries, hpriority, hreserved, hbalance⟩ :=
          remove_some hb hlookup
        have hrest : b₁.byPriority = rest := by
          rw [hpriority, hlist, eraseP_cons_of_pos (by simp)]
        obtain ⟨front, b', hevict, he⟩ := ih hvalid (by
          rw [hrest]
          rw [hlist, length_cons] at hrounds
          omega)
        simp only [hremove, hevict]
        refine ⟨((p, g), cost) :: front, b', rfl, he.valid, ?_, fun h => ?_, ?_, he.fits,
          he.balance.trans hbalance, fun l y r hfront => ?_⟩
        · rw [cons_append, ← he.split, hrest, hlist]
        · rw [he.lookup, hentries, lookup_erase_eq]
          simp only [map_cons, mem_cons]
          by_cases hg : h = g
          · simp [hg]
          · simp only [hg, false_or, if_false]
        · have := he.reserved
          show b'.reserved + (cost + costs front) = b.reserved
          omega
        · cases l with cases hfront
          | nil =>
            have := he.reserved
            show b.balance < b'.reserved + (cost + costs front)
            omega
          | cons z l =>
            have := he.needed l y r rfl
            omega
    · refine ⟨[], b, rfl, hb, rfl, fun h => by simp, rfl, Nat.le_of_not_lt hover, rfl, ?_⟩
      intro l x r hfront
      simp at hfront

theorem setBalance_spec (hb : b.Valid) (balance : ℕ) :
    ∃ front b', b.setBalance balance = some (front.map (·.1.2), b') ∧
      { b with balance }.Evicts b' front :=
  evict_spec ⟨hb.sorted, hb.mem_iff, hb.reserved_eq⟩ (Nat.lt_succ_self _)

end PayerBook

end NodeReth
