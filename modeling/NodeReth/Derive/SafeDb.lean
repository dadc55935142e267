import NodeReth.Protocol.CheckBatch

/-!
# The safe head database

`SafeDB` of `consensus/safedb`: a table from the numbers of L1 blocks to the L2 blocks that became
safe with them. A reset removes the rows from the first one on that reaches the reset block, and
writes a row for the block at its L1 origin, also where it became safe with a later L1 block. As long
as the row of the L1 origin is the first one removed, the table is the history of the updates that
survive (`sound_of_inPlace`).
-/

namespace NodeReth

open Bytes List

/-- The rows of the table `safe_heads`, in the order of their keys. -/
structure SafeDB where
  rows : List (ℕ × FixedBytes 72)
  sorted : rows.Pairwise fun r s => r.1 < s.1

structure SafeHeadResponse where
  l1Block : BlockNumHash
  safeHead : BlockNumHash

inductive SafeDBError
  | notFound

namespace SafeDB

def encodeValue (l1Hash l2Hash : B256) (l2Number : ℕ) : FixedBytes 72 :=
  ⟨l1Hash.val ++ l2Hash.val ++ toBe 8 l2Number, by simp [l1Hash.2, l2Hash.2]⟩

def decodeValue (b : FixedBytes 72) : B256 × B256 × ℕ :=
  (b.sub 0 32 (by decide), b.sub 32 32 (by decide), ofBe (b.sub 64 8 (by decide)).val)

def l2Number (row : ℕ × FixedBytes 72) : ℕ := (decodeValue row.2).2.2

def insert (db : SafeDB) (key : ℕ) (value : FixedBytes 72) : SafeDB where
  rows := db.rows.filter (·.1 < key) ++ (key, value) :: db.rows.filter (key < ·.1)
  sorted := by
    refine pairwise_append.mpr ⟨db.sorted.filter _, pairwise_cons.mpr ⟨?_, db.sorted.filter _⟩, ?_⟩
    · simp
    · simp only [mem_filter, decide_eq_true_eq, mem_cons]
      rintro r ⟨-, hr⟩ s (rfl | ⟨-, hs⟩)
      · exact hr
      · exact hr.trans hs

def truncate (db : SafeDB) (key : ℕ) : SafeDB :=
  ⟨db.rows.filter (·.1 < key), db.sorted.filter _⟩

def safeHeadUpdated (db : SafeDB) (safeHead : L2BlockInfo) (l1Block : BlockInfo) : SafeDB :=
  db.insert l1Block.number (encodeValue l1Block.hash safeHead.blockInfo.hash safeHead.blockInfo.number)

/-- The key of the first row, from the L1 origin of the reset block on, that reaches it. -/
def firstKey (db : SafeDB) (reset : L2BlockInfo) : Option ℕ :=
  ((db.rows.filter (reset.l1Origin.number ≤ ·.1)).find?
    (reset.blockInfo.number ≤ l2Number ·)).map Prod.fst

def safeHeadReset (db : SafeDB) (reset : L2BlockInfo) : SafeDB :=
  match db.firstKey reset with
  | some fk => (db.truncate fk).insert reset.l1Origin.number
      (encodeValue reset.l1Origin.hash reset.blockInfo.hash reset.blockInfo.number)
  | none => db

def safeHeadAtL1 (db : SafeDB) (l1BlockNum : ℕ) : Except SafeDBError SafeHeadResponse :=
  match (db.rows.filter (·.1 ≤ l1BlockNum)).getLast? with
  | some row => .ok ⟨⟨row.1, (decodeValue row.2).1⟩, ⟨l2Number row, (decodeValue row.2).2.1⟩⟩
  | none => .error .notFound

def heads (db : SafeDB) : List (ℕ × ℕ) := db.rows.map fun row => (row.1, l2Number row)

theorem l2Number_encodeValue (key : ℕ) (a b : B256) {n : ℕ} (h : n < 2 ^ 64) :
    l2Number (key, encodeValue a b n) = n := by
  have hdrop : (a.val ++ b.val ++ toBe 8 n).drop 64 = toBe 8 n := drop_left' (by simp [a.2, b.2])
  show ofBe (((a.val ++ b.val ++ toBe 8 n).drop 64).take 8) = n
  rw [hdrop, take_of_length_le (by simp), ofBe_toBe h]

theorem heads_insert {db : SafeDB} {key : ℕ} (h : ∀ x ∈ db.heads, x.1 ≤ key) (a b : B256) {n : ℕ}
    (hn : n < 2 ^ 64) :
    (db.insert key (encodeValue a b n)).heads = db.heads.filter (·.1 < key) ++ [(key, n)] := by
  have hnone : db.rows.filter (key < ·.1) = [] :=
    filter_eq_nil_iff.mpr fun row hrow => by simpa using h _ (mem_map_of_mem hrow)
  simp only [heads, SafeDB.insert, hnone, filter_map, map_append, map_cons,
    l2Number_encodeValue _ _ _ hn]
  rfl

theorem heads_truncate (db : SafeDB) (key : ℕ) :
    (db.truncate key).heads = db.heads.filter (·.1 < key) := by
  rw [heads, heads, filter_map]
  rfl

/-- The reset removes the rows from the L1 origin on if that of the L1 origin reaches the block. -/
theorem firstKey_eq {db : SafeDB} {reset : L2BlockInfo} {x : ℕ × ℕ} (hx : x ∈ db.heads)
    (horigin : x.1 = reset.l1Origin.number) (hreach : reset.blockInfo.number ≤ x.2) :
    db.firstKey reset = some reset.l1Origin.number := by
  obtain ⟨row, hrow, rfl⟩ := mem_map.mp hx
  obtain ⟨before, after, hsplit⟩ := append_of_mem hrow
  have hsorted := db.sorted
  rw [hsplit] at hsorted
  have hbefore : before.filter (reset.l1Origin.number ≤ ·.1) = [] := by
    refine filter_eq_nil_iff.mpr fun r hr => ?_
    have := (pairwise_append.mp hsorted).2.2 r hr row mem_cons_self
    simp only [decide_eq_true_eq]
    omega
  simp only [firstKey, hsplit, filter_append, hbefore, nil_append]
  rw [filter_cons_of_pos (by simpa using horigin.ge), find?_cons_of_pos (by simpa using hreach)]
  exact congrArg some horigin

end SafeDB

/-! ## Runs -/

/-- An update that was accepted: the safe head, and the L1 block that it became safe with. -/
structure SafeUpdate where
  safeHead : L2BlockInfo
  l1Number : ℕ

namespace SafeUpdate

def l2Number (u : SafeUpdate) : ℕ := u.safeHead.blockInfo.number

def head (u : SafeUpdate) : ℕ × ℕ := (u.l1Number, u.l2Number)

end SafeUpdate

inductive SafeHeadCall
  | updated (safeHead : L2BlockInfo) (l1Block : BlockInfo)
  | reset (safeHead : L2BlockInfo)

/-- The table, the updates that survive, and the numbers that the next update has to reach. -/
structure SafeDBRun where
  db : SafeDB
  history : List SafeUpdate
  nextL1 : ℕ
  nextL2 : ℕ

namespace SafeDBRun

def start : SafeDBRun := ⟨⟨[], .nil⟩, [], 0, 0⟩

/-- An update takes the place of those for the same L1 block or later ones. A reset leaves the
updates below the reset block, and the one that made it safe, which now reaches just that far. -/
def step (s : SafeDBRun) : SafeHeadCall → SafeDBRun
  | .updated b l1 => ⟨s.db.safeHeadUpdated b l1,
      s.history.filter (·.l1Number < l1.number) ++ [⟨b, l1.number⟩],
      l1.number + 1, b.blockInfo.number⟩
  | .reset b => ⟨s.db.safeHeadReset b,
      s.history.filter (·.l2Number < b.blockInfo.number) ++
        ((s.history.find? (b.blockInfo.number ≤ ·.l2Number)).map (⟨b, ·.l1Number⟩)).toList,
      b.l1Origin.number, b.blockInfo.number⟩

/-- The block is on a chain with the updates that survive, at or below one of them. -/
def OnRecordedChain (s : SafeDBRun) (b : L2BlockInfo) : Prop :=
  ∃ chain : ℕ → L2BlockInfo, (∀ n, (chain n).blockInfo.number = n) ∧
    Monotone (fun n => (chain n).l1Origin.number) ∧
    (∀ u ∈ s.history, chain u.l2Number = u.safeHead) ∧ chain b.blockInfo.number = b ∧
    ∃ u ∈ s.history, b.blockInfo.number ≤ u.l2Number

def Valid (s : SafeDBRun) : SafeHeadCall → Prop
  | .updated b l1 => s.nextL1 ≤ l1.number ∧ s.nextL2 ≤ b.blockInfo.number ∧
      b.l1Origin.number ≤ l1.number ∧ b.blockInfo.number < 2 ^ 64
  | .reset b => s.OnRecordedChain b ∧ b.blockInfo.number < 2 ^ 64

/-- The L1 origin of the reset block has a row, which reaches the block. -/
def InPlace (s : SafeDBRun) : SafeHeadCall → Prop
  | .updated _ _ => True
  | .reset b => ∃ x ∈ s.db.heads, x.1 = b.l1Origin.number ∧ b.blockInfo.number ≤ x.2

/-- Every call meets the condition where it is made. -/
def Throughout (p : SafeDBRun → SafeHeadCall → Prop) : SafeDBRun → List SafeHeadCall → Prop
  | _, [] => True
  | s, c :: cs => p s c ∧ Throughout p (s.step c) cs

/-- The L2 numbers in the table do not fall, and no answer is above the last update that survives for
an L1 block at or below the one asked for. -/
structure Sound (s : SafeDBRun) : Prop where
  monotone : ∀ x ∈ s.db.heads, ∀ y ∈ s.db.heads, x.1 ≤ y.1 → x.2 ≤ y.2
  answers : ∀ n response, s.db.safeHeadAtL1 n = .ok response →
    ∃ u, (s.history.filter (·.l1Number ≤ n)).getLast? = some u ∧ response.safeHead.number ≤ u.l2Number

structure Tracks (s : SafeDBRun) : Prop where
  same : s.db.heads = s.history.map SafeUpdate.head
  monotone : ∀ u ∈ s.history, ∀ v ∈ s.history, u.l1Number ≤ v.l1Number → u.l2Number ≤ v.l2Number
  bounded : ∀ u ∈ s.history, u.l1Number ≤ s.nextL1 ∧ u.l2Number ≤ s.nextL2 ∧
    u.safeHead.l1Origin.number ≤ u.l1Number

variable {s : SafeDBRun}

theorem Tracks.sound (h : s.Tracks) : s.Sound where
  monotone := by
    rw [h.same, forall_mem_map]
    exact fun u hu => forall_mem_map.mpr (h.monotone u hu)
  answers n response hok := by
    have hlast := congrArg (fun l => (l.filter fun x => decide (x.1 ≤ n)).getLast?) h.same
    simp only [SafeDB.heads, filter_map, getLast?_map, Function.comp_def] at hlast
    unfold SafeDB.safeHeadAtL1 at hok
    split at hok
    · rename_i row hrow
      cases hok
      rw [hrow] at hlast
      obtain ⟨u, hu, heq⟩ := Option.map_eq_some_iff.mp hlast.symm
      exact ⟨u, hu, (Prod.ext_iff.mp heq).2.ge⟩
    · cases hok

theorem Tracks.record (h : s.Tracks) {t : SafeDBRun} {u : SafeUpdate}
    (hheads : t.db.heads = s.db.heads.filter (·.1 < u.l1Number) ++ [u.head])
    (hhistory : t.history = s.history.filter (·.l1Number < u.l1Number) ++ [u])
    (hbelow : ∀ v ∈ s.history, v.l1Number < u.l1Number → v.l2Number ≤ u.l2Number)
    (hnextL1 : u.l1Number ≤ t.nextL1) (hnextL2 : t.nextL2 = u.l2Number)
    (horigin : u.safeHead.l1Origin.number ≤ u.l1Number) : t.Tracks := by
  have hkept : ∀ v ∈ t.history, v = u ∨ v ∈ s.history ∧ v.l1Number < u.l1Number := by
    simp [hhistory, or_comm]
  refine ⟨?_, fun v hv w hw hle => ?_, fun v hv => ?_⟩
  · rw [hheads, hhistory, h.same, filter_map, map_append]
    rfl
  · rcases hkept v hv with rfl | ⟨hv, hlt⟩ <;> rcases hkept w hw with rfl | ⟨hw, hlt'⟩
    · exact le_rfl
    · omega
    · exact hbelow v hv hlt
    · exact h.monotone v hv w hw hle
  · rcases hkept v hv with rfl | ⟨hv, hlt⟩
    · exact ⟨hnextL1, hnextL2.ge, horigin⟩
    · exact ⟨hlt.le.trans hnextL1, hnextL2 ▸ hbelow v hv hlt, (h.bounded v hv).2.2⟩

theorem Tracks.updated (h : s.Tracks) {b : L2BlockInfo} {l1 : BlockInfo}
    (hvalid : s.Valid (.updated b l1)) : (s.step (.updated b l1)).Tracks := by
  obtain ⟨hl1, hl2, horigin, hfits⟩ := hvalid
  refine h.record (u := ⟨b, l1.number⟩) (SafeDB.heads_insert ?_ _ _ hfits) rfl
    (fun v hv _ => (h.bounded v hv).2.1.trans hl2) (Nat.le_succ _) rfl horigin
  rw [h.same, forall_mem_map]
  exact fun u hu => (h.bounded u hu).1.trans hl1

theorem Tracks.reset (h : s.Tracks) {b : L2BlockInfo} (hvalid : s.Valid (.reset b))
    (hplace : s.InPlace (.reset b)) : (s.step (.reset b)).Tracks := by
  obtain ⟨⟨chain, -, hmono, hchain, hself, -⟩, hfits⟩ := hvalid
  obtain ⟨x, hx, horigin, hreach⟩ := hplace
  have hfirst := SafeDB.firstKey_eq hx horigin hreach
  rw [h.same] at hx
  obtain ⟨u, hu, rfl⟩ := mem_map.mp hx
  -- below the L1 origin and below the reset block are the same updates
  have hiff : ∀ v ∈ s.history, v.l1Number < b.l1Origin.number ↔ v.l2Number < b.blockInfo.number := by
    intro v hv
    constructor
    · intro hlt
      by_contra hle
      have hchained := hmono (not_lt.mp hle)
      simp only [hself, hchain v hv] at hchained
      have := (h.bounded v hv).2.2
      omega
    · intro hlt
      by_contra hle
      have := h.monotone u hu v hv (horigin.trans_le (not_lt.mp hle))
      exact absurd hlt (not_lt.mpr (hreach.trans this))
  have hkeys : (s.history.map SafeUpdate.head).Pairwise fun x y => x.1 < y.1 := by
    rw [← h.same]
    exact pairwise_map.mpr s.db.sorted
  obtain ⟨v, hv⟩ : ∃ v, s.history.find? (b.blockInfo.number ≤ ·.l2Number) = some v :=
    Option.isSome_iff_exists.mp (find?_isSome.mpr ⟨u, hu, decide_eq_true hreach⟩)
  have hl1 : v.l1Number = b.l1Origin.number := by
    obtain ⟨hvreach, before, after, hsplit, hbefore⟩ := find?_eq_some_iff_append.mp hv
    have hnot := (hiff v (mem_of_find?_eq_some hv)).not.mpr (by simpa using hvreach)
    rw [hsplit] at hu
    rw [hsplit, pairwise_map] at hkeys
    rcases mem_append.mp hu with hu | hu
    · have hlt : u.l2Number < b.blockInfo.number := by simpa using hbefore u hu
      exact absurd hreach (not_le.mpr hlt)
    · rcases mem_cons.mp hu with rfl | hu
      · exact horigin
      · exact absurd (horigin ▸ (pairwise_cons.mp (pairwise_append.mp hkeys).2.1).1 u hu) hnot
  refine h.record (u := ⟨b, b.l1Origin.number⟩) ?_ ?_
    (fun v hv hlt => ((hiff v hv).mp hlt).le) le_rfl rfl le_rfl
  · simp only [step, SafeDB.safeHeadReset, hfirst]
    rw [SafeDB.heads_insert (fun x hx => ?_) _ _ hfits, SafeDB.heads_truncate]
    · simp [SafeUpdate.head, SafeUpdate.l2Number]
    · rw [SafeDB.heads_truncate] at hx
      exact (of_decide_eq_true (mem_filter.mp hx).2).le
  · simp only [step, hv, hl1, Option.map_some]
    congr 1
    exact filter_congr fun v hv => by simp [hiff v hv]

theorem Tracks.throughout (h : s.Tracks) {calls : List SafeHeadCall}
    (hvalid : Throughout Valid s calls) (hplace : Throughout InPlace s calls) :
    ∀ t ∈ calls.scanl step s, t.Sound := by
  induction calls generalizing s with
  | nil => simpa using h.sound
  | cons c calls ih =>
    have hnext : (s.step c).Tracks := by
      cases c with
      | updated b l1 => exact h.updated hvalid.1
      | reset b => exact h.reset hvalid.1 hplace.1
    rw [scanl_cons, forall_mem_cons]
    exact ⟨h.sound, ih hnext hvalid.2 hplace.2⟩

/-- Along every run of valid calls whose resets are all in place, the L2 numbers in the table never
fall, and no answer is above what was safe. -/
theorem sound_of_inPlace (calls : List SafeHeadCall) (hvalid : Throughout Valid start calls)
    (hplace : Throughout InPlace start calls) : ∀ s ∈ calls.scanl step start, s.Sound :=
  Tracks.throughout ⟨rfl, by simp [start], by simp [start]⟩ hvalid hplace

namespace SafeDBExample

/-- The L2 block of a number, with L1 origin 100. -/
def l2 (number : ℕ) : L2BlockInfo :=
  ⟨⟨FixedBytes.zero 32, number, FixedBytes.zero 32, 0⟩, ⟨100, FixedBytes.zero 32⟩, 0⟩

def l1 (number : ℕ) : BlockInfo := ⟨FixedBytes.zero 32, number, FixedBytes.zero 32, 0⟩

/-- A block becomes safe with each of three L1 blocks, and then the chain is reset to another. -/
def calls (number : ℕ) : List SafeHeadCall :=
  [.updated (l2 1000) (l1 100), .updated (l2 1010) (l1 101), .updated (l2 1020) (l1 102),
    .reset (l2 number)]

theorem calls_valid {number : ℕ} (h : number ≤ 1020) : Throughout Valid start (calls number) := by
  refine ⟨⟨?_, ?_, ?_, ?_⟩, ⟨?_, ?_, ?_, ?_⟩, ⟨?_, ?_, ?_, ?_⟩,
    ⟨⟨l2, fun _ => rfl, fun _ _ _ => le_rfl, ?_, rfl, ⟨l2 1020, 102⟩, ?_, h⟩,
      h.trans_lt (by decide)⟩, trivial⟩
  all_goals first | decide | simp [step, l1]

end SafeDBExample

open SafeDBExample

/-- A reset to the block that became safe with L1 block 100. -/
theorem sound_of_inPlace_first : Throughout Valid start (calls 1000) ∧
    ∀ s ∈ (calls 1000).scanl step start, s.Sound := by
  have hvalid : Throughout Valid start (calls 1000) := calls_valid (by decide)
  have hrow : (100, 1000) ∈ (((calls 1000).take 3).foldl step start).db.heads := by decide +kernel
  exact ⟨hvalid, sound_of_inPlace _ hvalid
    ⟨trivial, trivial, trivial, ⟨(100, 1000), hrow, rfl, le_rfl⟩, trivial⟩⟩

/-- A reset to block 1015, which became safe with L1 block 102, leaves block 1015 at L1 block 100 and
block 1010 at L1 block 101. -/
theorem reset_moves_row : Throughout Valid start (calls 1015) ∧
    ∃ s ∈ (calls 1015).scanl step start, s.db.heads = [(100, 1015), (101, 1010)] ∧ ¬s.Sound := by
  have hheads : ((calls 1015).foldl step start).db.heads = [(100, 1015), (101, 1010)] := by
    decide +kernel
  refine ⟨calls_valid (by decide), _, by simp [calls], hheads, fun h => ?_⟩
  have hmonotone := h.monotone
  revert hmonotone
  decide

end SafeDBRun

end NodeReth
