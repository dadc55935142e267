import NodeReth.Lib.Lanes
import NodeReth.Primitives

/-!
# Merged best transactions

`MergeBestTransactions` of `txpool/src/best.rs` merges the iterators of the protocol pool and of the
2D nonce sidecar. It fetches one head ahead from each source, so an invalidation can meet a head of
another lane. The sources are any lawful iterators; what is proved is that nothing of another lane
is lost as long as every invalidation finds no such head, and that a run without this loses a
transaction.
-/

namespace NodeReth

open Lanes List Option

/-- What the merge reads of a pool transaction. -/
structure ValidPoolTransaction where
  sender : Address
  hash : B256
  nonce : ℕ
  /-- `eip8130_nonce_channel_key` -/
  nonceChannelKey : Option ℕ
  /-- `eip8130_replay_id` -/
  replayId : Option B256
  /-- The tip for a base fee; `none` when the transaction does not pay it. -/
  effectiveTipPerGas : ℕ → Option ℕ

/-- The transactions of one sender in the protocol pool, of one nonce channel, or one nonce-free
transaction. -/
inductive Lane
  | protocol (sender : Address)
  | channel (sender : Address) (nonceKey : ℕ)
  | nonceFree (hash : B256)
  deriving DecidableEq

def Lane.isSidecar : Lane → Bool
  | protocol _ => false
  | _ => true

namespace ValidPoolTransaction

def isEip8130SidecarTransaction (t : ValidPoolTransaction) : Bool :=
  t.nonceChannelKey.isSome || t.replayId.isSome

def lane (t : ValidPoolTransaction) : Lane :=
  match t.nonceChannelKey with
  | some key => .channel t.sender key
  | none => if t.replayId.isSome then .nonceFree t.hash else .protocol t.sender

theorem isSidecar_lane (t : ValidPoolTransaction) :
    t.lane.isSidecar = t.isEip8130SidecarTransaction := by
  unfold lane isEip8130SidecarTransaction
  cases t.nonceChannelKey with
  | some key => rfl
  | none => cases t.replayId <;> rfl

def priced (baseFee : ℕ) (t : ValidPoolTransaction) : Bool := (t.effectiveTipPerGas baseFee).isSome

end ValidPoolTransaction

open ValidPoolTransaction

structure MergeBestTransactions (P S : Source ValidPoolTransaction) where
  protocol : P.State
  sidecar : S.State
  /-- The priority of the first is at least that of the second. -/
  protocolIsBetter : ValidPoolTransaction → ValidPoolTransaction → Bool
  baseFee : ℕ
  nextProtocol : Option ValidPoolTransaction
  nextSidecar : Option ValidPoolTransaction

variable {o : Option ValidPoolTransaction} {rest : List ValidPoolTransaction}
  {calls : List BestCall} {P S : Source ValidPoolTransaction}

namespace MergeBestTransactions

def new (protocol : P.State) (sidecar : S.State)
    (protocolIsBetter : ValidPoolTransaction → ValidPoolTransaction → Bool) (baseFee : ℕ) :
    MergeBestTransactions P S :=
  ⟨protocol, sidecar, protocolIsBetter, baseFee, none, none⟩

def popBest (m : MergeBestTransactions P S) : Option ValidPoolTransaction × MergeBestTransactions P S :=
  match m.nextProtocol, m.nextSidecar with
  | some protocol, some sidecar =>
    if m.protocolIsBetter protocol sidecar then (some protocol, { m with nextProtocol := none })
    else (some sidecar, { m with nextSidecar := none })
  | some protocol, none => (some protocol, { m with nextProtocol := none })
  | none, some sidecar => (some sidecar, { m with nextSidecar := none })
  | none, none => (none, m)

def markInvalid (m : MergeBestTransactions P S) (transaction : ValidPoolTransaction) :
    MergeBestTransactions P S :=
  if transaction.isEip8130SidecarTransaction then
    { m with nextSidecar := none, sidecar := S.markInvalid transaction m.sidecar }
  else { m with nextProtocol := none, protocol := P.markInvalid transaction m.protocol }

/-- Fetches the head of each source that has none. -/
def prefetch (m : MergeBestTransactions P S) : MergeBestTransactions P S :=
  let m := if m.nextProtocol.isNone then
      { m with nextProtocol := (P.next m.protocol).1, protocol := (P.next m.protocol).2 } else m
  if m.nextSidecar.isNone then
    { m with nextSidecar := (S.next m.sidecar).1, sidecar := (S.next m.sidecar).2 } else m

/-- The next transaction that pays the base fee; `none` when the rounds run out. -/
def next : ℕ → MergeBestTransactions P S →
    Option (Option ValidPoolTransaction × MergeBestTransactions P S)
  | 0, _ => none
  | rounds + 1, m =>
    match m.prefetch.popBest with
    | (none, m) => some (none, m)
    | (some transaction, m) =>
      if (transaction.effectiveTipPerGas m.baseFee).isSome then some (some transaction, m)
      else next rounds (m.markInvalid transaction)

end MergeBestTransactions

inductive BestCall
  | next
  | markInvalid (transaction : ValidPoolTransaction)

namespace MergeBestTransactions

/-- The transactions that a list of calls yields, and the state afterwards. -/
def run (rounds : ℕ) : MergeBestTransactions P S → List BestCall →
    Option (List ValidPoolTransaction × MergeBestTransactions P S)
  | m, [] => some ([], m)
  | m, .next :: calls =>
    match m.next rounds with
    | none => none
    | some (yielded, m) =>
      (run rounds m calls).map fun (rest, m) => (yielded.toList ++ rest, m)
  | m, .markInvalid transaction :: calls => run rounds (m.markInvalid transaction) calls

def invalidated : List BestCall → List Lane
  | [] => []
  | .next :: calls => invalidated calls
  | .markInvalid transaction :: calls => transaction.lane :: invalidated calls

/-- The head that was fetched from the source of the transaction, if any, is of its lane. -/
def Clear (m : MergeBestTransactions P S) (transaction : ValidPoolTransaction) : Prop :=
  ∀ head ∈ (if transaction.isEip8130SidecarTransaction then m.nextSidecar else m.nextProtocol),
    head.lane = transaction.lane

def AlwaysClear (rounds : ℕ) : MergeBestTransactions P S → List BestCall → Prop
  | _, [] => True
  | m, .next :: calls => ∀ yielded m', m.next rounds = some (yielded, m') → AlwaysClear rounds m' calls
  | m, .markInvalid transaction :: calls =>
    m.Clear transaction ∧ AlwaysClear rounds (m.markInvalid transaction) calls

/-! ## What is still to come -/

section

variable {pendingP : P.State → Lane → List ValidPoolTransaction}
  {pendingS : S.State → Lane → List ValidPoolTransaction} {sizeP : P.State → ℕ}
  {sizeS : S.State → ℕ}

variable (pendingP pendingS) in
/-- The transactions of a lane that are still to come. -/
def pending (m : MergeBestTransactions P S) (l : Lane) : List ValidPoolTransaction :=
  (ahead lane m.nextProtocol l ++ pendingP m.protocol l) ++
    (ahead lane m.nextSidecar l ++ pendingS m.sidecar l)

variable (sizeP sizeS) in
def size (m : MergeBestTransactions P S) : ℕ :=
  (m.nextProtocol.toList.length + sizeP m.protocol) + (m.nextSidecar.toList.length + sizeS m.sidecar)

variable (P S pendingP pendingS sizeP sizeS) in
/-- The sources are lawful, and each has its own kind of lanes. -/
structure LawfulSources : Prop where
  protocol : Lawful P lane pendingP sizeP
  sidecar : Lawful S lane pendingS sizeS
  protocol_lanes : ∀ s l, l.isSidecar = true → pendingP s l = []
  sidecar_lanes : ∀ s l, l.isSidecar = false → pendingS s l = []

/-- Each head is of its source's kind. -/
structure Routed (m : MergeBestTransactions P S) : Prop where
  protocol : ∀ t ∈ m.nextProtocol, t.lane.isSidecar = false
  sidecar : ∀ t ∈ m.nextSidecar, t.lane.isSidecar = true

variable {l : Lane} {rounds : ℕ}

theorem ahead_of_ne (h : ∀ t ∈ o, t.lane ≠ l) :
    ahead lane o l = [] := by
  cases o with
  | none => rfl
  | some t => rw [ahead_some, if_neg (h t rfl)]

/-- What is to come from one source is empty for a lane of the other kind. -/
theorem half_eq_nil {kind : Bool} (ho : ∀ t ∈ o, t.lane.isSidecar = kind) (hrest : rest = [])
    (hl : l.isSidecar = !kind) : ahead lane o l ++ rest = [] := by
  rw [hrest, append_nil]
  refine ahead_of_ne fun t ht heq => ?_
  rw [← heq, ho t ht] at hl
  cases kind <;> cases hl

variable {m m' : MergeBestTransactions P S}

/-- A source hands out only items of its own lanes. -/
theorem lane_of_fetch {src : Source ValidPoolTransaction}
    {pending : src.State → Lane → List ValidPoolTransaction} {size : src.State → ℕ}
    (h : Lawful src lane pending size) (kind : Bool)
    (hlanes : ∀ s l, l.isSidecar = !kind → pending s l = [])
    (ho : ∀ t ∈ o, t.lane.isSidecar = kind) (s : src.State) :
    ∀ t ∈ (fetch src o s).1, t.lane.isSidecar = kind := by
  cases o with
  | some x => exact ho
  | none =>
    intro t ht
    have hnext : src.next s = (some t, (src.next s).2) := Prod.ext ht rfl
    have hpending := (h.next_some hnext).1 t.lane
    rw [if_pos rfl] at hpending
    by_contra hkind
    rw [hlanes s t.lane (by cases kind <;> simpa using hkind)] at hpending
    cases hpending

theorem prefetch_eq : m.prefetch = { m with
    nextProtocol := (fetch P m.nextProtocol m.protocol).1
    protocol := (fetch P m.nextProtocol m.protocol).2
    nextSidecar := (fetch S m.nextSidecar m.sidecar).1
    sidecar := (fetch S m.nextSidecar m.sidecar).2 } := by
  obtain ⟨_, _, _, _, nextProtocol, nextSidecar⟩ := m
  cases nextProtocol <;> cases nextSidecar <;> rfl

theorem popBest_none (hpop : m.popBest = (none, m')) :
    m.nextProtocol = none ∧ m.nextSidecar = none ∧ m' = m := by
  unfold popBest at hpop
  split at hpop
  · split_ifs at hpop <;> cases hpop
  · cases hpop
  · cases hpop
  · cases hpop
    exact ⟨by assumption, by assumption, rfl⟩

theorem markInvalid_baseFee (t : ValidPoolTransaction) : (m.markInvalid t).baseFee = m.baseFee := by
  unfold markInvalid
  split_ifs <;> rfl

theorem Routed.markInvalid (h : m.Routed) (t : ValidPoolTransaction) : (m.markInvalid t).Routed := by
  unfold MergeBestTransactions.markInvalid
  split_ifs
  · exact ⟨h.protocol, nofun⟩
  · exact ⟨nofun, h.sidecar⟩

theorem alwaysClear_replicate_next (rounds n : ℕ) : m.AlwaysClear rounds (replicate n .next) := by
  induction n generalizing m with
  | zero => trivial
  | succ n ih => exact fun _ _ _ => ih

theorem invalidated_replicate_next (n : ℕ) : invalidated (replicate n .next) = [] := by
  induction n with
  | zero => rfl
  | succ n ih => exact ih

variable {m'' : MergeBestTransactions P S} {first : List ValidPoolTransaction}

theorem run_next {yielded : Option ValidPoolTransaction}
    (hnext : m.next rounds = some (yielded, m')) (hrun : m'.run rounds calls = some (rest, m'')) :
    m.run rounds (.next :: calls) = some (yielded.toList ++ rest, m'') := by
  simp [run, hnext, hrun]

theorem run_append {more : List BestCall} (hrun : m.run rounds calls = some (first, m'))
    (hmore : m'.run rounds more = some (rest, m'')) :
    m.run rounds (calls ++ more) = some (first ++ rest, m'') := by
  induction calls generalizing m first with
  | nil =>
    cases hrun
    exact hmore
  | cons call calls ih =>
    cases call with
    | markInvalid t => exact ih hrun
    | next =>
      unfold run at hrun
      rcases hnext : m.next rounds with _ | ⟨yielded, m₁⟩ <;> rw [hnext] at hrun
      · cases hrun
      · simp only [map_eq_some_iff] at hrun
        obtain ⟨⟨tail, _⟩, htail, rfl, rfl⟩ := hrun
        rw [append_assoc]
        exact run_next hnext (ih htail)

variable (pendingP pendingS) in
/-- What is to come of a lane, up to its first transaction that does not pay the base fee. -/
def offered (m : MergeBestTransactions P S) (l : Lane) : List ValidPoolTransaction :=
  (m.pending pendingP pendingS l).takeWhile (priced m.baseFee)

theorem offered_congr (hfee : m'.baseFee = m.baseFee)
    (hpending : m'.pending pendingP pendingS l = m.pending pendingP pendingS l) :
    m'.offered pendingP pendingS l = m.offered pendingP pendingS l := by
  unfold offered
  rw [hfee, hpending]

section Lawful

variable (hsrc : LawfulSources P S pendingP pendingS sizeP sizeS)

include hsrc

theorem prefetch_spec (h : m.Routed) :
    m.prefetch.Routed ∧ (∀ l, m.prefetch.pending pendingP pendingS l = m.pending pendingP pendingS l) ∧
      m.prefetch.size sizeP sizeS ≤ m.size sizeP sizeS ∧ m.prefetch.baseFee = m.baseFee ∧
      (m.prefetch.nextProtocol = none → ∀ l, pendingP m.prefetch.protocol l = []) ∧
      (m.prefetch.nextSidecar = none → ∀ l, pendingS m.prefetch.sidecar l = []) := by
  obtain ⟨hpendingP, hsizeP, hdoneP⟩ := hsrc.protocol.fetch m.nextProtocol m.protocol
  obtain ⟨hpendingS, hsizeS, hdoneS⟩ := hsrc.sidecar.fetch m.nextSidecar m.sidecar
  rw [prefetch_eq]
  exact ⟨⟨lane_of_fetch hsrc.protocol false hsrc.protocol_lanes h.protocol _,
      lane_of_fetch hsrc.sidecar true hsrc.sidecar_lanes h.sidecar _⟩,
    fun l => congrArg₂ (· ++ ·) (hpendingP l) (hpendingS l), Nat.add_le_add hsizeP hsizeS, rfl,
    hdoneP, hdoneS⟩

theorem popBest_some (h : m.Routed) {t : ValidPoolTransaction} (hpop : m.popBest = (some t, m')) :
    m'.Routed ∧ m'.Clear t ∧ m'.baseFee = m.baseFee ∧ m'.size sizeP sizeS < m.size sizeP sizeS ∧
      ∀ l, m.pending pendingP pendingS l = if l = t.lane then t :: m'.pending pendingP pendingS l
        else m'.pending pendingP pendingS l := by
  -- the head that is taken is the protocol's or the sidecar's
  have hcases : (m.nextProtocol = some t ∧ m' = { m with nextProtocol := none }) ∨
      (m.nextSidecar = some t ∧ m' = { m with nextSidecar := none }) := by
    unfold popBest at hpop
    split at hpop
    · split_ifs at hpop <;> cases hpop
      · exact Or.inl ⟨by assumption, rfl⟩
      · exact Or.inr ⟨by assumption, rfl⟩
    all_goals cases hpop
    · exact Or.inl ⟨by assumption, rfl⟩
    · exact Or.inr ⟨by assumption, rfl⟩
  rcases hcases with ⟨hhead, rfl⟩ | ⟨hhead, rfl⟩
  · have hkind : t.isEip8130SidecarTransaction = false := by
      rw [← isSidecar_lane]
      exact h.protocol t hhead
    refine ⟨⟨nofun, h.sidecar⟩, ?_, rfl, ?_, fun l => ?_⟩
    · intro head hmem
      rw [hkind] at hmem
      cases hmem
    · unfold size
      simp only [hhead, toList_some, toList_none, length_singleton, length_nil]
      omega
    · unfold pending
      rw [hhead, ahead_some_append]
      split_ifs <;> rfl
  · have hlane := h.sidecar t hhead
    refine ⟨⟨h.protocol, nofun⟩, ?_, rfl, ?_, fun l => ?_⟩
    · intro head hmem
      rw [← isSidecar_lane, hlane] at hmem
      cases hmem
    · unfold size
      simp only [hhead, toList_some, toList_none, length_singleton, length_nil]
      omega
    · unfold pending
      rw [hhead, ahead_some_append]
      split_ifs with hl
      · rw [hl, half_eq_nil h.protocol (hsrc.protocol_lanes _ _ hlane) hlane]
        rfl
      · rfl

theorem markInvalid_size
    (t : ValidPoolTransaction) : (m.markInvalid t).size sizeP sizeS ≤ m.size sizeP sizeS := by
  have hp := (hsrc.protocol.markInvalid t m.protocol).2
  have hs := (hsrc.sidecar.markInvalid t m.sidecar).2
  unfold markInvalid size
  split_ifs <;> simp <;> omega

/-- An invalidation leaves the other lanes of the other source alone, and of its own source drops
the head that was fetched. -/
theorem pending_markInvalid (t : ValidPoolTransaction) (hl : l ≠ t.lane) :
    (m.markInvalid t).pending pendingP pendingS l =
      if t.isEip8130SidecarTransaction then
        (ahead lane m.nextProtocol l ++ pendingP m.protocol l) ++ pendingS m.sidecar l
      else pendingP m.protocol l ++ (ahead lane m.nextSidecar l ++ pendingS m.sidecar l) := by
  have hp := (hsrc.protocol.markInvalid t m.protocol).1 l
  have hs := (hsrc.sidecar.markInvalid t m.sidecar).1 l
  rw [if_neg hl] at hp hs
  unfold MergeBestTransactions.markInvalid pending
  split_ifs
  · rw [hs]
    rfl
  · rw [hp]
    rfl

/-- An invalidation keeps what is to come of every other lane exactly when it is clear. -/
theorem pending_markInvalid_iff (t : ValidPoolTransaction) :
    (∀ l, l ≠ t.lane → (m.markInvalid t).pending pendingP pendingS l = m.pending pendingP pendingS l) ↔
      m.Clear t := by
  constructor
  · intro h head hhead
    by_contra hne
    have heq := congrArg length (h head.lane hne)
    rw [pending_markInvalid hsrc t hne] at heq
    unfold pending at heq
    split_ifs at hhead heq with hkind
    · rw [show m.nextSidecar = some head from hhead, ahead_some] at heq
      simp at heq
    · rw [show m.nextProtocol = some head from hhead, ahead_some] at heq
      simp at heq
  · intro h l hl
    have hhead := ahead_of_ne fun head hhead heq => hl (heq.symm.trans (h head hhead))
    rw [pending_markInvalid hsrc t hl]
    unfold pending
    split_ifs at hhead ⊢ <;> rw [hhead] <;> rfl

/-- Nothing of the lane of an invalidated transaction is left. -/
theorem pending_markInvalid_self (h : m.Routed) (t : ValidPoolTransaction) :
    (m.markInvalid t).pending pendingP pendingS t.lane = [] := by
  have hp := (hsrc.protocol.markInvalid t m.protocol).1 t.lane
  have hs := (hsrc.sidecar.markInvalid t m.sidecar).1 t.lane
  have hkind := isSidecar_lane t
  rw [if_pos rfl] at hp hs
  unfold MergeBestTransactions.markInvalid pending
  split_ifs with hside
  · rw [hside] at hkind
    rw [half_eq_nil h.protocol (hsrc.protocol_lanes _ _ hkind) hkind, hs]
    rfl
  · rw [Bool.not_eq_true] at hside
    rw [hside] at hkind
    rw [half_eq_nil h.sidecar (hsrc.sidecar_lanes _ _ hkind) hkind, hp]
    rfl

/-! ## Runs -/

/-- With more rounds than transactions left, `next` returns; it takes the head of what one lane
offers, and returns nothing only when no lane offers anything. -/
theorem next_spec (h : m.Routed) (hrounds : m.size sizeP sizeS < rounds) :
    ∃ yielded m', m.next rounds = some (yielded, m') ∧ m'.Routed ∧
      m'.size sizeP sizeS + yielded.toList.length ≤ m.size sizeP sizeS ∧
      (∀ l, m.offered pendingP pendingS l = ahead lane yielded l ++ m'.offered pendingP pendingS l) ∧
      (yielded = none → ∀ l, m'.offered pendingP pendingS l = []) := by
  induction rounds generalizing m with
  | zero => omega
  | succ rounds ih =>
    obtain ⟨hrouted, hpending, hsize, hfee, hdoneP, hdoneS⟩ := prefetch_spec hsrc h
    have hoffered := fun l => offered_congr hfee (hpending l)
    unfold next
    rcases hpop : m.prefetch.popBest with ⟨_ | t, m₁⟩
    · obtain ⟨hp, hs, rfl⟩ := popBest_none hpop
      have hnone : ∀ l, m.prefetch.offered pendingP pendingS l = [] := by
        intro l
        unfold offered pending
        rw [hp, hs, hdoneP hp, hdoneS hs]
        rfl
      refine ⟨none, _, rfl, hrouted, hsize, fun l => ?_, fun _ => hnone⟩
      rw [← hoffered l]
      rfl
    · obtain ⟨hrouted₁, hclear, hfee₁, hsize₁, hpending₁⟩ := popBest_some hsrc hrouted hpop
      have hpriced : (t.effectiveTipPerGas m₁.baseFee).isSome = priced m₁.baseFee t := rfl
      simp only [hpriced]
      split_ifs with hpriced
      · refine ⟨some t, m₁, rfl, hrouted₁, ?_, fun l => ?_, nofun⟩
        · simp only [toList_some, length_singleton]
          omega
        · rw [← hoffered l, ahead_some]
          unfold offered
          rw [hpending₁ l, ← hfee₁]
          by_cases hl : t.lane = l
          · rw [if_pos hl, if_pos hl.symm, takeWhile_cons_of_pos hpriced]
            rfl
          · rw [if_neg hl, if_neg (Ne.symm hl)]
            rfl
      · -- the lane of an underpriced transaction offers nothing, and nothing else is lost
        have hinvalid := markInvalid_size hsrc t (m := m₁)
        obtain ⟨yielded, m', hnext, hrouted', hsize', hoffered', hdone⟩ :=
          ih (hrouted₁.markInvalid t) (by omega)
        refine ⟨yielded, m', hnext, hrouted', by omega, fun l => ?_, hdone⟩
        rw [← hoffered' l, ← hoffered l]
        unfold offered
        rw [markInvalid_baseFee, hpending₁ l, ← hfee₁]
        by_cases hl : l = t.lane
        · rw [if_pos hl, hl, pending_markInvalid_self hsrc hrouted₁, takeWhile_cons_of_neg hpriced]
          rfl
        · rw [if_neg hl, (pending_markInvalid_iff hsrc t).mpr hclear l hl]

/-- What a run yields of a lane that no call invalidates is the front of what the lane offered. -/
theorem run_spec (h : m.Routed) (hrounds : m.size sizeP sizeS < rounds)
    (hclear : m.AlwaysClear rounds calls) :
    ∃ yielded m', m.run rounds calls = some (yielded, m') ∧ m'.Routed ∧
      m'.size sizeP sizeS ≤ m.size sizeP sizeS ∧
      ∀ l ∉ invalidated calls, m.offered pendingP pendingS l =
        yielded.filter (·.lane = l) ++ m'.offered pendingP pendingS l := by
  induction calls generalizing m with
  | nil => exact ⟨[], m, rfl, h, le_rfl, fun _ _ => rfl⟩
  | cons call calls ih =>
    cases call with
    | next =>
      obtain ⟨first, m₁, hnext, hrouted, hsize, hoffered, -⟩ := next_spec hsrc h hrounds
      obtain ⟨rest, m', hrun, hrouted', hsize', hoffered'⟩ :=
        ih hrouted (by omega) (hclear first m₁ hnext)
      refine ⟨_, m', run_next hnext hrun, hrouted', by omega, fun l hl => ?_⟩
      rw [hoffered l, hoffered' l hl, filter_append, append_assoc]
      rfl
    | markInvalid t =>
      have hinvalid := markInvalid_size hsrc t (m := m)
      obtain ⟨rest, m', hrun, hrouted', hsize', hoffered'⟩ :=
        ih (h.markInvalid t) (by omega) hclear.2
      refine ⟨rest, m', hrun, hrouted', by omega, fun l hl => ?_⟩
      obtain ⟨hne, hl⟩ : l ≠ t.lane ∧ l ∉ invalidated calls := not_or.mp (mt mem_cons.mpr hl)
      rw [← hoffered' l hl]
      exact (offered_congr (markInvalid_baseFee t)
        ((pending_markInvalid_iff hsrc t).mpr hclear.1 l hne)).symm

/-- Enough calls of `next` yield everything that is offered. -/
theorem run_replicate_next {n : ℕ} (h : m.Routed) (hrounds : m.size sizeP sizeS < rounds)
    (hn : m.size sizeP sizeS < n) :
    ∃ yielded m', m.run rounds (replicate n .next) = some (yielded, m') ∧
      ∀ l, yielded.filter (·.lane = l) = m.offered pendingP pendingS l := by
  induction n generalizing m with
  | zero => omega
  | succ n ih =>
    obtain ⟨first, m₁, hnext, hrouted, hsize, hoffered, hdone⟩ := next_spec hsrc h hrounds
    -- once nothing is offered, the calls that are left yield nothing
    obtain ⟨rest, m', hrun, hrest⟩ : ∃ rest m',
        m₁.run rounds (replicate n .next) = some (rest, m') ∧
          ∀ l, rest.filter (·.lane = l) = m₁.offered pendingP pendingS l := by
      cases first with
      | some t =>
        simp only [toList_some, length_singleton] at hsize
        exact ih hrouted (by omega) (by omega)
      | none =>
        obtain ⟨rest, m', hrun, -, -, hrest⟩ := run_spec hsrc hrouted
          (lt_of_le_of_lt (Nat.le_of_add_right_le hsize) hrounds)
          (alwaysClear_replicate_next rounds n)
        refine ⟨rest, m', hrun, fun l => ?_⟩
        have := hrest l (by simp [invalidated_replicate_next])
        rw [hdone rfl l] at this ⊢
        exact (append_eq_nil_iff.mp this.symm).1
    refine ⟨_, m', run_next hnext hrun, fun l => ?_⟩
    rw [filter_append, hrest l, hoffered l]
    rfl

end Lawful

/-! ## Completeness -/

/-- Lists of transactions for each source, as the tests of the merge use them. -/
abbrev protocolQueue : Source ValidPoolTransaction := queue lane (·.lane.isSidecar = false)

abbrev sidecarQueue : Source ValidPoolTransaction := queue lane (·.lane.isSidecar = true)

def ofLane (s : List ValidPoolTransaction) (l : Lane) : List ValidPoolTransaction :=
  s.filter (·.lane = l)

theorem ofLane_eq_nil {s : List ValidPoolTransaction} {kind : Bool}
    (h : ∀ t ∈ s, t.lane.isSidecar = kind) (hl : l.isSidecar = !kind) : ofLane s l = [] := by
  refine filter_eq_nil_iff.mpr fun t ht heq => ?_
  have hkind := h t ht
  rw [of_decide_eq_true heq, hl] at hkind
  cases kind <;> cases hkind

theorem queues_lawful : LawfulSources protocolQueue sidecarQueue (fun s => ofLane s.1)
    (fun s => ofLane s.1) (fun s => s.1.length) (fun s => s.1.length) where
  protocol := queue_lawful _ _
  sidecar := queue_lawful _ _
  protocol_lanes s _ hl := ofLane_eq_nil s.2 hl
  sidecar_lanes s _ hl := ofLane_eq_nil s.2 hl

/-- The first transaction of an account, in the protocol pool or in a nonce channel. -/
def firstTransaction (account : UInt8) (nonceKey : Option ℕ) (tip : ℕ) : ValidPoolTransaction where
  sender := .fill 20 account
  hash := .fill 32 account
  nonce := 0
  nonceChannelKey := nonceKey
  replayId := none
  effectiveTipPerGas := fun _ => some tip

/-- Two senders in the protocol pool and a nonce channel whose tip lies between theirs. -/
def threeSenders : MergeBestTransactions protocolQueue sidecarQueue :=
  new ⟨[firstTransaction 1 none 3, firstTransaction 3 none 1], by decide⟩
    ⟨[firstTransaction 2 (some 1) 2], by decide⟩
    (fun protocol sidecar =>
      (sidecar.effectiveTipPerGas 0).getD 0 ≤ (protocol.effectiveTipPerGas 0).getD 0) 0

/-- Whatever calls were made, if no invalidation met a head of another lane, enough further calls of
`next` complete every lane that was not invalidated: each of its transactions up to the first that
does not pay the base fee is yielded once, in the order of the lane. -/
theorem yields_other_lanes (hsrc : LawfulSources P S pendingP pendingS sizeP sizeS)
    (protocol : P.State) (sidecar : S.State)
    (protocolIsBetter : ValidPoolTransaction → ValidPoolTransaction → Bool) (baseFee : ℕ)
    {rounds n : ℕ} (calls : List BestCall) (hrounds : sizeP protocol + sizeS sidecar < rounds)
    (hn : sizeP protocol + sizeS sidecar < n)
    (hclear : (new protocol sidecar protocolIsBetter baseFee).AlwaysClear rounds calls) :
    ∃ yielded m', (new protocol sidecar protocolIsBetter baseFee).run rounds
        (calls ++ replicate n .next) = some (yielded, m') ∧
      ∀ l ∉ invalidated calls, yielded.filter (·.lane = l) =
        (pendingP protocol l ++ pendingS sidecar l).takeWhile (priced baseFee) := by
  have hsize : (new protocol sidecar protocolIsBetter baseFee).size sizeP sizeS =
      sizeP protocol + sizeS sidecar := by
    unfold size new
    simp
  have hnew : (new protocol sidecar protocolIsBetter baseFee).Routed :=
    ⟨nofun, nofun⟩
  obtain ⟨first, m₁, hrun, hrouted, hsize₁, hoffered⟩ :=
    run_spec hsrc hnew (by omega) hclear
  obtain ⟨rest, m', hmore, hrest⟩ := run_replicate_next hsrc hrouted
    (show m₁.size sizeP sizeS < rounds by omega) (show m₁.size sizeP sizeS < n by omega)
  refine ⟨first ++ rest, m', run_append hrun hmore, fun l hl => ?_⟩
  rw [filter_append, hrest l, ← hoffered l hl]
  rfl

/-- An invalidation right after the yield, before another head is fetched, loses nothing. -/
theorem yields_other_lanes_sample :
    threeSenders.AlwaysClear 4 [.next, .markInvalid (firstTransaction 1 none 3)] ∧
    ∃ yielded m', threeSenders.run 4
        ([.next, .markInvalid (firstTransaction 1 none 3)] ++ replicate 4 .next) = some (yielded, m') ∧
      ∀ l ∉ invalidated [.next, .markInvalid (firstTransaction 1 none 3)],
        yielded.filter (·.lane = l) =
          (ofLane threeSenders.protocol.1 l ++ ofLane threeSenders.sidecar.1 l).takeWhile
            (priced 0) := by
  have hclear : threeSenders.AlwaysClear 4 [.next, .markInvalid (firstTransaction 1 none 3)] := by
    intro yielded m' hnext
    cases hnext
    refine ⟨fun head hhead => ?_, trivial⟩
    cases hhead
  exact ⟨hclear, yields_other_lanes queues_lawful _ _ _ 0 _ (by decide) (by decide) hclear⟩

end

/-! ## A head that is lost -/

/-- The first sender is invalidated after the channel's transaction was yielded too. -/
def lateInvalidation : List BestCall :=
  [.next, .next, .markInvalid (firstTransaction 1 none 3)]

/-- With nothing left, `next` yields nothing, however often it is called. -/
theorem run_drained {rounds n : ℕ} {m : MergeBestTransactions protocolQueue sidecarQueue}
    (hnext : m.next rounds = some (none, m)) : m.run rounds (replicate n .next) = some ([], m) := by
  induction n with
  | zero => rfl
  | succ n ih => exact run_next hnext ih

/-- The other protocol sender is not invalidated and pays the base fee, and its transaction is never
yielded. -/
theorem late_invalidation_hides_sender :
    LawfulSources protocolQueue sidecarQueue (fun s => ofLane s.1) (fun s => ofLane s.1)
        (fun s => s.1.length) (fun s => s.1.length) ∧
      (firstTransaction 3 none 1).lane ∉ invalidated lateInvalidation ∧
      (ofLane threeSenders.protocol.1 (firstTransaction 3 none 1).lane).takeWhile (priced 0) =
        [firstTransaction 3 none 1] ∧
      (∀ n, ∃ m', threeSenders.run 4 (lateInvalidation ++ replicate n .next) =
        some ([firstTransaction 1 none 3, firstTransaction 2 (some 1) 2], m')) ∧
      ofLane [firstTransaction 1 none 3, firstTransaction 2 (some 1) 2]
        (firstTransaction 3 none 1).lane = [] := by
  refine ⟨queues_lawful, by decide, rfl, fun n => ?_, rfl⟩
  have hrun : threeSenders.run 4 lateInvalidation =
      some ([firstTransaction 1 none 3, firstTransaction 2 (some 1) 2],
        { threeSenders with protocol := ⟨[], by decide⟩, sidecar := ⟨[], by decide⟩ }) := rfl
  exact ⟨_, run_append hrun (run_drained rfl)⟩

end MergeBestTransactions

end NodeReth
