import NodeReth.Consensus.Envelope
import NodeReth.Lib.FinMaps

/-!
# What the builder tells the pool about accounts

Before `build_next_flashblock` fills a flashblock it passes the accounts of the senders that were
executed so far to the pool. Their nonces are not read from the state: a map keeps the largest
`nonce()` of the executed transactions of each sender, and an EIP-8130 transaction answers with its
sequence number, whatever its nonce key. What executing a transaction does to the accounts is
arbitrary here.
-/

namespace NodeReth.Flashblocks

structure AccountInfo where
  nonce : UInt64
  balance : BitVec 256

/-- The accounts of the job's state, and those that the database fails to read. -/
structure State where
  accounts : Address → Option AccountInfo
  fails : Address → Bool

def State.basic (s : State) (a : Address) : Except Unit (Option AccountInfo) :=
  if s.fails a then .error () else .ok (s.accounts a)

def State.nonce (s : State) (a : Address) : UInt64 := (s.accounts a).elim 0 AccountInfo.nonce

def State.balance (s : State) (a : Address) : BitVec 256 :=
  (s.accounts a).elim 0 AccountInfo.balance

structure ChangedAccount where
  address : Address
  nonce : UInt64
  balance : BitVec 256

/-- An executed transaction, its sender and the state that it leaves. -/
structure Executed where
  tx : Consensus.BaseTxEnvelope
  sender : Address
  state : State

structure Job where
  executedSenderNonces : FinMap Address UInt64
  state : State

namespace Job

def changedAccounts (job : Job) : List ChangedAccount :=
  job.executedSenderNonces.entries.map fun e => ⟨e.1, e.2 + 1,
    match job.state.basic e.1 with
    | .ok (some info) => info.balance
    | .ok none => 0
    | .error _ => 0⟩

def execute (job : Job) (x : Executed) : Job where
  executedSenderNonces := job.executedSenderNonces.insert x.sender
    (match job.executedSenderNonces.lookup x.sender with
    | some n => max n x.tx.nonce
    | none => x.tx.nonce)
  state := x.state

/-- The accounts that are passed to the pool, and the job behind the flashblock. The map is not read
while the flashblock is filled. -/
def buildNextFlashblock (job : Job) (executed : List Executed) : List ChangedAccount × Job :=
  (job.changedAccounts, executed.foldl execute job)

def start (state : State) : Job := ⟨∅, state⟩

def run (job : Job) (flashblocks : List (List Executed)) : Job :=
  flashblocks.foldl (fun job executed => (job.buildNextFlashblock executed).2) job

end Job

/-! ## Transactions that count with the account -/

/-- The transaction has the nonce of the account and advances it, and no other account of the map is
renonced. -/
structure Advances (job : Job) (x : Executed) : Prop where
  before : x.tx.nonce = job.state.nonce x.sender
  fits : x.tx.nonce.toNat + 1 < 2 ^ 64
  after : x.state.nonce x.sender = x.tx.nonce + 1
  others : ∀ a ∈ job.executedSenderNonces, a ≠ x.sender → x.state.nonce a = job.state.nonce a

def AllAdvance : Job → List Executed → Prop
  | _, [] => True
  | job, x :: xs => Advances job x ∧ AllAdvance (job.execute x) xs

/-- The map is one behind the state. -/
def Job.Tracks (job : Job) : Prop :=
  ∀ a n, job.executedSenderNonces.lookup a = some n →
    job.state.nonce a = n + 1 ∧ n.toNat + 1 < 2 ^ 64

variable {job : Job} {x : Executed}

-- The nonces of a sender rise by one, so that the larger one is always the new one.
theorem Job.Tracks.lookup_sender (h : job.Tracks) (hx : Advances job x) :
    (job.execute x).executedSenderNonces.lookup x.sender = some x.tx.nonce := by
  unfold Job.execute
  rw [AList.lookup_insert]
  split
  · rename_i m hm
    obtain ⟨hnext, hfits⟩ := h _ m hm
    have hle : m ≤ x.tx.nonce := by
      rw [hx.before.trans hnext, UInt64.le_iff_toNat_le]
      exact (Nat.le_succ _).trans (Nat.mod_eq_of_lt hfits).ge
    rw [UInt64.max_def, if_pos hle]
  · rfl

theorem Job.Tracks.execute (h : job.Tracks) (hx : Advances job x) :
    (job.execute x).Tracks := by
  intro a n hn
  by_cases ha : a = x.sender
  · subst ha
    obtain rfl : x.tx.nonce = n := Option.some.inj ((h.lookup_sender hx).symm.trans hn)
    exact ⟨hx.after, hx.fits⟩
  · unfold Job.execute at hn
    rw [AList.lookup_insert_ne ha] at hn
    obtain ⟨hnext, hfits⟩ := h a n hn
    have ha' : a ∈ job.executedSenderNonces := AList.lookup_isSome.mp (hn ▸ rfl)
    exact ⟨(hx.others a ha' ha).trans hnext, hfits⟩

theorem Job.Tracks.foldl {xs : List Executed} (h : job.Tracks) (hxs : AllAdvance job xs) :
    (xs.foldl Job.execute job).Tracks := by
  induction xs generalizing job with
  | nil => exact h
  | cons x xs ih => exact ih (h.execute hxs.1) hxs.2

theorem Job.Tracks.changedAccounts (h : job.Tracks)
    (hreads : ∀ a ∈ job.executedSenderNonces, job.state.fails a = false)
    {c : ChangedAccount} (hc : c ∈ job.changedAccounts) :
    c.nonce = job.state.nonce c.address ∧ c.balance = job.state.balance c.address := by
  obtain ⟨⟨a, n⟩, hentry, rfl⟩ := List.mem_map.mp hc
  have hlookup := AList.mem_lookup_iff.mpr hentry
  obtain ⟨hnext, -⟩ := h a n hlookup
  refine ⟨hnext.symm, ?_⟩
  have ha : job.state.fails a = false := hreads a (AList.lookup_isSome.mp (hlookup ▸ rfl))
  simp only [State.basic, ha, State.balance]
  cases job.state.accounts a <;> rfl

/-- In every job whose transactions count with the account, the pool is told what the state has. -/
theorem changedAccounts_true {state : State} {flashblocks : List (List Executed)}
    (hjob : (Job.start state).run flashblocks = job)
    (hall : AllAdvance (.start state) flashblocks.flatten)
    (hreads : ∀ a ∈ job.executedSenderNonces, job.state.fails a = false) (next : List Executed) :
    ∀ c ∈ (job.buildNextFlashblock next).1,
      c.nonce = job.state.nonce c.address ∧ c.balance = job.state.balance c.address := by
  intro c hc
  have hstart : (Job.start state).Tracks := fun a n hn => nomatch hn
  have hrun := hstart.foldl hall
  rw [List.foldl_flatten] at hrun
  exact Job.Tracks.changedAccounts (hjob ▸ hrun) hreads hc

namespace ChangedAccountsExample

def sender : Address := FixedBytes.zero 20

def other : Address := ⟨List.replicate 20 0x11, rfl⟩

def created : Address := ⟨List.replicate 20 0x22, rfl⟩

/-- Every account has a balance of five. -/
def accounts (n m k : UInt64) : State :=
  ⟨fun a => some ⟨if a = sender then n else if a = other then m else if a = created then k else 0, 5⟩,
    fun a => a = created⟩

def payment (n : UInt64) (sender : Address) (after : State) : Executed :=
  ⟨.legacy ⟨none, n, 0, 21000, some other, 0, []⟩ ⟨1, 1, false⟩, sender, after⟩

def creation (n : UInt64) (sender : Address) (after : State) : Executed :=
  ⟨.legacy ⟨none, n, 0, 53000, none, 0, []⟩ ⟨1, 1, false⟩, sender, after⟩

/-- A payment of one sender; then one of the other, and a contract that the first one creates, whose
account gets nonce one and cannot be read. -/
def flashblocks : List (List Executed) :=
  [[payment 0 sender (accounts 1 7 0)],
    [payment 7 other (accounts 1 8 0), creation 1 sender (accounts 2 8 1)]]

/-- The fourth transaction with nonce key seven, which leaves the nonce of the account. -/
def lane : Executed :=
  ⟨.eip8130 ⟨⟨8453, some sender, 7, 3, 0, 0, 0, 0, 100000, [], [], [], none⟩, [], []⟩, sender,
    accounts 0 0 0⟩

theorem flashblocks_advance : AllAdvance (.start (accounts 0 7 0)) flashblocks.flatten := by
  refine ⟨⟨rfl, by decide, rfl, by rintro _ ⟨⟩⟩, ⟨rfl, by decide, rfl, ?_⟩, ⟨rfl, by decide, rfl, ?_⟩,
    trivial⟩
  · intro a ha _
    obtain rfl | ⟨⟨⟩⟩ := (AList.mem_insert _).mp ha
    rfl
  · intro a ha hne
    obtain rfl | ha := (AList.mem_insert _).mp ha
    · rfl
    · obtain rfl | ⟨⟨⟩⟩ := (AList.mem_insert _).mp ha
      exact absurd rfl hne

end ChangedAccountsExample

open ChangedAccountsExample

theorem changedAccounts_true_transfers :
    let job := (Job.start (accounts 0 7 0)).run flashblocks
    (job.buildNextFlashblock []).1 = [⟨sender, 2, 5⟩, ⟨other, 8, 5⟩] ∧
      ∀ c ∈ (job.buildNextFlashblock []).1,
        c.nonce = job.state.nonce c.address ∧ c.balance = job.state.balance c.address := by
  have hreads : ∀ a ∈ [sender, other], (accounts 2 8 1).fails a = false :=
    List.forall_mem_cons.mpr ⟨rfl, List.forall_mem_singleton.mpr rfl⟩
  exact ⟨rfl, @changedAccounts_true _ (accounts 0 7 0) flashblocks rfl flashblocks_advance hreads []⟩

/-- The pool is told that the next nonce is four where the account still has nonce zero. -/
theorem changedAccounts_of_lane :
    let job := (Job.start (accounts 0 0 0)).run [[lane]]
    (job.buildNextFlashblock []).1 = [⟨sender, 4, 5⟩] ∧ job.state.nonce sender = 0 :=
  ⟨rfl, rfl⟩

end NodeReth.Flashblocks
