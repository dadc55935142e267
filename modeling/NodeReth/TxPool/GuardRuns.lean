import NodeReth.TxPool.Eviction

/-!
# Runs of the mempool guard

After any calls the guard's ledger is that of the live transactions, as long as no forced insertion
charges an account that has reached the largest count of its counter. The live transactions are
those that the calls admitted and did not report as dropped. The counters hold 32 bits, so the
exception is real: a run of forced insertions past it leaves a count too low.
-/

namespace NodeReth

open Bytes FinMap FixedBytes InflightCounters List

inductive GuardCall
  | tryAdmit (a : Admission)
  | insertForced (a : Admission)
  | release (hash : TxHash)
  | invalidateAll
  | invalidateExact (changed : List InvalidationKey)
  | invalidateExpiryBucketsThrough (horizon : ℕ)
  | onBalanceChanged (account : Address) (newBalance : ℕ)

namespace MempoolGuard

/-! ## Calls and the live transactions -/

def dropAll (live : FinMap TxHash Live) (dropped : List TxHash) : FinMap TxHash Live :=
  dropped.foldl (fun live h => live.erase h) live

/-- The live transactions with an admission, unless it was live already. -/
def admitted (live : FinMap TxHash Live) (a : Admission) (reserved : Bool) : FinMap TxHash Live :=
  if (live.lookup a.hash).isSome then live else live.insert a.hash ⟨a, reserved⟩

variable (s : MempoolGuard × FinMap TxHash Live)

/-- One call, with what its answer says about the live transactions. -/
def step : GuardCall → Option (MempoolGuard × FinMap TxHash Live)
  | .tryAdmit a => match s.1.tryAdmit a with
    | (.ok (), g) => some (g, admitted s.2 a a.payerTrusted)
    | (.error _, g) => some (g, s.2)
  | .insertForced a =>
    let g := s.1.insertForced a
    some (g, admitted s.2 a ((g.records.lookup a.hash).any (·.payerTrusted)))
  | .release hash => some ((s.1.release hash).2, s.2.erase hash)
  | .invalidateAll => some (s.1.invalidateAll.2, dropAll s.2 s.1.invalidateAll.1)
  | .invalidateExact changed =>
    some ((s.1.invalidateExact changed).2, dropAll s.2 (s.1.invalidateExact changed).1)
  | .invalidateExpiryBucketsThrough horizon =>
    let (dropped, _, g) := s.1.invalidateExpiryBucketsThrough horizon
    some (g, dropAll s.2 dropped)
  | .onBalanceChanged account newBalance =>
    (s.1.onBalanceChanged account newBalance).map fun (dropped, g) => (g, dropAll s.2 dropped)

/-- The state after a list of calls; `none` when an assertion failed. -/
def run (calls : List GuardCall) : Option (MempoolGuard × FinMap TxHash Live) :=
  calls.foldlM step s

def AlwaysRoom : MempoolGuard × FinMap TxHash Live → List GuardCall → Prop
  | _, [] => True
  | s, call :: calls =>
    (∀ a, call = .insertForced a → Room s.2 a) ∧ ∀ s', step s call = some s' → AlwaysRoom s' calls

/-! ## What the ledger must be -/

structure LedgerOf (live : FinMap TxHash Live) (g : MempoolGuard) : Prop where
  records : ∀ h, g.records.lookup h = (live.lookup h).map Live.record
  signature : ∀ a, g.signatureCounts.get a = live.count fun _ e => e.charges a
  payment : ∀ a, g.paymentCounts.get a = live.count fun _ e => e.paidByCount a
  reservations : ∀ a b, g.payerBooks a = some b →
    ∀ h, b.entries.lookup h = (live.lookup h).bind (Live.share a)
  reserved : ∀ a b, g.payerBooks a = some b → b.reserved =
    (live.total fun _ e => if e.paidByBook a = true then e.admission.maxCost else 0) ∧
      b.reserved ≤ b.balance
  nonempty : ∀ a b, g.payerBooks a = some b → b.isEmpty = false
  noBook : ∀ a, g.payerBooks a = none → ∀ h e, live.lookup h = some e → e.paidByBook a = false
  watchers : ∀ key h, h ∈ g.index.bucket key ↔
    ∃ e, live.lookup h = some e ∧ key ∈ e.admission.watchSet.keys

variable {live : FinMap TxHash Live} {g : MempoolGuard}

theorem Exact.ledgerOf (hx : Exact [] live g) : LedgerOf live g where
  records := hx.records
  signature := hx.signature
  payment := hx.payment
  reservations a b hab := (hx.books.book a b hab).lookup_live
  reserved a b hab := by
    have hb := hx.books.book a b hab
    refine ⟨?_, hb.fits⟩
    rw [hb.valid.reserved_eq]
    refine total_congr fun h => ?_
    rw [hb.lookup_live h]
    cases live.lookup h with
    | none => rfl
    | some e => by_cases hpaid : e.paidByBook a = true <;> simp [Live.share, hpaid]
  nonempty a b hab := (hx.books.book a b hab).isEmpty_eq_false
  noBook a ha h e he := by
    by_contra hpaid
    rw [Bool.not_eq_false] at hpaid
    have := hx.books.noBook a ha h (by rw [he]; exact Live.share_isSome.mpr hpaid)
    cases this
  watchers key h := by
    rw [hx.index.mem_iff, hx.watchSets]
    cases live.lookup h <;> simp

/-! ## Steps -/

variable {a : Admission} {e : Live}

theorem admitted_of_none {reserved : Bool} (h : live.lookup a.hash = none) :
    admitted live a reserved = live.insert a.hash ⟨a, reserved⟩ := by
  unfold admitted
  rw [h]
  rfl

theorem admitted_of_some {reserved : Bool}
    (h : live.lookup a.hash = some e) : admitted live a reserved = live := by
  unfold admitted
  rw [h]
  rfl

section

variable (hx : Exact [] live g)

include hx

theorem Exact.isSome_records (h : TxHash) : (g.records.lookup h).isSome = (live.lookup h).isSome := by
  rw [hx.records, Option.isSome_map]

theorem Exact.tryAdmit_live (hlive : live.lookup a.hash = some e) : g.tryAdmit a = (.ok (), g) := by
  unfold MempoolGuard.tryAdmit
  rw [if_pos (by rw [hx.isSome_records, hlive]; rfl)]

theorem Exact.insertForced_live (hlive : live.lookup a.hash = some e) : g.insertForced a = g := by
  unfold MempoolGuard.insertForced
  rw [if_pos (by rw [hx.isSome_records, hlive]; rfl)]

/-- The transactions that a change of exact keys affects are live, and all of them are dropped. -/
theorem Exact.invalidateExact (changed : List InvalidationKey) :
    (g.invalidateExact changed).1 = g.index.affectedExact changed ∧
      Exact [] (dropAll live (g.index.affectedExact changed)) (g.invalidateExact changed).2 := by
  obtain ⟨hexact, hdropped⟩ := hx.releaseAll (g.index.affectedExact changed)
  refine ⟨?_, hexact⟩
  show (g.releaseAll (g.index.affectedExact changed)).1 = _
  rw [hdropped (InvalidationIndex.nodup_affectedExact hx.index.tidy changed), filter_eq_self]
  intro h hmem
  obtain ⟨key, -, -, hbucket⟩ := (InvalidationIndex.mem_affectedExact _ _ _).mp hmem
  obtain ⟨w, hw, -⟩ := (hx.index.mem_iff h key).mp hbucket
  rw [hx.watchSets] at hw
  cases hlive : live.lookup h with
  | none =>
    rw [hlive] at hw
    cases hw
  | some e => rfl

theorem Exact.step {call : GuardCall} (hroom : ∀ a, call = .insertForced a → Room live a) :
    ∃ g' live', MempoolGuard.step (g, live) call = some (g', live') ∧ Exact [] live' g' := by
  cases call with
  | tryAdmit a =>
    cases hlive : live.lookup a.hash with
    | some e =>
      refine ⟨g, live, ?_, hx⟩
      simp [MempoolGuard.step, hx.tryAdmit_live hlive, admitted_of_some hlive]
    | none =>
      rcases hx.tryAdmit hlive with ⟨g₁, hcharged, hok⟩ | ⟨e, g₁, herr, hsame, hindex⟩
      · refine ⟨g₁.track a a.payerTrusted, admitted live a a.payerTrusted, ?_, ?_⟩
        · simp only [MempoolGuard.step, hok]
        · rw [admitted_of_none hlive]
          exact hx.track hlive hcharged
      · refine ⟨g₁, live, ?_, hx.of_sameLedger hsame hindex⟩
        simp [MempoolGuard.step, herr]
  | insertForced a =>
    cases hlive : live.lookup a.hash with
    | some e =>
      refine ⟨g, live, ?_, hx⟩
      simp [MempoolGuard.step, hx.insertForced_live hlive, admitted_of_some hlive]
    | none =>
      obtain ⟨reserved, g₁, hcharged, hforced⟩ := hx.insertForced hlive (hroom a rfl)
      have hrecord : (g₁.track a reserved).records.lookup a.hash = some (a.record reserved) :=
        AList.lookup_insert _
      refine ⟨g₁.track a reserved, admitted live a reserved, ?_, ?_⟩
      · simp only [MempoolGuard.step, hforced, hrecord]
        rfl
      · rw [admitted_of_none hlive]
        exact hx.track hlive hcharged
  | release hash =>
    cases hlive : live.lookup hash with
    | some e => exact ⟨_, _, rfl, (hx.release hlive).2⟩
    | none =>
      refine ⟨g, live.erase hash, ?_, ?_⟩
      · simp [MempoolGuard.step, hx.release_none hlive]
      · have herase : live.erase hash = live :=
          AList.ext (kerase_of_notMem_keys (AList.lookup_eq_none.mp hlive))
        rwa [herase]
  | invalidateAll => exact ⟨_, _, rfl, (hx.releaseAll g.records.keys).1⟩
  | invalidateExact changed =>
    obtain ⟨hdropped, hexact⟩ := hx.invalidateExact changed
    exact ⟨_, _, rfl, hdropped ▸ hexact⟩
  | invalidateExpiryBucketsThrough horizon =>
    obtain ⟨hdropped, hexact⟩ := hx.invalidateExact (g.index.dueExpiryBuckets horizon)
    refine ⟨_, _, rfl, ?_⟩
    rwa [← hdropped] at hexact
  | onBalanceChanged account newBalance =>
    obtain ⟨dropped, g', hcall, hexact, -⟩ := hx.onBalanceChanged account newBalance
    refine ⟨g', dropAll live dropped, ?_, hexact⟩
    simp [MempoolGuard.step, hcall]

/-! ## Runs -/

theorem Exact.run (calls : List GuardCall) (hroom : AlwaysRoom (g, live) calls) :
    ∃ g' live', MempoolGuard.run (g, live) calls = some (g', live') ∧ Exact [] live' g' := by
  induction calls generalizing g live with
  | nil => exact ⟨g, live, rfl, hx⟩
  | cons call calls ih =>
    obtain ⟨g₁, live₁, hstep, hx₁⟩ := hx.step hroom.1
    obtain ⟨g', live', hrun, hx'⟩ := ih hx₁ (hroom.2 _ hstep)
    refine ⟨g', live', ?_, hx'⟩
    unfold MempoolGuard.run at hrun ⊢
    rwa [foldlM_cons, hstep]

end

/-- A balance change evicts from the account's book exactly the transactions that cannot be kept
together with everything above them, and drops the transactions paid by count that the balance no
longer covers. -/
structure BalanceOutcome (live : FinMap TxHash Live) (account : Address) (balance : ℕ)
    (dropped : List TxHash) (g : MempoolGuard) : Prop where
  ledger : LedgerOf (dropAll live dropped) g
  bookBalance : ∀ b, g.payerBooks account = some b → b.balance = balance
  dropped_iff : ∀ h, h ∈ dropped ↔ ∃ e, live.lookup h = some e ∧
    (Overdrawn live account balance h e ∨ Unaffordable account balance e)

/-- After any calls whose forced insertions have room, the ledger is that of the live transactions;
a refused admission changes nothing, a release undoes an admission or a forced insertion, and a
change of balance evicts no more than needed. -/
theorem guard_ledger_exact (limits : GuardLimits) (calls : List GuardCall)
    (hroom : AlwaysRoom (new limits, ∅) calls) :
    ∃ g live, run (new limits, ∅) calls = some (g, live) ∧ LedgerOf live g ∧
      (∀ a e g', g.tryAdmit a = (.error e, g') → SameLedger g g') ∧
      (∀ a g', live.lookup a.hash = none → g.tryAdmit a = (.ok (), g') →
        (g'.release a.hash).1 = true ∧ SameLedger g (g'.release a.hash).2) ∧
      (∀ a, live.lookup a.hash = none → Room live a →
        ((g.insertForced a).release a.hash).1 = true ∧
          SameLedger g ((g.insertForced a).release a.hash).2) ∧
      ∀ account balance, ∃ dropped g', g.onBalanceChanged account balance = some (dropped, g') ∧
        BalanceOutcome live account balance dropped g' := by
  obtain ⟨g, live, hrun, hx⟩ := (exact_new limits).run calls hroom
  refine ⟨g, live, hrun, hx.ledgerOf, fun a e g' herr => ?_, fun a g' hnew hok => ?_,
    fun a hnew hra => ?_, fun account balance => ?_⟩
  · cases hlive : live.lookup a.hash with
    | some f =>
      rw [hx.tryAdmit_live hlive] at herr
      cases herr
    | none =>
      rcases hx.tryAdmit hlive with ⟨g₁, -, hok⟩ | ⟨f, g₁, hrej, hsame, -⟩
      · rw [hok] at herr
        cases herr
      · rw [hrej] at herr
        cases herr
        exact hsame
  · rcases hx.tryAdmit hnew with ⟨g₁, hcharged, hacc⟩ | ⟨f, g₁, hrej, -⟩
    · rw [hacc] at hok
      cases hok
      exact hx.release_track hnew hcharged
    · rw [hrej] at hok
      cases hok
  · obtain ⟨reserved, g₁, hcharged, hforced⟩ := hx.insertForced hnew hra
    rw [hforced]
    exact hx.release_track hnew hcharged
  · obtain ⟨dropped, g', hcall, hexact, hbalance, hiff⟩ := hx.onBalanceChanged account balance
    exact ⟨dropped, g', hcall, hexact.ledgerOf, hbalance, hiff⟩

/-! ### A payer with three transactions -/

theorem size_dropAll_le (live : FinMap TxHash Live) (dropped : List TxHash) :
    (dropAll live dropped).size ≤ live.size := by
  induction dropped generalizing live with
  | nil => exact le_rfl
  | cons h dropped ih => exact (ih _).trans (size_erase_le live h)

/-- A call admits at most one transaction. -/
theorem size_step {s s' : MempoolGuard × FinMap TxHash Live} {call : GuardCall}
    (h : step s call = some s') : s'.2.size ≤ s.2.size + 1 := by
  have hadmitted (a : Admission) (reserved : Bool) :
      (admitted s.2 a reserved).size ≤ s.2.size + 1 := by
    unfold admitted
    split_ifs
    · exact Nat.le_succ _
    · exact size_insert_le _ _ _
  have hdropped (dropped : List TxHash) : (dropAll s.2 dropped).size ≤ s.2.size + 1 :=
    (size_dropAll_le _ _).trans (Nat.le_succ _)
  cases call with
  | tryAdmit a =>
    simp only [step] at h
    split at h <;> cases h
    · exact hadmitted _ _
    · exact Nat.le_succ _
  | insertForced a => cases h; exact hadmitted _ _
  | release hash => cases h; exact (size_erase_le _ _).trans (Nat.le_succ _)
  | invalidateAll | invalidateExact _ | invalidateExpiryBucketsThrough _ => cases h; exact hdropped _
  | onBalanceChanged account newBalance =>
    obtain ⟨_, -, rfl⟩ := Option.map_eq_some_iff.mp h
    exact hdropped _

/-- There is room for as many calls as a counter can count. -/
theorem alwaysRoom_of_few {calls : List GuardCall} {s : MempoolGuard × FinMap TxHash Live}
    (h : s.2.size + calls.length ≤ u32Max) : AlwaysRoom s calls := by
  induction calls generalizing s with
  | nil => trivial
  | cons call calls ih =>
    rw [length_cons] at h
    have hcount (p : TxHash → Live → Bool) : s.2.count p < u32Max := by
      have : s.2.count p ≤ s.2.size := countP_le_length
      omega
    refine ⟨fun a _ => ⟨fun _ _ => hcount _, hcount _⟩, fun s' hstep => ih ?_⟩
    have := size_step hstep
    omega

namespace Sponsored

def payer : Address := fixedBe 20 9

/-- A transaction of account `n` that the payer, with a balance of 100, pays for. -/
def paid (n maxCost priority bucket : ℕ) : Admission where
  hash := fixedBe 32 n
  sender := fixedBe 20 n
  payer := payer
  senderLocked := false
  payerLocked := false
  payerTrusted := true
  payerBalance := 100
  maxCost := maxCost
  priority := priority
  watchSet := ((WatchSet.new.push (.balance payer)).push (.protocolNonce (fixedBe 20 n))).push
    (.expiryBucket bucket)

/-- The third transaction does not fit the balance of the payer and is paid by count, the fourth pays
for itself. -/
def calls : List GuardCall :=
  [.tryAdmit (paid 1 60 5 3), .tryAdmit (paid 2 30 1 7), .insertForced (paid 3 50 9 2),
    .tryAdmit { paid 4 10 0 8 with payer := fixedBe 20 4, payerTrusted := false }]

/-- The last transaction leaves, and a lower balance evicts the second. -/
def laterCalls : List GuardCall := calls ++ [.release (fixedBe 32 4), .onBalanceChanged payer 70]

theorem alwaysRoom : AlwaysRoom (new .default, ∅) laterCalls := alwaysRoom_of_few (by decide)

end Sponsored

section

open Sponsored

theorem guard_ledger_exact_sponsored :
    AlwaysRoom (new .default, ∅) laterCalls ∧
      ∃ g live, run (new .default, ∅) laterCalls = some (g, live) ∧ LedgerOf live g ∧
        live.keys = [fixedBe 32 3, fixedBe 32 1] ∧
        ∃ g', g.onBalanceChanged payer 55 = some ([fixedBe 32 1], g') ∧
          BalanceOutcome live payer 55 [fixedBe 32 1] g' := by
  obtain ⟨g, live, hrun, hledger, -, -, -, hbalance⟩ :=
    guard_ledger_exact .default laterCalls alwaysRoom
  obtain ⟨dropped, g', hcall, houtcome⟩ := hbalance payer 55
  have hkeys : (run (new .default, ∅) laterCalls).map (·.2.keys) =
      some [fixedBe 32 3, fixedBe 32 1] := by
    decide +kernel
  have hdropped : (run (new .default, ∅) laterCalls).bind (fun s =>
      (s.1.onBalanceChanged payer 55).map Prod.fst) = some [fixedBe 32 1] := by
    decide +kernel
  rw [hrun] at hkeys hdropped
  rw [Option.bind_some, hcall] at hdropped
  cases Option.some.inj hdropped
  exact ⟨alwaysRoom, g, live, hrun, hledger, Option.some.inj hkeys, g', hcall, houtcome⟩

end

/-! ## Past the largest count -/

/-- The `i`-th of many transactions that one account sends and pays for. -/
def nthForced (i : ℕ) : Admission where
  hash := fixedBe 32 i
  sender := zero 20
  payer := zero 20
  senderLocked := false
  payerLocked := false
  payerTrusted := false
  payerBalance := 0
  maxCost := 0
  priority := 0
  watchSet := .new

/-- The forced insertion of the first transactions of one account. -/
def forcedCalls (n : ℕ) : List GuardCall :=
  (range n).map fun i => .insertForced (nthForced i)

theorem nthForced_hash_ne {i j : ℕ} (hi : i < 256 ^ 32) (hj : j < 256 ^ 32) (hne : i ≠ j) :
    (nthForced i).hash ≠ (nthForced j).hash := by
  intro heq
  have hbytes := congrArg Subtype.val heq
  simp only [nthForced, fixedBe] at hbytes
  apply hne
  rw [← ofBe_toBe hi, hbytes, ofBe_toBe hj]

theorem nthForced_charges (i : ℕ) : (⟨nthForced i, false⟩ : Live).charges (zero 20) = true := by
  simp [Live.charges, nthForced, Admission.senderSignatureCharged]

theorem step_nthForced {i : ℕ} (hx : Exact [] live g)
    (hlive : live.lookup (nthForced i).hash = none) :
    step (g, live) (.insertForced (nthForced i)) = some (g.insertForced (nthForced i),
      live.insert (nthForced i).hash ⟨nthForced i, false⟩) := by
  have hrecord : (g.insertForced (nthForced i)).records.lookup (nthForced i).hash =
      some ((nthForced i).record false) := by
    unfold insertForced
    rw [hx.isSome_records, hlive]
    exact AList.lookup_insert _
  simp only [step, hrecord, admitted_of_none hlive]
  rfl

/-- The first `n` of the transactions are live, and none of the later ones. -/
structure Forced (n : ℕ) (live : FinMap TxHash Live) : Prop where
  charged : (live.count fun _ e => e.charges (zero 20)) = n
  later : ∀ i, n ≤ i → i < 256 ^ 32 → live.lookup (nthForced i).hash = none

theorem Forced.insert {n : ℕ} (hf : Forced n live) (hn : n < 256 ^ 32) :
    Forced (n + 1) (live.insert (nthForced n).hash ⟨nthForced n, false⟩) := by
  have hnew := hf.later n le_rfl hn
  refine ⟨?_, fun i hi hlt => ?_⟩
  · rw [count_insert _ hnew, hf.charged, if_pos (nthForced_charges n)]
  · rw [AList.lookup_insert_ne (nthForced_hash_ne hlt hn (by omega))]
    exact hf.later i (by omega) hlt

theorem u32Max_lt : u32Max < 256 ^ 32 := by
  unfold u32Max
  norm_num

theorem run_forcedCalls_succ (n : ℕ) :
    run s (forcedCalls (n + 1)) =
      (run s (forcedCalls n)).bind fun s => step s (.insertForced (nthForced n)) := by
  unfold run forcedCalls
  rw [range_succ]
  simp

theorem run_forcedCalls (limits : GuardLimits) (n : ℕ) (hn : n ≤ u32Max) : ∃ g live,
    run (new limits, ∅) (forcedCalls n) = some (g, live) ∧ Exact [] live g ∧ Forced n live := by
  induction n with
  | zero => exact ⟨_, _, rfl, exact_new limits, rfl, fun _ _ _ => rfl⟩
  | succ n ih =>
    obtain ⟨g, live, hrun, hx, hf⟩ := ih (by omega)
    have hlt := Nat.lt_trans hn u32Max_lt
    obtain ⟨g', live', hrun', hx'⟩ := (exact_new limits).run (forcedCalls (n + 1))
      (alwaysRoom_of_few (by simpa [forcedCalls, size] using hn))
    refine ⟨g', live', hrun', hx', ?_⟩
    rw [run_forcedCalls_succ, hrun] at hrun'
    cases (step_nthForced hx (hf.later n le_rfl hlt)).symm.trans hrun'
    exact hf.insert hlt

/-- A forced insertion past the largest count is live, and its sender is not charged for it. -/
theorem forced_insertions_saturate : ∃ g live,
    run (new .default, ∅) (forcedCalls (u32Max + 1)) = some (g, live) ∧
      g.signatureCounts.get (zero 20) = u32Max ∧
      (live.count fun _ e => e.charges (zero 20)) = u32Max + 1 := by
  obtain ⟨g, live, hrun, hx, hf⟩ := run_forcedCalls .default u32Max le_rfl
  have hlive := hf.later u32Max le_rfl u32Max_lt
  have hfull : g.signatureCounts.get (zero 20) = u32Max := by
    rw [hx.signature, hf.charged]
  refine ⟨g.insertForced (nthForced u32Max), _, ?_, ?_, (hf.insert u32Max_lt).charged⟩
  · rw [run_forcedCalls_succ, hrun]
    exact step_nthForced hx hlive
  · unfold insertForced
    rw [hx.isSome_records, hlive]
    show ((g.signatureCounts.tryIncrement (zero 20) u32Max).2).get (zero 20) = u32Max
    unfold tryIncrement
    rw [hfull]
    simp [InflightCounters.get]

/-! ## Sweeps -/

/-- After any calls whose forced insertions have room, a change drops exactly the live transactions
that watch one of its exact keys, and a sweep exactly those in an expiry bucket up to its horizon. -/
theorem sweeps_exact (limits : GuardLimits) (calls : List GuardCall)
    (hroom : AlwaysRoom (new limits, ∅) calls) :
    ∃ g live, run (new limits, ∅) calls = some (g, live) ∧
      (∀ changed h, h ∈ (g.invalidateExact changed).1 ↔ ∃ e, live.lookup h = some e ∧
        ∃ key ∈ changed, key.isExact = true ∧ key ∈ e.admission.watchSet.keys) ∧
      ∀ horizon h, h ∈ (g.invalidateExpiryBucketsThrough horizon).1 ↔
        ∃ e, live.lookup h = some e ∧ ∃ n ≤ horizon, .expiryBucket n ∈ e.admission.watchSet.keys := by
  obtain ⟨g, live, hrun, hx⟩ := (exact_new limits).run calls hroom
  have hexact : ∀ changed h, h ∈ (g.invalidateExact changed).1 ↔ ∃ e, live.lookup h = some e ∧
      ∃ key ∈ changed, key.isExact = true ∧ key ∈ e.admission.watchSet.keys := by
    intro changed h
    rw [(hx.invalidateExact changed).1, InvalidationIndex.mem_affectedExact]
    simp only [hx.ledgerOf.watchers]
    tauto
  refine ⟨g, live, hrun, hexact, fun horizon h => (hexact _ h).trans (exists_congr fun e => ?_)⟩
  refine and_congr_right fun hlive => ⟨?_, ?_⟩
  · rintro ⟨key, hkey, -, hwatch⟩
    obtain ⟨n, hn, rfl⟩ := mem_map.mp hkey
    rw [Finset.mem_sort, Finset.mem_filter] at hn
    exact ⟨n, hn.2, hwatch⟩
  · rintro ⟨n, hn, hwatch⟩
    -- an occupied bucket is in the set of due ones
    have hmem : n ∈ g.index.expiryBuckets := by
      rw [hx.index.tidy.expiry]
      intro hnone
      have := (hx.ledgerOf.watchers _ h).mpr ⟨e, hlive, hwatch⟩
      simp [InvalidationIndex.bucket, hnone] at this
    exact ⟨_, mem_map_of_mem (by simp [hmem, hn]), rfl, hwatch⟩

def watched (live : FinMap TxHash Live) : List (TxHash × List InvalidationKey) :=
  live.entries.map fun e => (e.1, e.2.admission.watchSet.keys)

theorem exists_live_iff (P : List InvalidationKey → Prop) [DecidablePred P] (h : TxHash) :
    (∃ e, live.lookup h = some e ∧ P e.admission.watchSet.keys) ↔
      h ∈ ((watched live).filter fun x => P x.2).map Prod.fst := by
  simp only [watched, filter_map, map_map, mem_map, mem_filter, Function.comp_apply,
    decide_eq_true_eq]
  constructor
  · rintro ⟨e, he, hP⟩
    exact ⟨⟨h, e⟩, ⟨AList.mem_lookup_iff.mp he, hP⟩, rfl⟩
  · rintro ⟨⟨_, e⟩, ⟨he, hP⟩, rfl⟩
    exact ⟨e, AList.mem_lookup_iff.mpr he, hP⟩

section

open Sponsored

/-- A change of a balance and a nonce drops the transaction with the nonce, and a sweep the two
transactions in the buckets 2 and 3. -/
theorem sweeps_exact_sponsored : ∃ g live, run (new .default, ∅) calls = some (g, live) ∧
    live.size = 4 ∧
    (∀ h, h ∈ (g.invalidateExact [.balance payer, .protocolNonce (fixedBe 20 4)]).1 ↔
      h = fixedBe 32 4) ∧
    ∀ h, h ∈ (g.invalidateExpiryBucketsThrough 3).1 ↔ h = fixedBe 32 3 ∨ h = fixedBe 32 1 := by
  obtain ⟨g, live, hrun, hexact, hsweep⟩ :=
    sweeps_exact .default calls (alwaysRoom_of_few (by decide))
  have hwatched : (run (new .default, ∅) calls).map (fun s => watched s.2) =
      some ([(4, 8), (3, 2), (2, 7), (1, 3)].map fun e => (fixedBe 32 e.1,
        [.balance payer, .protocolNonce (fixedBe 20 e.1), .expiryBucket e.2])) := by
    decide +kernel
  rw [hrun] at hwatched
  have hlive : watched live = _ := Option.some.inj hwatched
  refine ⟨g, live, hrun, ?_, fun h => ?_, fun h => ?_⟩
  · rw [size, ← length_map (fun e => (e.1, e.2.admission.watchSet.keys)), ← watched, hlive]
    rfl
  · rw [hexact, exists_live_iff fun keys => ∃ key ∈ _, key.isExact = true ∧ key ∈ keys, hlive,
      ← mem_singleton]
    exact iff_of_eq (congrArg (h ∈ ·) (by decide +kernel))
  · simp only [hsweep, ← Nat.lt_succ_iff, ← mem_range]
    rw [exists_live_iff fun keys => ∃ n ∈ range 4, .expiryBucket n ∈ keys, hlive, ← mem_pair]
    exact iff_of_eq (congrArg (h ∈ ·) (by decide +kernel))

end

end MempoolGuard

end NodeReth
