import Mathlib.Tactic

/-!
# Proof jobs

A row of `proof_requests` is offered to workers, claimed under a lock that expires, and completed,
failed, requeued or deleted. Each statement of `ProofRequestRepo` that writes is a function of the
row it has locked. What a call has read before its statement, a clock included, is an argument, so
that a run of statements covers every interleaving of calls, with any clocks. Columns that are only
written (messages, receipts, times other than the expiry) are left out. Beside the row of a session
id stands the log of what was done to it, newest first: a call that carries a lock id writes only
while that lock is the last claim in the log.
-/

namespace NodeReth.ProofRequestRepo

open List Option

inductive ProofStatus
  | created | pending | running | succeeded | failed
  deriving DecidableEq

inductive ProofJobStatus
  | pending | claimed | succeeded | failed
  deriving DecidableEq

inductive SessionStatus
  | submitting | running | completed | failed
  deriving DecidableEq

inductive SessionType
  | stark | snark
  deriving DecidableEq

inductive ApiProofType
  | compressed | snarkPlonk | tee
  deriving DecidableEq

inductive ZkVmKind
  | sp1
  deriving DecidableEq

inductive TeeKind
  | awsNitro
  deriving DecidableEq

inductive ZkBackend
  | dryRun | cluster | network
  deriving DecidableEq

/-! ## Rows -/

structure ProofSession where
  sessionType : SessionType
  backendSessionId : String
  status : SessionStatus

structure Request where
  apiProofType : ApiProofType
  zkVm : Option ZkVmKind
  teeKind : Option TeeKind
  zkBackend : Option ZkBackend

/-- A row and its sessions, with the defaults of the `INSERT`. Times are in microseconds. -/
structure ProofRequest where
  request : Request
  status : ProofStatus := .created
  jobStatus : ProofJobStatus := .pending
  attempt : ℕ := 0
  retryCount : ℕ := 0
  workerId : Option String := none
  lockId : Option ℕ := none
  lockExpiresAt : Option ℕ := none
  resultPayload : Option String := none
  teeSigner : Option String := none
  sessions : List ProofSession := []

/-- What is read of a result; the signer is its text. -/
inductive ProofResult
  | compressed (zkVm : ZkVmKind)
  | snarkPlonk (zkVm : ZkVmKind)
  | tee (teeKind : TeeKind) (teeSigner : String)

def ProofResult.signer : ProofResult → Option String
  | .tee _ teeSigner => some teeSigner
  | _ => none

def Request.validateSubmittedResult (q : Request) : ProofResult → Bool
  | .compressed zkVm => q.apiProofType = .compressed ∧ q.zkVm = some zkVm
  | .snarkPlonk zkVm => q.apiProofType = .snarkPlonk ∧ q.zkVm = some zkVm
  | .tee teeKind _ => q.apiProofType = .tee ∧ q.teeKind = some teeKind

structure ClaimProofJob where
  workerId : String
  apiProofType : ApiProofType
  teeKinds : List TeeKind
  zkVms : List ZkVmKind
  zkBackends : List ZkBackend
  lockDurationSeconds : ℕ
  maxAttempts : ℕ

def ClaimProofJob.serves (req : ClaimProofJob) (q : Request) : Bool :=
  q.apiProofType = req.apiProofType && match req.apiProofType with
    | .tee => q.teeKind.any (· ∈ req.teeKinds)
    | _ => q.zkVm.any (· ∈ req.zkVms) &&
        q.zkBackend.getD .cluster ∈ if req.zkBackends = [] then [.cluster] else req.zkBackends

/-- The fencing token a worker presents. -/
structure Token where
  workerId : String
  lockId : ℕ

namespace ProofSession

def isActive (s : ProofSession) : Bool := s.status = .submitting ∨ s.status = .running

/-- The writes of `record_worker_proof_session`. By the partial unique index a type has at most one
active session. -/
def record (session : ProofSession) (sessions : List ProofSession) : Option (List ProofSession) :=
  let same := sessions.filter (·.sessionType = session.sessionType)
  if same.any fun s => s.backendSessionId = session.backendSessionId ∧ !s.isActive then none
  else if same.any (·.isActive) then
    some (sessions.map fun s =>
      if s.sessionType = session.sessionType ∧ s.isActive then session else s)
  else some (sessions ++ [session])

end ProofSession

namespace ProofRequest

variable (r : ProofRequest) (token : Token) (now : ℕ)

def expired : Bool := r.lockExpiresAt.any (· < now)

/-- The guard of the statements that carry a token, and what `ClaimAuth::classify` authorizes. -/
def Held : Prop :=
  r.jobStatus = .claimed ∧ r.lockId = some token.lockId ∧ r.workerId = some token.workerId ∧
    ∃ t ∈ r.lockExpiresAt, now < t

instance : Decidable (r.Held token now) := inferInstanceAs (Decidable (_ ∧ _ ∧ _ ∧ _))

/-- Whether `claim_query` may select the row. -/
def claimable (req : ClaimProofJob) : Bool :=
  req.serves r.request ∧ (r.jobStatus = .pending ∨
    r.jobStatus = .claimed ∧ r.expired now ∧ r.attempt < req.maxAttempts)

/-- What `retry_or_fail_stuck_request` acts on. -/
def stuck : Bool :=
  r.status = .pending ∨ r.status = .running ∧ r.jobStatus = .claimed ∧ r.lockExpiresAt = none

def clearSessions : List ProofSession :=
  r.sessions.map fun s => if s.isActive then { s with status := .failed } else s

/-- The reset that both ways to requeue share. -/
def requeue : ProofRequest :=
  { r with
    status := .created
    jobStatus := .pending
    retryCount := r.retryCount + 1
    resultPayload := none
    teeSigner := none
    workerId := none
    lockId := none
    lockExpiresAt := none
    attempt := 0
    sessions := r.clearSessions }

end ProofRequest

/-! ## Operations -/

/-- What was done to a session id. -/
inductive Event
  | created | claimed (workerId : String) (lockId : ℕ) | extended | recorded | completed | failed
  | requeued | deleted

def Event.lockId : Event → Option ℕ
  | claimed _ lockId => some lockId
  | _ => none

/-- Two events do not claim the same lock id. -/
def Event.apart (e e' : Event) : Bool := e.lockId = none ∨ e.lockId ≠ e'.lockId

/-- The statements that write. `create` is the `INSERT` of `create_for_worker_queue` and
`requeueFailed` what follows its conflict, with the mismatch it has found; `existing` is the job
that `complete_claimed_proof_job` has read, at any earlier time; `serverNow` is not the clock of the
database. -/
inductive Op
  | create (request : Request)
  | requeueFailed (zkBackend : Option ZkBackend) (mismatch : Option String) (maxRetries : ℤ)
      (retryFailed : Bool)
  | claimNext (req : ClaimProofJob) (lockId : ℕ)
  | heartbeat (token : Token) (lockDurationSeconds : ℕ)
  | recordSession (token : Token) (session : ProofSession) (serverNow : ℕ)
  | completeClaimed (token : Token) (result : ProofResult) (payload : String)
      (existing : ProofRequest) (serverNow : ℕ)
  | failExpired (maxAttempts : ℕ)
  | retryOrFailStuck (maxRetries : ℤ)
  | deleteBySessionId
  | deleteByTeeSigner (lowercased : String)

/-- The token that a call carries. -/
def Op.token : Op → Option Token
  | heartbeat token _ | recordSession token _ _ | completeClaimed token _ _ _ _ => some token
  | _ => none

/-- The row after an operation on it, none when it is deleted, if the operation writes at all. -/
def Op.write (now : ℕ) (r : ProofRequest) : Op → Option (Option ProofRequest × Event)
  | create _ => none
  | requeueFailed zkBackend mismatch maxRetries retryFailed =>
    if r.status = .failed ∧ mismatch = none ∧ retryFailed ∧ r.retryCount < maxRetries then
      some (some { r.requeue with request := { r.request with zkBackend } }, .requeued)
    else none
  | claimNext req lockId =>
    -- `attempt` is an `INTEGER`, whose overflow fails the statement
    if r.claimable now req ∧ r.attempt + 1 < 2 ^ 31 then
      some (some { r with
        jobStatus := .claimed
        status := .running
        workerId := some req.workerId
        lockId := some lockId
        attempt := r.attempt + 1
        lockExpiresAt := some (now + req.lockDurationSeconds * 1000000) },
        .claimed req.workerId lockId)
    else none
  | heartbeat token lockDurationSeconds =>
    if r.Held token now then
      some (some { r with lockExpiresAt := some (now + lockDurationSeconds * 1000000) }, .extended)
    else none
  | recordSession token session serverNow =>
    if session.isActive ∧ r.Held token serverNow then
      (session.record r.sessions).map fun sessions => (some { r with sessions }, .recorded)
    else none
  | completeClaimed token result payload existing serverNow =>
    if existing.Held token serverNow ∧ existing.request.validateSubmittedResult result ∧
        r.Held token now then
      some (some { r with
        jobStatus := .succeeded
        status := .succeeded
        resultPayload := some payload
        teeSigner := result.signer }, .completed)
    else none
  | failExpired maxAttempts =>
    if r.jobStatus = .claimed ∧ r.expired now ∧ maxAttempts ≤ r.attempt then
      some (some { r with jobStatus := .failed, status := .failed }, .failed)
    else none
  | retryOrFailStuck maxRetries =>
    if ¬ r.stuck then none
    else if maxRetries ≤ r.retryCount then
      some (some { r with
        status := .failed
        jobStatus := .failed
        workerId := none
        lockId := none
        lockExpiresAt := none
        sessions := r.clearSessions }, .failed)
    else some (some r.requeue, .requeued)
  | deleteBySessionId =>
    if r.status = .succeeded ∨ r.status = .failed then some (none, .deleted) else none
  | deleteByTeeSigner lowercased =>
    if r.teeSigner = some lowercased ∧ r.status = .succeeded then some (none, .deleted) else none

structure Entry where
  row : Option ProofRequest := none
  log : List Event := []

/-- Lock ids are fresh: a claim with one that was used does not occur. -/
def Entry.apply (e : Entry) (now : ℕ) (op : Op) : Entry :=
  match op, e.row with
  | .create request, none => ⟨some { request }, .created :: e.log⟩
  | _, none => e
  | op, some r => match op.write now r with
    | some (row, event) => if e.log.all event.apart then ⟨row, event :: e.log⟩ else e
    | none => e

/-- One statement, at the time the database reads. Which of the rows that pass its guard it selects
is left open: the session id, the order and the rows that others have locked decide. -/
structure Statement where
  now : ℕ
  op : Op
  selects : String → Bool

/-- What is stored for each session id after a run from the empty table, newest statement first. -/
def run : List Statement → String → Entry
  | [], _ => {}
  | x :: xs, sid => if x.selects sid then (run xs sid).apply x.now x.op else run xs sid

/-! ## What a statement does to one session id -/

variable {r r' : ProofRequest} {row : Option ProofRequest} {token : Token} {now : ℕ} {op : Op}
  {event : Event} {log : List Event} {xs : List Statement} {sid : String}

/-- Nothing, an insertion, or a write. -/
theorem run_cons (x : Statement) (xs : List Statement) (sid : String) :
    run (x :: xs) sid = run xs sid ∨
      (∃ request, x.op = .create request ∧ (run xs sid).row = none ∧
        run (x :: xs) sid = ⟨some { request }, .created :: (run xs sid).log⟩) ∨
      ∃ r row event, (run xs sid).row = some r ∧ x.op.write x.now r = some (row, event) ∧
        (∀ e ∈ (run xs sid).log, event.apart e) ∧
        run (x :: xs) sid = ⟨row, event :: (run xs sid).log⟩ := by
  rw [run]
  split_ifs
  · unfold Entry.apply
    split
    · exact .inr (.inl ⟨_, ‹_›, ‹_›, rfl⟩)
    · exact .inl rfl
    · split
      · rename_i hr _ row event hwrite
        split_ifs with hfresh
        · exact .inr (.inr ⟨_, row, event, hr, hwrite, all_eq_true.mp hfresh, rfl⟩)
        · exact .inl rfl
      · exact .inl rfl
  · exact .inl rfl

/-- A property of a row and its log that holds of new rows and that the operations keep. -/
theorem row_invariant (xs : List Statement) (sid : String)
    (inv : ProofRequest → List Event → Prop) (ok : Op → Prop)
    (hnew : ∀ request log, inv { request } (.created :: log))
    (hwrite : ∀ now op r r' event log, ok op → inv r log → op.write now r = some (some r', event) →
      inv r' (event :: log))
    (hok : ∀ x ∈ xs, ok x.op) : ∀ r ∈ (run xs sid).row, inv r (run xs sid).log := by
  induction xs with
  | nil => simp [run]
  | cons x xs ih =>
    obtain ⟨hx, hok⟩ := forall_mem_cons.mp hok
    intro r' hr'
    rcases run_cons x xs sid with h | ⟨_, _, _, h⟩ | ⟨r, _, event, hr, hw, _, h⟩ <;> rw [h] at hr' ⊢
    · exact ih hok r' hr'
    · cases hr'
      exact hnew ..
    · cases hr'
      exact hwrite _ _ r r' event _ hx (ih hok r hr) hw

/-! ## Fencing -/

/-- Who holds the lock: the last claim, until a result, a failure, a requeue or a deletion. -/
def owner : List Event → Option Token
  | .claimed w l :: _ => some ⟨w, l⟩
  | .extended :: log | .recorded :: log => owner log
  | _ => none

/-- A claim, a requeue, a failure, and also a result and a deletion, end the claims before them. -/
def Event.supersedes : Event → Bool
  | .extended | .recorded => false
  | _ => true

/-- No lock id is claimed twice. -/
theorem apart_log (xs : List Statement) (sid : String) :
    (run xs sid).log.Pairwise (·.apart ·) := by
  induction xs with
  | nil => exact .nil
  | cons x xs ih =>
    rcases run_cons x xs sid with h | ⟨_, _, _, h⟩ | ⟨_, _, _, _, _, hfresh, h⟩ <;> rw [h]
    · exact ih
    · exact .cons (fun _ _ => rfl) ih
    · exact .cons hfresh ih

theorem owner_superseded {later earlier : List Event} {w : String}
    (hd : (later ++ .claimed w token.lockId :: earlier).Pairwise (·.apart ·))
    (h : ∃ e ∈ later, e.supersedes) :
    owner (later ++ .claimed w token.lockId :: earlier) ≠ some token := by
  induction later with
  | nil => simp at h
  | cons e later ih =>
    obtain ⟨he, hd'⟩ := pairwise_cons.mp hd
    cases e with
    | claimed w' l' =>
      rintro ⟨⟩
      simpa [Event.apart, Event.lockId] using he _ (mem_append_right _ mem_cons_self)
    | extended | recorded =>
      refine ih hd' ?_
      simpa [Event.supersedes] using h
    | _ => exact nofun

def ProofRequest.Agrees (r : ProofRequest) : Prop :=
  (r.status, r.jobStatus) ∈ [(.created, .pending), (.running, .claimed),
    (.succeeded, .succeeded), (ProofStatus.failed, ProofJobStatus.failed)]

structure Fenced (r : ProofRequest) (log : List Event) : Prop where
  agrees : r.Agrees
  owned : r.jobStatus = .claimed → ∀ token : Token, r.lockId = some token.lockId →
    r.workerId = some token.workerId → owner log = some token
  stored : r.resultPayload ≠ none → r.jobStatus = .succeeded

namespace Fenced

open ProofRequest

theorem write (h : Fenced r log) (hw : op.write now r = some (some r', event)) :
    Fenced r' (event :: log) := by
  obtain ⟨hagrees, howned, hstored⟩ := h
  cases op with simp only [Op.write, ite_none_right_eq_some, map_eq_some_iff] at hw
  | claimNext =>
    obtain ⟨hc, ⟨⟩⟩ := hw
    refine ⟨by simp [Agrees], ?_, fun hres => ?_⟩
    · rintro - ⟨w, l⟩ ⟨⟩ ⟨⟩
      rfl
    · simp [claimable, hstored hres] at hc
  | _ => constructor <;> grind [Agrees, requeue, stuck, owner]

theorem owner_of_held (h : Fenced r log) (hheld : r.Held token now) : owner log = some token := by
  obtain ⟨hjob, hlock, hworker, -⟩ := hheld
  exact h.owned hjob token hlock hworker

/-- A row that has succeeded, or has a result, is only ever deleted. -/
theorem write_succeeded (h : Fenced r log)
    (hr : r.resultPayload ≠ none ∨ r.status = .succeeded)
    (hw : op.write now r = some (row, event)) : row = none := by
  have hjob : r.jobStatus = .succeeded := hr.elim h.stored (by grind [h.agrees, Agrees])
  have hstatus : r.status = .succeeded := by grind [h.agrees, Agrees]
  cases op <;> grind [Op.write, Held, claimable, stuck]

end Fenced

theorem Op.write_carried (ht : op.token = some token) (h : op.write now r = some (row, event)) :
    ∃ now, r.Held token now := by
  cases op with
  | heartbeat | recordSession | completeClaimed => cases ht; grind [write]
  | _ => cases ht

theorem Op.write_result (h : op.write now r = some (some r', event))
    (hne : r'.resultPayload ≠ none) (hchange : r.resultPayload ≠ r'.resultPayload) :
    ∃ token result payload existing serverNow,
      op = .completeClaimed token result payload existing serverNow ∧ r.Held token now := by
  cases op with
  | completeClaimed =>
    simp only [write, ite_none_right_eq_some] at h
    exact ⟨_, _, _, _, _, rfl, h.1.2.2⟩
  | _ => grind [write, ProofRequest.requeue, map_eq_some_iff]

/-- However calls interleave: a call with a lock that was superseded changes nothing; a result is
stored only by the worker and the lock of the last claim, before the lock expires; what has
succeeded stays as it is until it is deleted; and the two statuses agree. -/
theorem proof_jobs_fenced_and_final (xs : List Statement) (x : Statement) (sid : String) :
    (∀ later earlier w token, (run xs sid).log = later ++ .claimed w token.lockId :: earlier →
      (∃ e ∈ later, e.supersedes) → x.op.token = some token → run (x :: xs) sid = run xs sid) ∧
    (∀ r' ∈ (run (x :: xs) sid).row, r'.resultPayload ≠ none →
      ∃ r ∈ (run xs sid).row, r.resultPayload = r'.resultPayload ∨
        ∃ token result payload existing serverNow,
          x.op = .completeClaimed token result payload existing serverNow ∧
          owner (run xs sid).log = some token ∧ ∃ t ∈ r.lockExpiresAt, x.now < t) ∧
    (∀ r ∈ (run xs sid).row, r.resultPayload ≠ none ∨ r.status = .succeeded →
      run (x :: xs) sid = run xs sid ∨ (run (x :: xs) sid).row = none) ∧
    ∀ r ∈ (run xs sid).row, r.Agrees := by
  have hfenced := row_invariant xs sid Fenced (fun _ => True)
    (fun _ _ => ⟨by simp [ProofRequest.Agrees], nofun, nofun⟩) (fun _ _ _ _ _ _ _ => .write)
    fun _ _ => trivial
  have hagrees : ∀ r ∈ (run xs sid).row, r.Agrees := fun r hr => (hfenced r hr).agrees
  rcases run_cons x xs sid with h | ⟨_, hop, hr, h⟩ | ⟨r, row, event, hr, hw, _, h⟩
  · exact ⟨fun _ _ _ _ _ _ _ => h, fun r' hr' _ => ⟨r', h ▸ hr', .inl rfl⟩, fun _ _ _ => .inl h,
      hagrees⟩
  · refine ⟨fun _ _ _ _ _ _ ht => ?_, fun r' hr' hne => ?_, fun r hr' => ?_, hagrees⟩
    · rw [hop] at ht
      cases ht
    · rw [h] at hr'
      cases hr'
      cases hne rfl
    · rw [hr] at hr'
      cases hr'
  · refine ⟨fun later earlier w token hlog hsup ht => ?_, fun r' hr' hne => ?_,
      fun r₀ hr₀ hres => ?_, hagrees⟩
    · obtain ⟨_, hheld⟩ := Op.write_carried ht hw
      have howner := (hfenced r hr).owner_of_held hheld
      rw [hlog] at howner
      exact absurd howner (owner_superseded (hlog ▸ apart_log xs sid) hsup)
    · rw [h] at hr'
      cases hr'
      refine ⟨r, hr, or_iff_not_imp_left.mpr fun hchange => ?_⟩
      obtain ⟨token, _, _, _, _, hop, hheld⟩ := Op.write_result hw hne hchange
      exact ⟨token, _, _, _, _, hop, (hfenced r hr).owner_of_held hheld, hheld.2.2.2⟩
    · cases hr.symm.trans hr₀
      rw [h]
      exact .inr ((hfenced r hr).write_succeeded hres hw)

/-! ## The budget of claims -/

/-- How often the row was claimed since it was inserted. -/
def claims : List Event → ℕ
  | [] | .created :: _ => 0
  | .claimed .. :: log => claims log + 1
  | _ :: log => claims log

variable {maxRetries maxAttempts : ℕ}

/-- The limits of an operation are the configured ones. -/
def Op.Limits (maxRetries maxAttempts : ℕ) : Op → Prop
  | requeueFailed _ _ n _ | retryOrFailStuck n => n = maxRetries
  | claimNext req _ => req.maxAttempts = maxAttempts
  | failExpired n => n = maxAttempts
  | _ => True

structure Budgeted (maxRetries most : ℕ) (r : ProofRequest) (log : List Event) : Prop where
  retries : r.retryCount ≤ maxRetries
  attempts : r.attempt ≤ most
  waiting : r.jobStatus = .pending → r.attempt = 0
  claimed : claims log ≤ r.retryCount * most + r.attempt

theorem Budgeted.requeue {most : ℕ} (h : Budgeted maxRetries most r log)
    (hlt : r.retryCount < maxRetries) :
    Budgeted maxRetries most r.requeue (.requeued :: log) := by
  refine ⟨hlt, Nat.zero_le _, fun _ => rfl, ?_⟩
  calc claims log ≤ r.retryCount * most + r.attempt := h.claimed
    _ ≤ r.retryCount * most + most := by gcongr; exact h.attempts
    _ = (r.retryCount + 1) * most + 0 := by rw [Nat.succ_mul, Nat.add_zero]

theorem Budgeted.write (hop : op.Limits maxRetries maxAttempts)
    (h : Budgeted maxRetries (max 1 maxAttempts) r log)
    (hw : op.write now r = some (some r', event)) :
    Budgeted maxRetries (max 1 maxAttempts) r' (event :: log) := by
  obtain ⟨hretries, hattempts, hwaiting, hclaims⟩ := id h
  cases op with simp only [Op.write, ite_none_right_eq_some, map_eq_some_iff, Op.Limits] at hw hop
  | requeueFailed =>
    obtain ⟨⟨-, -, -, hlt⟩, ⟨⟩⟩ := hw
    obtain ⟨hr, ha, hw, hc⟩ := h.requeue (by omega)
    exact ⟨hr, ha, hw, hc⟩
  | claimNext =>
    obtain ⟨hc, ⟨⟩⟩ := hw
    refine ⟨hretries, ?_, nofun, Nat.succ_le_succ hclaims⟩
    grind [ProofRequest.claimable]
  | retryOrFailStuck =>
    split_ifs at hw <;> cases hw
    · exact ⟨hretries, hattempts, nofun, hclaims⟩
    · exact h.requeue (by omega)
  | _ => constructor <;> grind [claims]

/-- A row is claimed at most `max 1 maxAttempts` times in each of its `maxRetries + 1` lives. -/
theorem claims_bounded (hlimits : ∀ x ∈ xs, x.op.Limits maxRetries maxAttempts) :
    ∀ r ∈ (run xs sid).row, claims (run xs sid).log ≤ (maxRetries + 1) * max 1 maxAttempts ∧
      r.retryCount ≤ maxRetries := by
  intro r hr
  obtain ⟨hretries, hattempts, -, hclaims⟩ := row_invariant xs sid (Budgeted maxRetries _) _
    (fun _ _ => ⟨by simp, by simp, fun _ => rfl, by simp [claims]⟩)
    (fun _ _ _ _ _ _ => .write) hlimits r hr
  refine ⟨?_, hretries⟩
  calc claims (run xs sid).log ≤ r.retryCount * max 1 maxAttempts + r.attempt := hclaims
    _ ≤ maxRetries * max 1 maxAttempts + max 1 maxAttempts := by gcongr
    _ = (maxRetries + 1) * max 1 maxAttempts := by rw [Nat.succ_mul]

namespace Example

/-- A statement that selects all it may. -/
def statement (now : ℕ) (op : Op) : Statement := ⟨now, op, fun _ => true⟩

/-- A claim lasts for a second. -/
def claim (now : ℕ) (workerId : String) (lockId : ℕ) : Statement :=
  statement now (.claimNext ⟨workerId, .tee, [.awsNitro], [], [], 1, 2⟩ lockId)

/-- A job is created and claimed. -/
def claimed : List Statement :=
  [claim 1 "a" 1, statement 0 (.create ⟨.tee, none, some .awsNitro, none⟩)]

/-- Its lock expires, it is claimed again, fails and is requeued, and is claimed once more. -/
def requeued : List Statement :=
  [claim 5000000 "c" 3, statement 4500000 (.requeueFailed none none 1 true),
    statement 4000000 (.failExpired 2), claim 2000000 "b" 2] ++ claimed

end Example

open Example

theorem claims_bounded_sample : claims (run requeued "").log = 3 ∧
    ((run requeued "").row.map fun r => (r.retryCount, r.attempt)) = some (1, 1) ∧
    3 ≤ (1 + 1) * max 1 2 :=
  ⟨rfl, rfl, (@claims_bounded requeued "" 1 2 (by
    simp [requeued, claimed, claim, statement, Op.Limits]) _ rfl).1⟩

/-! ## Live locks -/

/-- No statement writes to a job under a live lock but the holder's own. -/
theorem ProofRequest.Held.token_eq (hheld : r.Held token now) (hagrees : r.Agrees)
    (hw : op.write now r = some (row, event)) : op.token = some token := by
  obtain ⟨w, l⟩ := token
  obtain ⟨hjob, hlock, hworker, t, ht, hlt⟩ := hheld
  have hstatus : r.status = .running := by grind [ProofRequest.Agrees]
  have hexpired : r.expired now = false := by
    simpa [ProofRequest.expired, mem_def.mp ht] using hlt.le
  cases op with
  | heartbeat t | recordSession t | completeClaimed t =>
    obtain ⟨w', l'⟩ := t
    grind [Op.write, Op.token, ProofRequest.Held]
  | _ => grind [Op.write, ProofRequest.claimable, ProofRequest.stuck]

/-- While a lock lives, the statements of others leave the job as it is, in whatever order they come,
and then a valid result of the holder is taken. -/
theorem live_lock_exclusive (xs ys : List Statement) (sid : String) (r : ProofRequest) (token : Token)
    (hr : (run xs sid).row = some r)
    (hys : ∀ y ∈ ys, r.Held token y.now ∧ y.op.token ≠ some token) :
    run (ys ++ xs) sid = run xs sid ∧
      ∀ x result payload serverNow, r.Held token serverNow → r.Held token x.now →
        r.request.validateSubmittedResult result →
        x.op = .completeClaimed token result payload r serverNow → x.selects sid →
        (run (x :: (ys ++ xs)) sid).row = some { r with
          status := .succeeded
          jobStatus := .succeeded
          resultPayload := some payload
          teeSigner := result.signer } := by
  have hagrees := (row_invariant xs sid Fenced (fun _ => True)
    (fun _ _ => ⟨by simp [ProofRequest.Agrees], nofun, nofun⟩) (fun _ _ _ _ _ _ _ => .write)
    (fun _ _ => trivial) r hr).agrees
  have hsame : run (ys ++ xs) sid = run xs sid := by
    induction ys with
    | nil => rfl
    | cons y ys ih =>
      obtain ⟨⟨hheld, hother⟩, hys⟩ := forall_mem_cons.mp hys
      have hrow := ih hys ▸ hr
      rcases run_cons y (ys ++ xs) sid with h | ⟨_, _, hnone, _⟩ | ⟨r₁, row, event, hr₁, hw, _, _⟩
      · exact h.trans (ih hys)
      · cases hrow.symm.trans hnone
      · cases hrow.symm.trans hr₁
        exact absurd (hheld.token_eq hagrees hw) hother
  refine ⟨hsame, fun x result payload serverNow hserver hheld hvalid hop hselects => ?_⟩
  rw [run, if_pos hselects, hop, hsame]
  simp [Entry.apply, hr, Op.write, hserver, hheld, hvalid, Event.apart, Event.lockId]

namespace Example

/-- The job under its first claim. -/
def held : ProofRequest where
  request := ⟨.tee, none, some .awsNitro, none⟩
  status := .running
  jobStatus := .claimed
  attempt := 1
  workerId := some "a"
  lockId := some 1
  lockExpiresAt := some 1000001

/-- A sweep, another claim and a heartbeat with a lock that was never given. -/
def others : List Statement :=
  [statement 1000000 (.failExpired 0), claim 900000 "b" 2, statement 800000 (.heartbeat ⟨"b", 2⟩ 5)]

def completion : Statement :=
  statement 1000000 (.completeClaimed ⟨"a", 1⟩ (.tee .awsNitro "0xaa") "proof" held 999999)

end Example

theorem live_lock_exclusive_sample :
    run (others ++ claimed) "" = run claimed "" ∧
      (run (completion :: (others ++ claimed)) "").row = some { held with
        status := .succeeded
        jobStatus := .succeeded
        resultPayload := some "proof"
        teeSigner := some "0xaa" } := by
  obtain ⟨hsame, hresult⟩ := live_lock_exclusive claimed others "" held ⟨"a", 1⟩ rfl (by
    simp [others, claim, statement, ProofRequest.Held, held, Op.token])
  exact ⟨hsame, hresult completion _ _ 999999 (by decide) (by decide) rfl rfl rfl⟩

end NodeReth.ProofRequestRepo
