import NodeReth.TxPool.Invalidation
import NodeReth.TxPool.Limits
import Mathlib.Data.List.Destutter

/-!
# Mempool guard

The admission and invalidation ledger of `txpool/src/guard.rs`. An admission charges the signature
counts of its sender and sponsor, then either reserves its cost in the payer's book or takes one of
the payer's payment counts, and registers its watch set; each way out of the pool gives back exactly
what was charged.
-/

namespace NodeReth

open Bytes FinMap Function InflightCounters

structure GuardLimits where
  signatureLimit : ℕ
  paymentLimit : ℕ

def GuardLimits.default : GuardLimits := ⟨4, 4⟩

inductive LimitRejection
  | senderLimit
  | payerLimit
  | paymentLimit
  | payerBalance
  deriving DecidableEq, Repr

structure Admission where
  hash : TxHash
  sender : Address
  payer : Address
  senderLocked : Bool
  payerLocked : Bool
  payerTrusted : Bool
  payerBalance : ℕ
  maxCost : ℕ
  priority : ℕ
  watchSet : WatchSet

structure AdmissionRecord where
  sender : Address
  payer : Address
  senderSignatureCharged : Bool
  payerSignatureCharged : Bool
  /-- The cost is reserved in the payer's book instead of counted. -/
  payerTrusted : Bool
  maxCost : ℕ

namespace Admission

def senderSignatureCharged (a : Admission) : Bool := !a.senderLocked

def payerSignatureCharged (a : Admission) : Bool := a.payer ≠ a.sender && !a.payerLocked

def record (a : Admission) (payerTrusted : Bool) : AdmissionRecord where
  sender := a.sender
  payer := a.payer
  senderSignatureCharged := a.senderSignatureCharged
  payerSignatureCharged := a.payerSignatureCharged
  payerTrusted := payerTrusted
  maxCost := a.maxCost

end Admission

structure MempoolGuard where
  index : InvalidationIndex
  signatureCounts : InflightCounters
  paymentCounts : InflightCounters
  payerBooks : Address → Option PayerBook
  records : FinMap TxHash AdmissionRecord
  limits : GuardLimits

namespace MempoolGuard

def new (limits : GuardLimits) : MempoolGuard where
  index := .new
  signatureCounts := .new
  paymentCounts := .new
  payerBooks _ := none
  records := ∅
  limits := limits

/-! ## Charges -/

def charge (charged : Bool) (c : InflightCounters) (account : Address) (cap : ℕ) :
    Bool × InflightCounters :=
  if charged then c.tryIncrement account cap else (true, c)

def refund (charged : Bool) (c : InflightCounters) (account : Address) : InflightCounters :=
  if charged then c.decrement account else c

/-- Reserves in the payer's book, which the first admission creates. -/
def reserve (books : Address → Option PayerBook) (a : Admission) :
    Bool × (Address → Option PayerBook) :=
  let book := (books a.payer).getD (PayerBook.new a.payerBalance)
  let (ok, book) := book.tryReserve a.hash a.maxCost a.priority
  (ok, update books a.payer (some book))

def pruneBook (books : Address → Option PayerBook) (payer : Address) : Address → Option PayerBook :=
  if (books payer).any PayerBook.isEmpty then update books payer none else books

/-- Registers an admission that was charged. -/
def track (g : MempoolGuard) (a : Admission) (payerTrusted : Bool) : MempoolGuard :=
  { g with
    records := g.records.insert a.hash (a.record payerTrusted)
    index := (g.index.insert a.hash a.watchSet).2 }

/-! ## Calls -/

/-- The payment charge of an admission whose signatures are charged. -/
def admitPayment (g : MempoolGuard) (a : Admission) : Except LimitRejection Unit × MempoolGuard :=
  let rollback := fun g : MempoolGuard =>
    { g with
      signatureCounts := refund a.payerSignatureCharged
        (refund a.senderSignatureCharged g.signatureCounts a.sender) a.payer }
  if a.payerTrusted then
    match reserve g.payerBooks a with
    | (true, books) => (.ok (), { g with payerBooks := books }.track a true)
    | (false, books) =>
      (.error .payerBalance, rollback { g with payerBooks := pruneBook books a.payer })
  else
    match g.paymentCounts.tryIncrement a.payer g.limits.paymentLimit with
    | (true, counts) => (.ok (), { g with paymentCounts := counts }.track a false)
    | (false, counts) => (.error .paymentLimit, rollback { g with paymentCounts := counts })

def tryAdmit (g : MempoolGuard) (a : Admission) : Except LimitRejection Unit × MempoolGuard :=
  if (g.records.lookup a.hash).isSome then (.ok (), g)
  else
    match charge a.senderSignatureCharged g.signatureCounts a.sender g.limits.signatureLimit with
    | (false, counts) => (.error .senderLimit, { g with signatureCounts := counts })
    | (true, counts) =>
      match charge a.payerSignatureCharged counts a.payer g.limits.signatureLimit with
      | (false, counts) =>
        (.error .payerLimit,
          { g with signatureCounts := refund a.senderSignatureCharged counts a.sender })
      | (true, counts) => { g with signatureCounts := counts }.admitPayment a

/-- The increments are made against the largest count, and their outcome is not looked at. -/
def insertForced (g : MempoolGuard) (a : Admission) : MempoolGuard :=
  if (g.records.lookup a.hash).isSome then g
  else
    let counts := (charge a.senderSignatureCharged g.signatureCounts a.sender u32Max).2
    let counts := (charge a.payerSignatureCharged counts a.payer u32Max).2
    let g := { g with signatureCounts := counts }
    match (if a.payerTrusted then reserve g.payerBooks a else (false, g.payerBooks)) with
    | (true, books) => { g with payerBooks := books }.track a true
    | (false, books) =>
      { g with
        paymentCounts := (g.paymentCounts.tryIncrement a.payer u32Max).2
        payerBooks := if a.payerTrusted then pruneBook books a.payer else books }.track a false

/-- A book without the reservation of a hash; `none` when none is left. -/
def withoutReservation (books : Address → Option PayerBook) (payer : Address) (hash : TxHash) :
    Address → Option PayerBook :=
  match books payer with
  | none => books
  | some book => pruneBook (update books payer (some (book.remove hash).2)) payer

def release (g : MempoolGuard) (hash : TxHash) : Bool × MempoolGuard :=
  match g.records.lookup hash with
  | none => (false, g)
  | some record =>
    (true,
      { g with
        records := g.records.erase hash
        signatureCounts := refund record.payerSignatureCharged
          (refund record.senderSignatureCharged g.signatureCounts record.sender) record.payer
        payerBooks := if record.payerTrusted then
          withoutReservation g.payerBooks record.payer hash else g.payerBooks
        paymentCounts := if record.payerTrusted then g.paymentCounts
          else g.paymentCounts.decrement record.payer
        index := (g.index.remove hash).2 })

/-- Releases hashes one after the other; the first component are those that were tracked. -/
def releaseAll (g : MempoolGuard) : List TxHash → List TxHash × MempoolGuard
  | [] => ([], g)
  | hash :: hashes =>
    match g.release hash with
    | (true, g) => (hash :: (releaseAll g hashes).1, (releaseAll g hashes).2)
    | (false, g) => releaseAll g hashes

def invalidateAll (g : MempoolGuard) : List TxHash × MempoolGuard :=
  let hashes := g.records.keys
  (hashes, (g.releaseAll hashes).2)

def invalidateExact (g : MempoolGuard) (changed : List InvalidationKey) : List TxHash × MempoolGuard :=
  g.releaseAll (g.index.affectedExact changed)

def invalidateExpiryBucketsThrough (g : MempoolGuard) (horizon : ℕ) : List TxHash × ℕ × MempoolGuard :=
  let due := g.index.dueExpiryBuckets horizon
  let (dropped, g) := g.invalidateExact due
  (dropped, due.length, g)

/-- The watchers of a balance that are charged by count and cost more than it. -/
def unaffordable (g : MempoolGuard) (account : Address) (newBalance : ℕ) : List TxHash :=
  ((g.index.watchers (.balance account)).getD []).filter fun hash =>
    (g.records.lookup hash).any fun record => !record.payerTrusted && record.maxCost > newBalance

/-- Sorted by hash, without adjacent repetitions. -/
def sortDedup (hashes : List TxHash) : List TxHash :=
  (hashes.insertionSort fun x y => ofBe x.val ≤ ofBe y.val).destutter (· ≠ ·)

/-- Sets the balance of the account's book, if it has one; `none` when the assertion in the book
fails. -/
def setBookBalance (g : MempoolGuard) (account : Address) (newBalance : ℕ) :
    Option (List TxHash × MempoolGuard) :=
  match g.payerBooks account with
  | none => some ([], g)
  | some book => (book.setBalance newBalance).map fun (evicted, book) =>
    (evicted, { g with payerBooks := update g.payerBooks account (some book) })

def onBalanceChanged (g : MempoolGuard) (account : Address) (newBalance : ℕ) :
    Option (List TxHash × MempoolGuard) :=
  (g.setBookBalance account newBalance).map fun (evicted, g) =>
    let dropped := sortDedup (evicted ++ g.unaffordable account newBalance)
    (dropped, (g.releaseAll dropped).2)

end MempoolGuard

end NodeReth
