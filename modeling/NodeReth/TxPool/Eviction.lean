import NodeReth.TxPool.Ledger

/-!
# Forced insertions and balance changes

The two calls of the guard that go beyond admitting and releasing: an insertion that is never
refused, and a change of balance, which evicts from the payer's book until the reservations fit and
drops the transactions paid by count that have become too expensive.
-/

namespace NodeReth

open FinMap Function InflightCounters List

namespace MempoolGuard

variable {live : FinMap TxHash Live} {g g' : MempoolGuard} {a : Admission}
  {b : PayerBook} {account : Address} {b' : PayerBook} {balance : ℕ}
  {front : List ((ℕ × TxHash) × ℕ)}

/-! ## Forced insertion -/

/-- No account that a forced insertion charges has reached the largest count. -/
structure Room (live : FinMap TxHash Live) (a : Admission) : Prop where
  signature : ∀ x, (⟨a, a.payerTrusted⟩ : Live).charges x = true →
    (live.count fun _ e => e.charges x) < u32Max
  payment : (live.count fun _ e => e.paidByCount a.payer) < u32Max

theorem Exact.charge_forced (hx : Exact [] live g) (hroom : Room live a) : ∃ c₁ c₂,
    charge a.senderSignatureCharged g.signatureCounts a.sender u32Max = (true, c₁) ∧
      charge a.payerSignatureCharged c₁ a.payer u32Max = (true, c₂) := by
  have hsender : a.senderSignatureCharged = true → g.signatureCounts.get a.sender < u32Max := by
    intro hcharged
    rw [hx.signature]
    exact hroom.signature a.sender (by simp [Live.charges, hcharged])
  have hs := charge_of_lt hsender
  refine ⟨_, _, hs, charge_of_lt fun hcharged => ?_⟩
  have hne : a.payer ≠ a.sender := by
    unfold Admission.payerSignatureCharged at hcharged
    simp only [Bool.and_eq_true, decide_eq_true_eq] at hcharged
    exact hcharged.1
  rw [charge_true hs, if_neg fun h => hne h.2, hx.signature]
  exact hroom.signature a.payer (by simp [Live.charges, hcharged])

theorem Exact.insertForced (hx : Exact [] live g) (hnew : live.lookup a.hash = none)
    (hroom : Room live a) : ∃ reserved g₁, Charged live g ⟨a, reserved⟩ g₁ ∧
      g.insertForced a = g₁.track a reserved := by
  have hrecord : g.records.lookup a.hash = none := by
    rw [hx.records, hnew]
    rfl
  obtain ⟨c₁, c₂, hs, hp⟩ := hx.charge_forced hroom
  have hcount : ∀ x, (g.paymentCounts.tryIncrement a.payer u32Max).2.get x =
      g.paymentCounts.get x + if (⟨a, false⟩ : Live).paidByCount x = true then 1 else 0 := by
    intro x
    have hlt : g.paymentCounts.get a.payer < u32Max := by
      rw [hx.payment]
      exact hroom.payment
    rw [(tryIncrement_true (Prod.ext (tryIncrement_of_lt hlt) rfl)).2 x]
    simp [Live.paidByCount, eq_comm]
  unfold MempoolGuard.insertForced
  rw [hrecord]
  simp only [hs, hp]
  cases htrusted : a.payerTrusted with
  | false =>
    refine ⟨false, { g with
      signatureCounts := c₂
      paymentCounts := (g.paymentCounts.tryIncrement a.payer u32Max).2 }, ?_, rfl⟩
    exact ⟨charges_of_charge false hs hp, hcount,
      hx.books.congr fun a => shares_insert hnew (Live.share_of_counted rfl a), rfl, rfl, rfl⟩
  | true =>
    rcases hres : reserve g.payerBooks a with ⟨_ | _, books⟩
    · -- the reservation does not fit: the payment is counted instead
      refine ⟨false, { g with
        signatureCounts := c₂
        paymentCounts := (g.paymentCounts.tryIncrement a.payer u32Max).2
        payerBooks := pruneBook books a.payer }, ?_, rfl⟩
      have hbooks := hx.books.reserve_false hres
      refine ⟨charges_of_charge false hs hp, hcount, ?_, hbooks, rfl, rfl⟩
      rw [hbooks]
      exact hx.books.congr fun a => shares_insert hnew (Live.share_of_counted rfl a)
    · obtain ⟨hbooks, hrestored⟩ := hx.books.reserve_true hnew hres
      refine ⟨true, { g with signatureCounts := c₂, payerBooks := books }, ?_, rfl⟩
      exact ⟨charges_of_charge true hs hp, fun _ => rfl, hbooks, hrestored, rfl, rfl⟩

/-! ## The order of a book -/

/-- The position of a live transaction in the book of its payer. -/
def rankOf (h : TxHash) (e : Live) : ℕ := PayerBook.rank (e.admission.priority, h)

/-- The cost of what an account pays out of its book from a position on. -/
def costFrom (live : FinMap TxHash Live) (account : Address) (rank : ℕ) : ℕ :=
  live.total fun h e =>
    if e.paidByBook account = true ∧ rank ≤ rankOf h e then e.admission.maxCost else 0

/-- A total over the entries of a book is a sum over its priorities. -/
theorem total_eq_byPriority (hb : b.Valid) (f : TxHash → ℕ × ℕ → ℕ) :
    b.entries.total f = (b.byPriority.map fun x => f x.1.2 (x.1.1, x.2)).sum := by
  have hperm : (b.entries.entries.map fun e => ((e.2.1, e.1), e.2.2)).Perm b.byPriority := by
    rw [perm_ext_iff_of_nodup]
    · rintro ⟨⟨p, h⟩, c⟩
      rw [hb.mem_iff, mem_map]
      constructor
      · rintro ⟨e, he, heq⟩
        cases heq
        exact AList.mem_lookup_iff.mpr he
      · intro h'
        exact ⟨⟨h, (p, c)⟩, AList.mem_lookup_iff.mp h', rfl⟩
    · refine List.Nodup.map ?_ (List.Nodup.of_map Sigma.fst b.entries.keys_nodup)
      rintro ⟨h, p, c⟩ ⟨h', p', c'⟩ heq
      cases heq
      rfl
    · exact hb.sorted.imp fun hlt heq => by
        rw [heq] at hlt
        exact lt_irrefl _ hlt
  rw [← (hperm.map _).sum_eq, map_map]
  rfl

/-- The reservations of a list from a position on. -/
def costsFrom (l : List ((ℕ × TxHash) × ℕ)) (rank : ℕ) : ℕ :=
  (l.map fun x => if rank ≤ PayerBook.rank x.1 then x.2 else 0).sum

theorem costsFrom_append (l r : List ((ℕ × TxHash) × ℕ)) (rank : ℕ) :
    costsFrom (l ++ r) rank = costsFrom l rank + costsFrom r rank := by
  unfold costsFrom
  rw [map_append, sum_append]

theorem costsFrom_le (l : List ((ℕ × TxHash) × ℕ)) (rank : ℕ) :
    costsFrom l rank ≤ PayerBook.costs l := by
  unfold costsFrom PayerBook.costs
  induction l with
  | nil => exact le_rfl
  | cons x l ih =>
    simp only [map_cons, sum_cons]
    split_ifs <;> omega

theorem costsFrom_eq {l : List ((ℕ × TxHash) × ℕ)} {rank : ℕ}
    (h : ∀ x ∈ l, rank ≤ PayerBook.rank x.1) : costsFrom l rank = PayerBook.costs l := by
  refine congrArg sum (map_congr_left fun x hx => ?_)
  rw [if_pos (h x hx)]

/-- In an exact book the reservations from a position on are the live costs from there on. -/
theorem BookExact.costFrom_eq (hb : BookExact [] live account b) (rank : ℕ) :
    costFrom live account rank = costsFrom b.byPriority rank := by
  have htotal := total_eq_byPriority hb.valid fun h v =>
    if rank ≤ PayerBook.rank (v.1, h) then v.2 else 0
  show _ = (b.byPriority.map fun x => if rank ≤ PayerBook.rank x.1 then x.2 else 0).sum
  rw [← htotal]
  refine total_congr fun h => ?_
  rw [hb.lookup_live h]
  cases live.lookup h with
  | none => rfl
  | some e =>
    by_cases hpaid : e.paidByBook account = true
    · simp [Live.share, hpaid, rankOf]
    · simp [Live.share, hpaid]

/-! ## A change of balance -/

/-- What an account pays out of its book and can no longer keep: everything from the transaction's
position on costs more than the balance. -/
def Overdrawn (live : FinMap TxHash Live) (account : Address) (balance : ℕ) (h : TxHash)
    (e : Live) : Prop :=
  e.paidByBook account = true ∧ balance < costFrom live account (rankOf h e)

theorem PayerBook.Valid.costs_eq (hb : b.Valid) : b.reserved = PayerBook.costs b.byPriority := by
  rw [hb.reserved_eq, total_eq_byPriority hb]
  rfl

/-- The entry of a book that belongs to a live transaction. -/
theorem BookExact.mem_byPriority_iff (hb : BookExact [] live account b) {p c : ℕ} {h : TxHash} :
    ((p, h), c) ∈ b.byPriority ↔ ∃ e, live.lookup h = some e ∧ e.paidByBook account = true ∧
      e.admission.priority = p ∧ e.admission.maxCost = c := by
  rw [hb.valid.mem_iff, hb.lookup_live, Option.bind_eq_some_iff]
  refine exists_congr fun e => and_congr_right fun _ => ?_
  unfold Live.share
  split_ifs with hpaid <;> simp [hpaid]

/-- The front that a book gives up consists of the overdrawn transactions. -/
theorem BookExact.mem_front_iff (hb : BookExact [] live account b)
    (hev : { b with balance }.Evicts b' front) (h : TxHash) :
    h ∈ front.map (·.1.2) ↔ ∃ e, live.lookup h = some e ∧ Overdrawn live account balance h e := by
  have hsplit : b.byPriority = front ++ b'.byPriority := hev.split
  have hsorted := hsplit ▸ hb.valid.sorted
  obtain ⟨-, -, hcross⟩ := pairwise_append.mp hsorted
  have hkept := PayerBook.Valid.costs_eq hev.valid
  constructor
  · intro hmem
    obtain ⟨⟨⟨p, g⟩, c⟩, hx, rfl⟩ := mem_map.mp hmem
    obtain ⟨e, he, hpaid, rfl, rfl⟩ :=
      hb.mem_byPriority_iff.mp (hsplit ▸ mem_append_left _ hx)
    refine ⟨e, he, hpaid, ?_⟩
    -- everything from this position on, within the front and after it
    obtain ⟨l, r, hfront⟩ := append_of_mem hx
    have hneeded : balance < _ := hev.needed l _ r hfront
    have hafter : ∀ y ∈ ((e.admission.priority, g), e.admission.maxCost) :: r,
        rankOf g e ≤ PayerBook.rank y.1 := by
      intro y hy
      rcases mem_cons.mp hy with rfl | hy
      · exact le_rfl
      · rw [hfront] at hsorted
        have := (pairwise_append.mp (pairwise_append.mp hsorted).1).2.1
        exact ((pairwise_cons.mp this).1 y hy).le
    have hrest : ∀ y ∈ b'.byPriority, rankOf g e ≤ PayerBook.rank y.1 := fun y hy =>
      (hcross _ hx y hy).le
    rw [hb.costFrom_eq, hsplit, costsFrom_append, costsFrom_eq hrest, hfront, costsFrom_append,
      costsFrom_eq hafter]
    omega
  · rintro ⟨e, he, hpaid, hover⟩
    have hx := hb.mem_byPriority_iff.mpr ⟨e, he, hpaid, rfl, rfl⟩
    rw [hsplit] at hx
    rcases mem_append.mp hx with hx | hx
    · exact mem_map.mpr ⟨_, hx, rfl⟩
    · -- what is kept fits
      have hfront : costsFrom front (rankOf h e) = 0 := by
        unfold costsFrom
        rw [sum_eq_zero]
        intro n hn
        obtain ⟨y, hy, rfl⟩ := mem_map.mp hn
        exact if_neg (Nat.not_le.mpr (hcross y hy _ hx))
      rw [hb.costFrom_eq, hsplit, costsFrom_append, hfront] at hover
      have hle := costsFrom_le b'.byPriority (rankOf h e)
      have hfits := hev.fits
      rw [hev.balance] at hfits
      have : b'.reserved ≤ balance := hfits
      omega

theorem BookExact.nodup_front (hb : BookExact [] live account b)
    (hev : { b with balance }.Evicts b' front) : (front.map (·.1.2)).Nodup := by
  have hsplit : b.byPriority = front ++ b'.byPriority := hev.split
  have hsorted := (pairwise_append.mp (hsplit ▸ hb.valid.sorted)).1
  refine pairwise_map.mpr (hsorted.imp_of_mem ?_)
  rintro ⟨⟨p, h⟩, c⟩ ⟨⟨p', -⟩, c'⟩ hx hy hlt rfl
  have hx' := (hb.valid.mem_iff _ _ _).mp (hsplit ▸ mem_append_left _ hx)
  have hy' := (hb.valid.mem_iff _ _ _).mp (hsplit ▸ mem_append_left _ hy)
  rw [hx'] at hy'
  cases hy'
  exact lt_irrefl _ hlt

theorem BooksExact.evict {books : Address → Option PayerBook} (hbooks : BooksExact [] live books)
    (hbook : books account = some b) (hev : { b with balance }.Evicts b' front) :
    BooksExact (front.map (·.1.2)) live (update books account (some b')) := by
  have hb := hbooks.book account b hbook
  have hgone : ∀ h ∈ front.map (·.1.2), ∃ e, live.lookup h = some e ∧ e.paidByBook account = true :=
    fun h hh => ((hb.mem_front_iff hev h).mp hh).imp fun _ he => ⟨he.1, he.2.1⟩
  refine ⟨fun x hx y hy => ?_, fun x c hxc => ?_⟩
  · by_cases hxa : x = account
    · subst hxa
      simp at hx
    · rw [update_of_ne hxa] at hx
      exact absurd (hbooks.noBook x hx y hy) (not_mem_nil)
  · by_cases hxa : x = account
    · subst hxa
      rw [update_self, Option.some.injEq] at hxc
      subst hxc
      refine ⟨hev.valid, hev.fits, fun h => ?_, fun hempty => ?_⟩
      · rw [show b'.entries.lookup h = _ from hev.lookup h]
        exact congrArg _ (hb.lookup_live h)
      · -- the book had a reservation before
        obtain ⟨h, v, hv⟩ : ∃ h v, b.entries.lookup h = some v := by
          by_contra hnone
          push Not at hnone
          have hbempty : b.isEmpty = true := by
            rw [PayerBook.isEmpty_iff]
            refine AList.ext (eq_nil_iff_forall_not_mem.mpr fun e he => ?_)
            exact hnone e.1 e.2 (AList.mem_lookup_iff.mpr he)
          rw [hb.isEmpty_eq_false] at hbempty
          cases hbempty
        have hafter : (if h ∈ front.map (·.1.2) then none else b.entries.lookup h) = none := by
          rw [← show b'.entries.lookup h = _ from hev.lookup h, PayerBook.isEmpty_iff.mp hempty]
          rfl
        refine ⟨h, ?_, by rw [← hb.lookup_live, hv]; rfl⟩
        by_contra hnot
        rw [if_neg hnot, hv] at hafter
        cases hafter
    · rw [update_of_ne hxa] at hxc
      have hc := hbooks.book x c hxc
      refine ⟨hc.valid, hc.fits, fun h => ?_, fun hempty => ?_⟩
      · rw [hc.lookup_live h]
        split_ifs with hh
        · obtain ⟨e, he, hpaid⟩ := hgone h hh
          rw [he]
          refine Live.share_of_ne fun heq => hxa ?_
          unfold Live.paidByBook at hpaid
          simp only [Bool.and_eq_true, decide_eq_true_eq] at hpaid
          exact heq.trans hpaid.2
        · rfl
      · rw [hc.isEmpty_eq_false] at hempty
        cases hempty

/-- Setting the balance of a book returns the overdrawn transactions. -/
theorem Exact.setBookBalance (hx : Exact [] live g) (account : Address) (balance : ℕ) :
    ∃ evicted g₁, g.setBookBalance account balance = some (evicted, g₁) ∧ evicted.Nodup ∧
      Exact evicted live g₁ ∧ (∀ b, g₁.payerBooks account = some b → b.balance = balance) ∧
      ∀ h, h ∈ evicted ↔ ∃ e, live.lookup h = some e ∧ Overdrawn live account balance h e := by
  unfold MempoolGuard.setBookBalance
  cases hbook : g.payerBooks account with
  | none =>
    refine ⟨[], g, rfl, nodup_nil, hx, fun b hb => ?_, fun h => ?_⟩
    · rw [hbook] at hb
      cases hb
    · refine ⟨nofun, fun ⟨e, he, hpaid, _⟩ => ?_⟩
      refine hx.books.noBook account hbook h ?_
      rw [he]
      exact Live.share_isSome.mpr hpaid
  | some b =>
    have hb := hx.books.book account b hbook
    obtain ⟨front, b', hset, hev⟩ := PayerBook.setBalance_spec hb.valid balance
    refine ⟨front.map (·.1.2), { g with payerBooks := update g.payerBooks account (some b') }, ?_,
      hb.nodup_front hev, ?_, fun c hc => ?_, hb.mem_front_iff hev⟩
    · simp [hset]
    · exact ⟨hx.records, hx.signature, hx.payment, hx.books.evict hbook hev, hx.index, hx.watchSets⟩
    · simp only [update_self, Option.some.injEq] at hc
      rw [← hc]
      exact hev.balance

/-- Transactions paid by count that watch a balance and cost more than it. -/
def Unaffordable (account : Address) (balance : ℕ) (e : Live) : Prop :=
  e.reserved = false ∧ .balance account ∈ e.admission.watchSet.keys ∧ balance < e.admission.maxCost

theorem Exact.mem_unaffordable {gone : List TxHash} (hx : Exact gone live g) (account : Address)
    (balance : ℕ) (h : TxHash) : h ∈ g.unaffordable account balance ↔
      ∃ e, live.lookup h = some e ∧ Unaffordable account balance e := by
  unfold MempoolGuard.unaffordable
  rw [mem_filter]
  show h ∈ g.index.bucket (.balance account) ∧ _ ↔ _
  rw [hx.index.mem_iff, hx.watchSets, hx.records]
  cases live.lookup h with
  | none => simp
  | some e =>
    simp only [Option.map_some, Option.some.injEq, exists_eq_left', Option.any_some]
    unfold Unaffordable Live.record
    simp only [Bool.and_eq_true, Bool.not_eq_true', decide_eq_true_eq]
    tauto

theorem sortDedup_perm {l : List TxHash} (h : l.Nodup) : (sortDedup l).Perm l := by
  unfold sortDedup
  have hperm := perm_insertionSort (fun x y : TxHash => Bytes.ofBe x.val ≤ Bytes.ofBe y.val) l
  rw [destutter_of_isChain]
  · exact hperm
  · exact (hperm.nodup_iff.mpr h).isChain

theorem release_balance {h : TxHash} {x : Address} (hb : (g.release h).2.payerBooks x = some b) :
    ∃ c, g.payerBooks x = some c ∧ c.balance = b.balance := by
  have hprune : ∀ books : Address → Option PayerBook, ∀ payer,
      pruneBook books payer x = some b → books x = some b := by
    intro books payer hpruned
    unfold pruneBook at hpruned
    split_ifs at hpruned
    · by_cases hxp : x = payer
      · subst hxp
        simp at hpruned
      · rwa [update_of_ne hxp] at hpruned
    · exact hpruned
  unfold MempoolGuard.release at hb
  cases hrecord : g.records.lookup h with rw [hrecord] at hb
  | none => exact ⟨b, hb, rfl⟩
  | some r =>
    simp only at hb
    split_ifs at hb
    · unfold withoutReservation at hb
      cases hc : g.payerBooks r.payer with simp only [hc] at hb
      | none => exact ⟨b, hb, rfl⟩
      | some c =>
        have hafter := hprune _ _ hb
        by_cases hxp : x = r.payer
        · subst hxp
          rw [update_self, Option.some.injEq] at hafter
          refine ⟨c, hc, ?_⟩
          rw [← hafter]
          unfold PayerBook.remove
          split <;> rfl
        · rw [update_of_ne hxp] at hafter
          exact ⟨b, hafter, rfl⟩
    · exact ⟨b, hb, rfl⟩

theorem releaseAll_balance {hashes : List TxHash} {x : Address}
    (hb : (g.releaseAll hashes).2.payerBooks x = some b) :
    ∃ c, g.payerBooks x = some c ∧ c.balance = b.balance := by
  induction hashes generalizing g with
  | nil => exact ⟨b, hb, rfl⟩
  | cons h hashes ih =>
    unfold MempoolGuard.releaseAll at hb
    rcases hrel : g.release h with ⟨_ | _, g₁⟩
    all_goals
      rw [hrel] at hb
      obtain ⟨c, hc, hbalance⟩ := ih hb
      obtain ⟨d, hd, hbalance'⟩ := release_balance (g := g) (h := h) (by rw [hrel]; exact hc)
      exact ⟨d, hd, hbalance'.trans hbalance⟩

/-- A change of balance drops the overdrawn and the unaffordable transactions and nothing else, and
the book that is left, if any, has the new balance. -/
theorem Exact.onBalanceChanged (hx : Exact [] live g) (account : Address) (balance : ℕ) :
    ∃ dropped g', g.onBalanceChanged account balance = some (dropped, g') ∧
      Exact [] (dropped.foldl (fun live h => live.erase h) live) g' ∧
      (∀ b, g'.payerBooks account = some b → b.balance = balance) ∧
      ∀ h, h ∈ dropped ↔ ∃ e, live.lookup h = some e ∧
        (Overdrawn live account balance h e ∨ Unaffordable account balance e) := by
  obtain ⟨evicted, g₁, hset, hnodup, hx₁, hbalance, hevicted⟩ :=
    hx.setBookBalance account balance
  have hcheap := hx₁.mem_unaffordable account balance
  -- an evicted transaction is reserved, an unaffordable one is not
  have hdisjoint : ∀ x ∈ evicted, ∀ y ∈ g₁.unaffordable account balance, x ≠ y := by
    rintro x hxe y hy rfl
    obtain ⟨e, he, hpaid, -⟩ := (hevicted x).mp hxe
    obtain ⟨e', he', hcounted, -⟩ := (hcheap x).mp hy
    rw [he] at he'
    cases he'
    unfold Live.paidByBook at hpaid
    rw [hcounted] at hpaid
    cases hpaid
  have hall : (evicted ++ g₁.unaffordable account balance).Nodup :=
    nodup_append.mpr ⟨hnodup, (hx₁.index.tidy.nodup _).filter _, hdisjoint⟩
  have hperm := sortDedup_perm hall
  refine ⟨sortDedup (evicted ++ g₁.unaffordable account balance),
    (g₁.releaseAll (sortDedup (evicted ++ g₁.unaffordable account balance))).2, ?_, ?_,
    fun b hb => ?_, fun h => ?_⟩
  · unfold MempoolGuard.onBalanceChanged
    rw [hset]
    rfl
  · refine (hx₁.releaseAll _).1.settle fun x hxe => ?_
    rw [lookup_foldl_erase, if_pos (hperm.mem_iff.mpr (mem_append_left _ hxe))]
  · obtain ⟨c, hc, heq⟩ := releaseAll_balance hb
    rw [← heq, hbalance c hc]
  · rw [hperm.mem_iff, mem_append, hevicted, hcheap, ← exists_or]
    refine exists_congr fun e => ?_
    tauto

end MempoolGuard

end NodeReth
