import NodeReth.TxPool.Guard

/-!
# The guard's ledger

`Exact` compares the guard with the transactions that are live: what each counter, book and bucket
must hold. It takes a list of hashes whose reservation is already gone from its book, because a
change of balance evicts from the book first and releases afterwards; elsewhere the list is empty.
Admitting and releasing keep the ledger exact.
-/

namespace NodeReth

open AList FinMap Function InflightCounters InvalidationIndex List PayerBook

/-- A live transaction; `reserved` says that its cost is reserved in the payer's book. -/
structure Live where
  admission : Admission
  reserved : Bool

namespace Live

/-- The transaction is charged to the signature count of an account. -/
def charges (e : Live) (account : Address) : Bool :=
  (e.admission.senderSignatureCharged && e.admission.sender = account) ||
    (e.admission.payerSignatureCharged && e.admission.payer = account)

def paidByCount (e : Live) (account : Address) : Bool := !e.reserved && e.admission.payer = account

def paidByBook (e : Live) (account : Address) : Bool := e.reserved && e.admission.payer = account

/-- The reservation in the book of an account. -/
def share (account : Address) (e : Live) : Option (ℕ × ℕ) :=
  if e.paidByBook account then some (e.admission.priority, e.admission.maxCost) else none

def record (e : Live) : AdmissionRecord := e.admission.record e.reserved

end Live

open Live

variable {c' : InflightCounters} {live : FinMap TxHash Live}

namespace MempoolGuard

variable {c : InflightCounters} {cap : ℕ} {charged : Bool}

/-- The book of an account holds the reservations of the live transactions it pays, up to those
that are already gone. -/
structure BookExact (gone : List TxHash) (live : FinMap TxHash Live) (account : Address)
    (b : PayerBook) : Prop where
  valid : b.Valid
  fits : b.reserved ≤ b.balance
  lookup : ∀ h, b.entries.lookup h = if h ∈ gone then none else (live.lookup h).bind (share account)
  nonempty : b.isEmpty = true → ∃ h ∈ gone, ((live.lookup h).bind (share account)).isSome

/-- Every account that pays out of a book has one, and every book is exact. -/
structure BooksExact (gone : List TxHash) (live : FinMap TxHash Live)
    (books : Address → Option PayerBook) : Prop where
  noBook : ∀ a, books a = none → ∀ h, ((live.lookup h).bind (share a)).isSome → h ∈ gone
  book : ∀ a b, books a = some b → BookExact gone live a b

structure Exact (gone : List TxHash) (live : FinMap TxHash Live) (g : MempoolGuard) : Prop where
  records : ∀ h, g.records.lookup h = (live.lookup h).map record
  signature : ∀ a, g.signatureCounts.get a = live.count fun _ e => e.charges a
  payment : ∀ a, g.paymentCounts.get a = live.count fun _ e => e.paidByCount a
  books : BooksExact gone live g.payerBooks
  index : g.index.Valid
  watchSets : ∀ h, g.index.watchSets h = (live.lookup h).map (·.admission.watchSet)

theorem exact_new (limits : GuardLimits) : Exact [] ∅ (new limits) where
  records _ := rfl
  signature _ := rfl
  payment _ := rfl
  books := ⟨nofun, nofun⟩
  index := valid_new
  watchSets _ := rfl

/-! ## Charges -/

variable {account : Address}

theorem charge_true (h : charge charged c account cap = (true, c')) (a : Address) :
    c'.get a = c.get a + if charged = true ∧ a = account then 1 else 0 := by
  unfold charge at h
  split_ifs at h with hcharged
  · rw [(tryIncrement_true h).2 a]
    simp [hcharged]
  · cases h
    simp [hcharged]

theorem charge_false
    (h : charge charged c account cap = (false, c')) (a : Address) : c'.get a = c.get a := by
  unfold charge at h
  split_ifs at h with hcharged
  · exact (tryIncrement_false h).2 a
  · cases h

theorem charge_of_lt (h : charged = true → c.get account < cap) :
    charge charged c account cap = (true, (charge charged c account cap).2) := by
  refine Prod.ext ?_ rfl
  unfold charge
  split_ifs with hcharged
  · exact tryIncrement_of_lt (h hcharged)
  · rfl

theorem get_refund (a : Address) :
    (refund charged c account).get a = c.get a - if charged = true ∧ a = account then 1 else 0 := by
  unfold refund
  split_ifs with hcharged h h
  · rw [get_decrement, if_pos h.2]
  · rw [get_decrement, if_neg fun ha => h ⟨hcharged, ha⟩]
  · exact absurd h.1 (by simpa using hcharged)
  · rfl

theorem Live.charges_eq (e : Live) (a : Address) : (if e.charges a = true then 1 else 0) =
    (if e.admission.senderSignatureCharged = true ∧ a = e.admission.sender then 1 else 0) +
      if e.admission.payerSignatureCharged = true ∧ a = e.admission.payer then 1 else 0 := by
  have hdistinct : e.admission.payerSignatureCharged = true →
      e.admission.payer ≠ e.admission.sender := by
    intro h
    unfold Admission.payerSignatureCharged at h
    simp only [Bool.and_eq_true, decide_eq_true_eq] at h
    exact h.1
  unfold charges
  by_cases hs : e.admission.senderSignatureCharged = true ∧ a = e.admission.sender
  · by_cases hp : e.admission.payerSignatureCharged = true
    · simp [hs, (hdistinct hp).symm]
    · simp [hs, hp]
  · by_cases hp : e.admission.payerSignatureCharged = true ∧ a = e.admission.payer
    · obtain ⟨hp, rfl⟩ := hp
      have hne := hdistinct hp
      simp [hp, hne]
    · rw [if_neg hs, if_neg hp, if_neg]
      simp only [Bool.or_eq_true, Bool.and_eq_true, decide_eq_true_eq]
      tauto

/-! ## Books -/

section

variable {gone : List TxHash} {books books' : Address → Option PayerBook} {h : TxHash} {e : Live}
  {account : Address} {a : Address} {b : PayerBook} {live' : FinMap TxHash Live}

theorem Live.share_isSome : (e.share a).isSome ↔ e.paidByBook a = true := by
  unfold share
  split_ifs with h <;> simp [h]

/-- A transaction that is paid by count has no share in any book. -/
theorem Live.share_of_counted (he : e.reserved = false) (a : Address) : e.share a = none := by
  unfold share paidByBook
  simp [he]

theorem Live.share_of_ne (ha : a ≠ e.admission.payer) : e.share a = none := by
  unfold share paidByBook
  simp [Ne.symm ha]

theorem Live.share_payer (he : e.reserved = true) :
    e.share e.admission.payer = some (e.admission.priority, e.admission.maxCost) := by
  unfold share paidByBook
  simp [he]

theorem BookExact.congr (hb : BookExact gone live account b)
    (heq : ∀ h, (live'.lookup h).bind (share account) =
      (live.lookup h).bind (share account)) : BookExact gone live' account b where
  valid := hb.valid
  fits := hb.fits
  lookup h := (heq h).symm ▸ hb.lookup h
  nonempty hempty := (hb.nonempty hempty).imp fun h hh => ⟨hh.1, (heq h).symm ▸ hh.2⟩

theorem BookExact.lookup_live (hb : BookExact [] live account b) (h : TxHash) :
    b.entries.lookup h = (live.lookup h).bind (share account) := by
  simpa using hb.lookup h

theorem BookExact.isEmpty_eq_false (hb : BookExact [] live account b) : b.isEmpty = false := by
  by_contra hempty
  obtain ⟨_, hmem, -⟩ := hb.nonempty (eq_true_of_ne_false hempty)
  cases hmem

theorem shares_insert (hnew : live.lookup h = none) (hshare : e.share a = none)
    (x : TxHash) : ((live.insert h e).lookup x).bind (share a) = (live.lookup x).bind (share a) := by
  by_cases hx : x = h
  · subst hx
    simp [hnew, hshare]
  · simp [hx]

theorem shares_erase (hlive : live.lookup h = some e) (hshare : e.share a = none)
    (x : TxHash) : ((live.erase h).lookup x).bind (share a) = (live.lookup x).bind (share a) := by
  by_cases hx : x = h
  · subst hx
    simp [hlive, hshare]
  · simp [hx]

/-- Books stay exact when only the shares of one account change, if that account's book follows. -/
theorem BooksExact.change (hb : BooksExact gone live books)
    (hothers : ∀ a, a ≠ account → ∀ x, (live'.lookup x).bind (share a) =
      (live.lookup x).bind (share a)) {v : Option PayerBook}
    (hnone : v = none → ∀ x, ((live'.lookup x).bind (share account)).isSome → x ∈ gone)
    (hsome : ∀ b, v = some b → BookExact gone live' account b) :
    BooksExact gone live' (update books account v) := by
  refine ⟨fun a ha x hx => ?_, fun a b hab => ?_⟩
  · by_cases h : a = account
    · subst h
      exact hnone (by simpa using ha) x hx
    · rw [update_of_ne h] at ha
      exact hb.noBook a ha x (hothers a h x ▸ hx)
  · by_cases h : a = account
    · subst h
      exact hsome b (by simpa using hab)
    · rw [update_of_ne h] at hab
      exact (hb.book a b hab).congr (hothers a h)

/-- Books stay exact when no share changes. -/
theorem BooksExact.congr (hb : BooksExact gone live books)
    (heq : ∀ a x, (live'.lookup x).bind (share a) = (live.lookup x).bind (share a)) :
    BooksExact gone live' books where
  noBook a ha x hx := hb.noBook a ha x (heq a x ▸ hx)
  book a b hab := (hb.book a b hab).congr (heq a)

/-- The book that an admission reserves in. -/
theorem BooksExact.target (hb : BooksExact [] live books) (a : Admission) :
    ((books a.payer).getD (PayerBook.new a.payerBalance)).Valid ∧
      (∀ x, ((books a.payer).getD (PayerBook.new a.payerBalance)).entries.lookup x =
        (live.lookup x).bind (share a.payer)) := by
  cases hbook : books a.payer with
  | some b =>
    have hexact := hb.book _ _ hbook
    exact ⟨hexact.valid, hexact.lookup_live⟩
  | none =>
    refine ⟨valid_new _, fun x => ?_⟩
    by_contra hne
    have := hb.noBook _ hbook x (Option.isSome_iff_ne_none.mpr (Ne.symm hne))
    cases this

theorem pruneBook_update : pruneBook (update books account (some b)) account =
    update books account (if b.isEmpty then none else some b) := by
  unfold pruneBook
  simp only [update_self, update_idem, Option.any_some]
  split_ifs <;> rfl

namespace BooksExact

/-- The book was new exactly when it is empty again. -/
theorem pruneBook_target (hb : BooksExact [] live books) (a : Admission) :
    pruneBook (update books a.payer
      (some ((books a.payer).getD (PayerBook.new a.payerBalance)))) a.payer = books := by
  rw [pruneBook_update, update_eq_self_iff]
  cases hbook : books a.payer with
  | none => rfl
  | some c =>
    rw [Option.getD_some, (hb.book _ _ hbook).isEmpty_eq_false]
    rfl

theorem reserve_true (hb : BooksExact [] live books) {a : Admission}
    (hnew : live.lookup a.hash = none) (h : reserve books a = (true, books')) :
    BooksExact [] (live.insert a.hash ⟨a, true⟩) books' ∧
      withoutReservation books' a.payer a.hash = books := by
  obtain ⟨hvalid, hlookup⟩ := hb.target a
  unfold reserve at h
  rcases hres : ((books a.payer).getD (PayerBook.new a.payerBalance)).tryReserve a.hash a.maxCost
    a.priority with ⟨ok, b⟩
  simp only [hres] at h
  obtain ⟨rfl, rfl⟩ := h
  have hnone : ((books a.payer).getD (PayerBook.new a.payerBalance)).entries.lookup a.hash = none := by
    rw [hlookup, hnew]
    rfl
  obtain ⟨hvalid', hentries, hfits, hremove⟩ := tryReserve_true hvalid hnone hres
  have hshare : (⟨a, true⟩ : Live).share a.payer = some (a.priority, a.maxCost) :=
    Live.share_payer rfl
  refine ⟨hb.change (fun x hx => shares_insert hnew (Live.share_of_ne hx)) nofun ?_, ?_⟩
  · rintro _ ⟨⟩
    refine ⟨hvalid', hfits, fun y => ?_, fun hempty => ?_⟩
    · rw [hentries, lookup_insert_eq, lookup_insert_eq, hlookup]
      by_cases hy : y = a.hash
      · simp [hy, hshare]
      · simp [hy]
    · rw [PayerBook.isEmpty_iff, hentries] at hempty
      have := congrArg (AList.lookup a.hash) hempty
      rw [lookup_insert] at this
      cases this
  · unfold withoutReservation
    simp only [update_self, hremove, update_idem]
    exact hb.pruneBook_target a

/-- A refused reservation leaves the books as they were, once a new empty book is dropped. -/
theorem reserve_false (hb : BooksExact [] live books) {a : Admission}
    (h : reserve books a = (false, books')) : pruneBook books' a.payer = books := by
  unfold reserve at h
  rcases hres : ((books a.payer).getD (PayerBook.new a.payerBalance)).tryReserve a.hash a.maxCost
    a.priority with ⟨ok, b⟩
  simp only [hres] at h
  obtain ⟨rfl, rfl⟩ := h
  rw [tryReserve_false hres]
  exact hb.pruneBook_target a

/-- A book from which a reservation was taken is kept or, without reservations, dropped. -/
theorem prune (hb : BooksExact gone live books)
    (hothers : ∀ a, a ≠ account → ∀ x, (live'.lookup x).bind (share a) =
      (live.lookup x).bind (share a)) (hvalid : b.Valid)
    (hfits : b.reserved ≤ b.balance) (hlookup : ∀ x, b.entries.lookup x =
      if x ∈ gone then none else (live'.lookup x).bind (share account)) :
    BooksExact gone live' (pruneBook (update books account (some b)) account) := by
  rw [pruneBook_update]
  split_ifs with hempty
  · refine hb.change hothers (fun _ x hx => ?_) nofun
    by_contra hgone
    have := hlookup x
    rw [PayerBook.isEmpty_iff.mp hempty, if_neg hgone] at this
    rw [← this] at hx
    cases hx
  · refine hb.change hothers nofun ?_
    rintro _ ⟨⟩
    exact ⟨hvalid, hfits, hlookup, fun he => absurd he hempty⟩

/-- Releasing a reservation that is still in its book, or already gone from it. -/
theorem erase_reserved (hb : BooksExact gone live books) (hlive : live.lookup h = some e)
    (he : e.reserved = true) :
    BooksExact gone (live.erase h) (withoutReservation books e.admission.payer h) := by
  have hothers : ∀ a, a ≠ e.admission.payer → ∀ x, ((live.erase h).lookup x).bind (share a) =
      (live.lookup x).bind (share a) := fun a ha => shares_erase hlive (Live.share_of_ne ha)
  have hshare := Live.share_payer he
  unfold withoutReservation
  cases hbook : books e.admission.payer with
  | none =>
    have hbooks := hb.change hothers (v := none) (fun _ x hx => ?_) nofun
    · rwa [← hbook, update_eq_self] at hbooks
    · rw [lookup_erase_eq] at hx
      split_ifs at hx with hxh
      · cases hx
      · exact hb.noBook _ hbook x hx
  | some b =>
    have hexact := hb.book _ _ hbook
    have hafter : ∀ x, (if x = h then none else b.entries.lookup x) = if x ∈ gone then none
        else ((live.erase h).lookup x).bind (share e.admission.payer) := by
      intro x
      rw [hexact.lookup x, lookup_erase_eq]
      by_cases hx : x = h <;> simp [hx]
    by_cases hgone : h ∈ gone
    · have hnone : b.entries.lookup h = none := by rw [hexact.lookup, if_pos hgone]
      have hremove : b.remove h = (false, b) := by
        unfold PayerBook.remove
        rw [hnone]
      simp only [hremove]
      refine hb.prune hothers hexact.valid hexact.fits fun x => ?_
      rw [← hafter x]
      by_cases hx : x = h
      · subst hx
        simp [hnone]
      · simp [hx]
    · have hsome : b.entries.lookup h = some (e.admission.priority, e.admission.maxCost) := by
        rwa [hexact.lookup, if_neg hgone, hlive]
      obtain ⟨b', hremove, hvalid, hentries, -, hreserved, hbalance⟩ :=
        remove_some hexact.valid hsome
      simp only [hremove]
      refine hb.prune hothers hvalid ?_ fun x => ?_
      · have := hexact.fits
        omega
      · rw [hentries, lookup_erase_eq, hafter x]

end BooksExact

end

/-! ## Releasing -/

section

variable {gone : List TxHash} {g g' : MempoolGuard} {h : TxHash} {e : Live}

theorem lookup_foldl_erase (hashes : List TxHash) (x : TxHash) :
    (hashes.foldl (fun live h => live.erase h) live).lookup x =
      if x ∈ hashes then none else live.lookup x := by
  induction hashes generalizing live with
  | nil => simp
  | cons h hashes ih =>
    rw [foldl_cons, ih, lookup_erase_eq]
    by_cases hx : x = h <;> simp [hx]

variable (hx : Exact gone live g)

include hx

theorem Exact.release_none (hnone : live.lookup h = none) : g.release h = (false, g) := by
  have : g.records.lookup h = none := by
    rw [hx.records, hnone]
    rfl
  unfold release
  rw [this]

theorem Exact.release (hlive : live.lookup h = some e) :
    (g.release h).1 = true ∧ Exact gone (live.erase h) (g.release h).2 := by
  have hrecord : g.records.lookup h = some e.record := by
    rw [hx.records, hlive]
    rfl
  unfold MempoolGuard.release
  rw [hrecord]
  obtain ⟨hindex, hsets⟩ := remove_spec hx.index h
  refine ⟨rfl, fun x => ?_, fun a => ?_, fun a => ?_, ?_, hindex, fun x => ?_⟩
  · rw [lookup_erase_eq, lookup_erase_eq, hx.records]
    split_ifs <;> rfl
  · have hcount := count_erase (fun _ e => e.charges a) hlive
    rw [Live.charges_eq] at hcount
    show (refund e.admission.payerSignatureCharged
      (refund e.admission.senderSignatureCharged g.signatureCounts e.admission.sender)
      e.admission.payer).get a = _
    rw [get_refund, get_refund, hx.signature a]
    omega
  · have hcount := count_erase (fun _ e => e.paidByCount a) hlive
    show (if e.reserved = true then g.paymentCounts
      else g.paymentCounts.decrement e.admission.payer).get a = _
    cases he : e.reserved with
    | true =>
      have : e.paidByCount a = false := by simp [paidByCount, he]
      simp only [this, Bool.false_eq_true, if_false, Nat.add_zero] at hcount
      rw [if_pos rfl, hx.payment a, hcount]
    | false =>
      rw [if_neg (by decide), get_decrement, hx.payment a]
      have : e.paidByCount a = decide (a = e.admission.payer) := by
        simp [paidByCount, he, eq_comm]
      simp only [this, decide_eq_true_eq] at hcount
      omega
  · show BooksExact gone (live.erase h) (if e.reserved = true then
      withoutReservation g.payerBooks e.admission.payer h else g.payerBooks)
    cases he : e.reserved with
    | true => exact hx.books.erase_reserved hlive he
    | false => exact hx.books.congr fun a => shares_erase hlive (Live.share_of_counted he a)
  · rw [hsets]
    by_cases hxh : x = h
    · subst hxh
      simp
    · simp [hxh, hx.watchSets]

theorem Exact.releaseAll (hashes : List TxHash) :
    Exact gone (hashes.foldl (fun live h => live.erase h) live) (g.releaseAll hashes).2 ∧
      (hashes.Nodup → (g.releaseAll hashes).1 = hashes.filter fun h => (live.lookup h).isSome) := by
  induction hashes generalizing g live with
  | nil => exact ⟨hx, fun _ => rfl⟩
  | cons h hashes ih =>
    rw [foldl_cons]
    unfold MempoolGuard.releaseAll
    cases hlive : live.lookup h with
    | none =>
      rw [hx.release_none hlive]
      have herase : live.erase h = live := by
        apply AList.ext
        exact kerase_of_notMem_keys (lookup_eq_none.mp hlive)
      rw [herase]
      refine ⟨(ih hx).1, fun hnodup => ?_⟩
      rw [filter_cons_of_neg (by simp [hlive])]
      exact (ih hx).2 (nodup_cons.mp hnodup).2
    | some e =>
      obtain ⟨hok, hnext⟩ := hx.release hlive
      rcases hrel : g.release h with ⟨ok, g₁⟩
      rw [hrel] at hok hnext
      cases hok
      obtain ⟨hexact, hdropped⟩ := ih hnext
      refine ⟨hexact, fun hnodup => ?_⟩
      obtain ⟨hnotin, hnodup⟩ := nodup_cons.mp hnodup
      rw [filter_cons_of_pos (by simp [hlive])]
      show h :: (g₁.releaseAll hashes).1 = _
      rw [hdropped hnodup]
      refine congrArg (cons h) (filter_congr fun x hx' => ?_)
      rw [lookup_erase_eq, if_neg]
      rintro rfl
      exact hnotin hx'

/-- Once the transactions whose reservations are gone are released, nothing is missing. -/
theorem Exact.settle (hgone : ∀ x ∈ gone, live.lookup x = none) : Exact [] live g := by
  refine ⟨hx.records, hx.signature, hx.payment, ⟨fun a ha x hx' => ?_, fun a b hab => ?_⟩, hx.index,
    hx.watchSets⟩
  · have := hgone x (hx.books.noBook a ha x hx')
    rw [this] at hx'
    cases hx'
  · have hb := hx.books.book a b hab
    refine ⟨hb.valid, hb.fits, fun x => ?_, fun hempty => ?_⟩
    · rw [hb.lookup x]
      by_cases hxg : x ∈ gone
      · simp [hgone x hxg]
      · simp [hxg]
    · obtain ⟨x, hxg, hsome⟩ := hb.nonempty hempty
      rw [hgone x hxg] at hsome
      cases hsome

end

/-! ## Admitting -/

section

variable {g g' : MempoolGuard} {a : Admission}

/-- The guard with the charges of an admission, before it is tracked. -/
structure Charged (live : FinMap TxHash Live) (g : MempoolGuard) (e : Live) (g' : MempoolGuard) :
    Prop where
  signature : ∀ x, g'.signatureCounts.get x =
    g.signatureCounts.get x + if e.charges x = true then 1 else 0
  payment : ∀ x, g'.paymentCounts.get x =
    g.paymentCounts.get x + if e.paidByCount x = true then 1 else 0
  books : BooksExact [] (live.insert e.admission.hash e) g'.payerBooks
  restored : (if e.reserved = true then
    withoutReservation g'.payerBooks e.admission.payer e.admission.hash else g'.payerBooks) =
      g.payerBooks
  records : g'.records = g.records
  index : g'.index = g.index

variable {e : Live}

theorem Exact.track (hx : Exact [] live g) (hnew : live.lookup e.admission.hash = none)
    (hc : Charged live g e g') :
    Exact [] (live.insert e.admission.hash e) (g'.track e.admission e.reserved) := by
  have hindex : g'.index.Valid := hc.index ▸ hx.index
  obtain ⟨hvalid, hsets⟩ :=
    insert_spec hindex e.admission.hash e.admission.watchSet
  refine ⟨fun x => ?_, fun x => ?_, fun x => ?_, hc.books, hvalid, fun x => ?_⟩
  · show (g'.records.insert e.admission.hash e.record).lookup x = _
    rw [lookup_insert_eq, lookup_insert_eq, hc.records, hx.records]
    split_ifs <;> rfl
  · show g'.signatureCounts.get x = _
    rw [hc.signature, hx.signature, count_insert _ hnew]
  · show g'.paymentCounts.get x = _
    rw [hc.payment, hx.payment, count_insert _ hnew]
  · show (g'.index.insert e.admission.hash e.admission.watchSet).2.watchSets x = _
    rw [hsets, hc.index, lookup_insert_eq]
    by_cases hxh : x = e.admission.hash
    · simp [hxh]
    · simp [hxh, hx.watchSets]

theorem release_track_payerBooks (hc : Charged live g e g') :
    ((g'.track e.admission e.reserved).release e.admission.hash).2.payerBooks = g.payerBooks := by
  have hrecord : (g'.track e.admission e.reserved).records.lookup e.admission.hash =
      some e.record := lookup_insert _
  unfold MempoolGuard.release
  rw [hrecord]
  exact hc.restored

/-- The same counts, books, records and buckets. -/
structure SameLedger (g g' : MempoolGuard) : Prop where
  signature : ∀ x, g'.signatureCounts.get x = g.signatureCounts.get x
  payment : ∀ x, g'.paymentCounts.get x = g.paymentCounts.get x
  books : g'.payerBooks = g.payerBooks
  records : ∀ h, g'.records.lookup h = g.records.lookup h
  watchSets : g'.index.watchSets = g.index.watchSets
  buckets : ∀ h key, h ∈ g'.index.bucket key ↔ h ∈ g.index.bucket key

/-- The live transactions and the books determine the ledger. -/
theorem Exact.sameLedger (hx : Exact [] live g) (hx' : Exact [] live g')
    (hbooks : g'.payerBooks = g.payerBooks) : SameLedger g g' := by
  have hsets : g'.index.watchSets = g.index.watchSets := by
    funext h
    rw [hx.watchSets, hx'.watchSets]
  refine ⟨fun x => ?_, fun x => ?_, hbooks, fun h => ?_, hsets, fun h key => ?_⟩
  · rw [hx.signature, hx'.signature]
  · rw [hx.payment, hx'.payment]
  · rw [hx.records, hx'.records]
  · rw [hx.index.mem_iff, hx'.index.mem_iff, hsets]

theorem Exact.of_sameLedger (hx : Exact [] live g) (hsame : SameLedger g g')
    (hindex : g'.index = g.index) : Exact [] live g' where
  records h := (hsame.records h).trans (hx.records h)
  signature x := (hsame.signature x).trans (hx.signature x)
  payment x := (hsame.payment x).trans (hx.payment x)
  books := hsame.books ▸ hx.books
  index := hindex ▸ hx.index
  watchSets h := hsame.watchSets ▸ hx.watchSets h

theorem Exact.release_track (hx : Exact [] live g)
    (hnew : live.lookup e.admission.hash = none) (hc : Charged live g e g') :
    ((g'.track e.admission e.reserved).release e.admission.hash).1 = true ∧
      SameLedger g ((g'.track e.admission e.reserved).release e.admission.hash).2 := by
  obtain ⟨hok, hreleased⟩ := (hx.track hnew hc).release (lookup_insert _)
  rw [erase_insert (lookup_eq_none.mp hnew)] at hreleased
  exact ⟨hok, hx.sameLedger hreleased (release_track_payerBooks hc)⟩

theorem charges_of_charge {c₁ c₂ : InflightCounters} (reserved : Bool)
    (hs : charge a.senderSignatureCharged c a.sender cap = (true, c₁))
    (hp : charge a.payerSignatureCharged c₁ a.payer cap = (true, c₂)) (x : Address) :
    c₂.get x = c.get x + if (⟨a, reserved⟩ : Live).charges x = true then 1 else 0 := by
  rw [charge_true hp, charge_true hs, Live.charges_eq]
  exact Nat.add_assoc _ _ _

/-- An admission is accepted with its charges, or refused without a trace. -/
theorem Exact.tryAdmit (hx : Exact [] live g) (hnew : live.lookup a.hash = none) :
    (∃ g₁, Charged live g ⟨a, a.payerTrusted⟩ g₁ ∧ g.tryAdmit a = (.ok (), g₁.track a a.payerTrusted)) ∨
    ∃ e g', g.tryAdmit a = (.error e, g') ∧ SameLedger g g' ∧ g'.index = g.index := by
  have hrecord : g.records.lookup a.hash = none := by
    rw [hx.records, hnew]
    rfl
  unfold MempoolGuard.tryAdmit
  rw [hrecord]
  rcases hs : charge a.senderSignatureCharged g.signatureCounts a.sender g.limits.signatureLimit
    with ⟨_ | _, c₁⟩
  · exact Or.inr ⟨_, _, rfl, ⟨charge_false hs, fun _ => rfl, rfl, fun _ => rfl, rfl,
      fun _ _ => Iff.rfl⟩, rfl⟩
  simp only
  rcases hp : charge a.payerSignatureCharged c₁ a.payer g.limits.signatureLimit with ⟨_ | _, c₂⟩
  · refine Or.inr ⟨_, _, rfl, ⟨fun x => ?_, fun _ => rfl, rfl, fun _ => rfl, rfl,
      fun _ _ => Iff.rfl⟩, rfl⟩
    rw [get_refund, charge_false hp, charge_true hs]
    omega
  have hrefund : ∀ x, (refund a.payerSignatureCharged
      (refund a.senderSignatureCharged c₂ a.sender) a.payer).get x = g.signatureCounts.get x := by
    intro x
    rw [get_refund, get_refund, charge_true hp, charge_true hs]
    omega
  simp only
  unfold admitPayment
  cases htrusted : a.payerTrusted with
  | true =>
    rcases hres : MempoolGuard.reserve g.payerBooks a with ⟨_ | _, books⟩
    · exact Or.inr ⟨_, _, rfl, ⟨hrefund, fun _ => rfl, hx.books.reserve_false hres, fun _ => rfl, rfl,
        fun _ _ => Iff.rfl⟩, rfl⟩
    · obtain ⟨hbooks, hrestored⟩ := hx.books.reserve_true hnew hres
      refine Or.inl ⟨{ g with signatureCounts := c₂, payerBooks := books }, ?_, rfl⟩
      exact ⟨charges_of_charge true hs hp, fun _ => rfl, hbooks, hrestored, rfl, rfl⟩
  | false =>
    rcases hcount : g.paymentCounts.tryIncrement a.payer g.limits.paymentLimit with ⟨_ | _, counts⟩
    · exact Or.inr ⟨_, _, rfl, ⟨hrefund, (tryIncrement_false hcount).2, rfl, fun _ => rfl, rfl,
        fun _ _ => Iff.rfl⟩, rfl⟩
    · refine Or.inl ⟨{ g with signatureCounts := c₂, paymentCounts := counts }, ?_, rfl⟩
      refine ⟨charges_of_charge false hs hp, fun x => ?_, hx.books.congr fun a => shares_insert hnew
        (Live.share_of_counted rfl a), rfl, rfl, rfl⟩
      rw [(tryIncrement_true hcount).2 x]
      simp [paidByCount, eq_comm]

end

end MempoolGuard

end NodeReth
