import GoExchange.Holds
import GoExchange.SettlementEffect

/-!
# The locked balances of reachable states

Each operation moves a locked balance by what it changes the remaining holds
by. The one exception is a trade that brings a market buy exactly to its quote
amount: the order is then closed as filled, although the fees of its trades
have been taken from the hold as well.
-/
namespace GoExchange.Holds

open Ledger Service Rows Tally Fallible

variable {b : Bank} {t t' : Tables} {o p : OrderRow} {u : Nat × String} {trades : List TradeRow}
  {s' : Store} {tr : TradeRow} {st : OrderStatus} {x q f : Decimal}

/-! ## Moving locked balances -/

/-- The ledger after journals with the given keys, which moved the locked balances by `d`. -/
structure Moved (t t' : Tables) (keys : List String) (d : Nat × String → Decimal) : Prop where
  sound : Sound t'
  keys : t'.journals.map JournalEntry.idempotencyKey =
    t.journals.map JournalEntry.idempotencyKey ++ keys
  locked : ∀ u, lockedOf t' u = lockedOf t u + d u

theorem Moved.refl (h : Sound t) : Moved t t [] fun _ => 0 := ⟨h, by simp, fun u => by simp⟩

theorem record_moved {input : JournalInput} {e : JournalEntry} {c : Bool} (h : Sound t)
    (hkey : input.idempotencyKey ∉ t.journals.map JournalEntry.idempotencyKey)
    (hr : record t input = .ok (t', e, c)) :
    Moved t t' [input.idempotencyKey] (lockedBy input.postings) := by
  have hs := record_spec h hr
  have hc : c = true := hs.created_iff.mpr hkey
  refine ⟨hs.sound, by simpa [hc] using hs.keys, fun u => ?_⟩
  have := hs.balance ⟨.userLocked, u.1, u.2⟩
  rwa [if_pos hc] at this

theorem recordJournal_moved {s : Store} {key : JournalKey} {et : JournalEventType}
    {rt : JournalReferenceType} {rid : Nat} {postings : List PostingInput} (h : Sound s.ledger)
    (hkey : key.text ∉ s.ledger.journals.map JournalEntry.idempotencyKey)
    (hr : recordJournal s key et rt rid postings = .ok s') :
    ∃ t', s' = { s with ledger := t' } ∧ Moved s.ledger t' [key.text] (lockedBy postings) := by
  unfold recordJournal at hr
  obtain ⟨⟨t', e, c⟩, hrec, hr⟩ := bind_eq_ok.mp hr
  cases hr
  exact ⟨t', rfl, record_moved h hkey hrec⟩

theorem lockedBy_cons (x : PostingInput) (xs : List PostingInput) (u : Nat × String) :
    lockedBy (x :: xs) u =
      (if x.accountType = .userLocked ∧ (x.ownerUserID.getD 0, x.asset) = u then x.amount else 0) +
        lockedBy xs u := by
  unfold lockedBy
  rw [sumAt_cons]
  congr 1
  simp only [PostingInput.key, newAccountKey, AccountKey.mk.injEq, Prod.ext_iff]

@[simp] theorem lockedBy_nil (u : Nat × String) : lockedBy [] u = 0 := rfl

theorem lockedBy_orderHold (o : OrderRow) (x : Decimal) (u : Nat × String) :
    lockedBy (orderHoldPostings o x) u = if heldFor o = u then x else 0 := by
  rw [heldFor]
  simp [orderHoldPostings, lockedBy_cons]

theorem lockedBy_orderRelease (o : OrderRow) (x : Decimal) (u : Nat × String) :
    lockedBy (orderReleasePostings o x) u = if heldFor o = u then -x else 0 := by
  rw [heldFor]
  simp [orderReleasePostings, lockedBy_cons]

theorem lockedBy_lock (userID : Nat) (asset : String) (x : Decimal) (u : Nat × String) :
    lockedBy (lockPostings userID asset x) u = if (userID, asset) = u then x else 0 := by
  simp [lockPostings, lockedBy_cons]

theorem lockedBy_trade (trade : TradeRow) (buyer seller : Nat) (r e n : Decimal)
    (u : Nat × String) : lockedBy (tradePostings trade buyer seller r e n) u =
      (if (buyer, krwAssetSymbol) = u then -r else 0) + if (seller, trade.coinSymbol) = u then
        -trade.quantity else 0 := by
  unfold tradePostings
  by_cases hr : 0 < r - e <;> by_cases hf : 0 < trade.buyerFee + trade.sellerFee <;>
    simp [hr, hf, lockedBy_cons, -sub_pos]

theorem externalAccountType_ne (r : TransferRequest) : externalAccountType r ≠ .userLocked := by
  unfold externalAccountType
  split <;> simp

theorem lockedBy_deposit (r : TransferRequest) (u : Nat × String) :
    lockedBy (depositPostings r) u = 0 := by
  simp [depositPostings, lockedBy_cons, externalAccountType_ne]

theorem lockedBy_withdrawal (r : TransferRequest) (u : Nat × String) :
    lockedBy (withdrawalPostings r) u = if requestedBy r = u then -(r.amount + r.feeAmount)
      else 0 := by
  unfold withdrawalPostings
  by_cases hf : 0 < r.feeAmount <;> simp [hf, lockedBy_cons, externalAccountType_ne, requestedBy]

theorem lockedBy_refund (r : TransferRequest) (u : Nat × String) :
    lockedBy (refundPostings r) u = if requestedBy r = u then -(r.amount + r.feeAmount) else 0 := by
  simp [refundPostings, lockedBy_cons, requestedBy]

/-! ## The keys in use -/

/-- An event that the tables show to be recorded. -/
def Known (b : Bank) : JournalKey → Prop
  | .orderHold id => id ≤ b.orderSeq
  | .orderRelease id _ => ∃ o ∈ b.orders, o.id = id ∧ isOpen o = false
  | .trade key => key ∈ b.trades.map TradeRow.idempotencyKey
  | .withdrawHold id => id ≤ b.transferSeq
  | .depositSettle ref | .withdrawSettle ref | .withdrawRefund ref =>
    ∃ w ∈ b.transfers, w.externalRef = some ref ∧ w.status.isTerminal = true

def KeysKnown (b : Bank) : Prop :=
  ∀ key ∈ b.ledger.journals.map JournalEntry.idempotencyKey, ∃ k : JournalKey, key =
    k.text ∧ Known b k

theorem KeysKnown.fresh (h : KeysKnown b) {k : JournalKey} (hk : ¬ Known b k) :
    k.text ∉ b.ledger.journals.map JournalEntry.idempotencyKey := by
  intro hmem
  obtain ⟨k', htext, hknown⟩ := h _ hmem
  exact hk (JournalKey.text_injective htext ▸ hknown)

theorem KeysKnown.moved (h : KeysKnown b) {b' : Bank} {keys : List String}
    {d : Nat × String → Decimal}
    (hm : Moved b.ledger b'.ledger keys d) (hmono : ∀ k, Known b k → Known b' k)
    (hnew : ∀ key ∈ keys, ∃ k : JournalKey, key = k.text ∧ Known b' k) : KeysKnown b' := by
  intro key hmem
  rw [hm.keys, List.mem_append] at hmem
  rcases hmem with hmem | hmem
  · obtain ⟨k, htext, hknown⟩ := h key hmem
    exact ⟨k, htext, hmono k hknown⟩
  · exact hnew key hmem

/-! ## The invariant of the tables -/

structure BankOk (b : Bank) : Prop where
  ledger : Sound b.ledger
  orderIDs : (b.orders.map OrderRow.id).Nodup
  orderSeq : ∀ o ∈ b.orders, o.id ≤ b.orderSeq
  shape : ∀ o ∈ b.orders, (o.side = .buy ∨ o.side = .sell) ∧ o.status ≠ .unknown ∧
    0 ≤ o.filledAmount ∧ (o.orderType = .market → o.side = .buy → o.amount = 0)
  trades : ∀ t ∈ b.trades, t.buyOrderID ≤ b.orderSeq
  transferIDs : (b.transfers.map TransferRequest.id).Nodup
  transferSeq : ∀ w ∈ b.transfers, w.id ≤ b.transferSeq
  refs : ∀ w ∈ b.transfers, ∀ w' ∈ b.transfers, w.externalRef.isSome →
    w.externalRef = w'.externalRef → w = w'
  keys : KeysKnown b
  locked : ∀ u, lockedOf b.ledger u = holdsOf b u

theorem openHold_closed (h : isOpen o = false) : openHold trades o = 0 := by
  simp [openHold, h]

theorem openHold_open (h : isOpen o = true) : openHold trades o = remainingHold trades o := by
  simp [openHold, h]

/-- Keys stay in use while closed orders and the trades stay. -/
theorem Known.keep {b' : Bank} (hseq : b.orderSeq ≤ b'.orderSeq)
    (hclosed : ∀ x ∈ b.orders, isOpen x = false → x ∈ b'.orders)
    (htrades : ∀ x ∈ b.trades, x ∈ b'.trades)
    (htransfers : b'.transfers = b.transfers) (htseq : b'.transferSeq = b.transferSeq)
    (k : JournalKey) (hk : Known b k) : Known b' k := by
  cases k with
  | orderHold id => exact le_trans hk hseq
  | orderRelease id r =>
    obtain ⟨x, hx, hid, hopen⟩ := hk
    exact ⟨x, hclosed x hx hopen, hid, hopen⟩
  | trade key =>
    obtain ⟨x, hx, hid⟩ := List.mem_map.mp hk
    exact List.mem_map.mpr ⟨x, htrades x hx, hid⟩
  | withdrawHold id => exact (htseq ▸ hk : id ≤ b'.transferSeq)
  | depositSettle ref | withdrawSettle ref | withdrawRefund ref =>
    obtain ⟨w, hw, hrest⟩ := hk
    exact ⟨w, htransfers ▸ hw, hrest⟩

/-- An open order is closed and what it still held is released. -/
theorem BankOk.close (h : BankOk b) (ho : o ∈ b.orders) (hopen : isOpen o = true)
    (hf : 0 ≤ f) (hst : isCancellableOrderStatus st = false) (hknown : st ≠ .unknown)
    {keys : List String} (hkeys : ∀ key ∈ keys, ∃ r, key = (JournalKey.orderRelease o.id r).text)
    (hm : Moved b.ledger t' keys fun u => if heldFor o = u then -remainingHold b.trades o else 0) :
    BankOk { b with
      ledger := t', orders := modify OrderRow.id o.id (setExecution f q st) b.orders } := by
  have hmem : setExecution f q st o ∈ modify OrderRow.id o.id (setExecution f q st) b.orders :=
    mem_modify.mpr (.inl ⟨o, ho, rfl, rfl⟩)
  refine ⟨hm.sound, ?_, fun x hx => ?_, fun x hx => ?_, h.trades, h.transferIDs,
    h.transferSeq, h.refs, ?_, fun u => ?_⟩
  · exact (ids_setExecution o.id f q st b.orders).symm ▸ h.orderIDs
  · rcases mem_modify_row h.orderIDs ho hx with rfl | ⟨hx, -⟩
    · exact h.orderSeq o ho
    · exact h.orderSeq x hx
  · rcases mem_modify_row h.orderIDs ho hx with rfl | ⟨hx, -⟩
    · exact ⟨(h.shape o ho).1, hknown, hf, (h.shape o ho).2.2.2⟩
    · exact h.shape x hx
  · refine h.keys.moved hm
      (Known.keep (le_refl _) (fun x hx hclosed => ?_) (fun _ htr => htr) rfl rfl)
      fun key hkey => ?_
    · refine mem_modify.mpr (.inr ⟨hx, fun he => ?_⟩)
      rw [List.inj_on_of_nodup_map h.orderIDs hx ho he, hopen] at hclosed
      cases hclosed
    · obtain ⟨r, rfl⟩ := hkeys key hkey
      exact ⟨_, rfl, _, hmem, rfl, hst⟩
  · have hsum : sumAt heldFor (openHold b.trades)
        (modify OrderRow.id o.id (setExecution f q st) b.orders) u = _ :=
      sumAt_modify h.orderIDs ho rfl fun _ _ _ => rfl
    have hclosed : isOpen (setExecution f q st o) = false := hst
    rw [hm.locked, h.locked, holdsOf, holdsOf, hsum, openHold_closed hclosed, openHold_open hopen]
    split <;> ring

/-! ## The operations that close an order -/

/-- An order that is open has no release yet. -/
theorem BankOk.releaseOrderAssets (h : BankOk b) (ho : o ∈ b.orders) (hopen : isOpen o = true)
    {r : ReleaseReason} (hr : Service.releaseOrderAssets b.toStore o x r = .ok s') :
    ∃ t', s' = { b.toStore with ledger := t' } ∧
      Moved b.ledger t' [(JournalKey.orderRelease o.id r).text] fun u => if heldFor o = u then -x
        else 0 := by
  unfold Service.releaseOrderAssets at hr
  obtain ⟨-, hr⟩ := guard_eq_ok.mp hr
  obtain ⟨-, hr⟩ := guard_eq_ok.mp hr
  have hfresh : ¬ Known b (.orderRelease o.id r) := by
    rintro ⟨y, hy, hid, hclosed⟩
    rw [List.inj_on_of_nodup_map h.orderIDs hy ho hid, hopen] at hclosed
    cases hclosed
  obtain ⟨t', hs, hm⟩ := recordJournal_moved h.ledger (h.keys.fresh hfresh) hr
  refine ⟨t', hs, hm.sound, hm.keys, fun u => ?_⟩
  rw [hm.locked, lockedBy_orderRelease]

/-- The store after an operation whose new trades buy for one of `ids`. -/
structure Handled (b : Bank) (s' : Store) (ids : List Nat) : Prop where
  ok : BankOk { b with toStore := s' }
  trades : ∀ tr ∈ s'.trades, tr ∈ b.trades ∨ tr.buyOrderID ∈ ids

theorem Handled.refl (h : BankOk b) (ids : List Nat) : Handled b b.toStore ids :=
  ⟨h, fun _ htr => .inl htr⟩

/-- Releasing the remaining hold and closing the order. -/
theorem BankOk.release (h : BankOk b) (ho : o ∈ b.orders) (hopen : isOpen o = true) {s : Store}
    {r : ReleaseReason} (hx : x = remainingHold b.trades o)
    (hr : Service.releaseOrderAssets b.toStore o x r = .ok s)
    (hs : updateOrderExecution s o.id f q st = .ok s')
    (hf : 0 ≤ f) (hst : isCancellableOrderStatus st = false) (hknown : st ≠ .unknown) :
    Handled b s' [] := by
  obtain ⟨t', rfl, hm⟩ := h.releaseOrderAssets ho hopen hr
  cases updateOrderExecution_ok hs
  subst hx
  refine ⟨h.close ho hopen hf hst hknown (fun key hkey => ?_) hm, fun _ htr => .inl htr⟩
  exact ⟨r, List.mem_singleton.mp hkey⟩

theorem cancellation_ok (h : BankOk b) {id : Nat}
    (hc : processOrderCancellation b.toStore id = .ok s') : Handled b s' [] := by
  unfold processOrderCancellation at hc
  obtain ⟨-, hc⟩ := guard_eq_ok.mp hc
  obtain ⟨o, ho, hc⟩ := bind_eq_ok.mp hc
  obtain ⟨hmem, -⟩ := findByIDForUpdate_ok ho
  simp only at hc
  split at hc
  · cases hc
    exact .refl h _
  rename_i hskip
  push Not at hskip
  obtain ⟨hopen, hrem⟩ := hskip
  obtain ⟨s, hs, hc⟩ := bind_eq_ok.mp hc
  obtain ⟨hside, -, hfilled, hmarket⟩ := h.shape o hmem
  unfold releaseOrderHold at hs
  -- a market buy has nothing left by amount, so that only limit buys come here
  have hrelease : ∃ x, Service.releaseOrderAssets b.toStore o x .cancel = .ok s ∧
      x = remainingHold b.trades o := by
    rcases hside with hb | hb
    · rw [hb] at hs
      have hlimit : o.orderType ≠ .market := fun hm => by
        have := hmarket hm hb
        linarith
      exact ⟨_, hs, by simp [remainingHold, hb, hlimit]⟩
    · rw [hb] at hs
      exact ⟨_, hs, by simp [remainingHold, hb]⟩
  obtain ⟨x, hs, hx⟩ := hrelease
  exact h.release hmem hopen hx hs hc hfilled rfl (by simp)

/-- A completion closes the order, also if nothing is left to release. -/
theorem BankOk.complete (h : BankOk b) (ho : o ∈ b.orders) (hopen : isOpen o = true) {s : Store}
    (hx : x = remainingHold b.trades o) (hpos : 0 ≤ x) (hr : releaseRemain b.toStore o x = .ok s)
    (hs : updateOrderExecution s o.id f q st = .ok s') (hf : 0 ≤ f)
    (hst : isCancellableOrderStatus st = false) (hknown : st ≠ .unknown) : Handled b s' [] := by
  unfold releaseRemain at hr
  split at hr
  · exact h.release ho hopen hx hr hs hf hst hknown
  · rename_i hzero
    cases hr
    cases updateOrderExecution_ok hs
    have hm : Moved b.ledger b.ledger [] fun u => if heldFor o = u then -remainingHold b.trades o
        else 0 := by
      have hnone : remainingHold b.trades o = 0 := hx ▸ le_antisymm (not_lt.mp hzero) hpos
      refine ⟨h.ledger, by simp, fun u => ?_⟩
      simp [hnone]
    exact ⟨h.close ho hopen hf hst hknown (by simp) hm, fun _ htr => .inl htr⟩

theorem completion_ok (h : BankOk b) {input : CompleteMarketOrderInput}
    (hrej : ∀ o ∈ b.orders, o.id = input.orderID → o.status ≠ .rejected)
    (hc : completeMarketOrder b.toStore input = .ok s') :
    Handled b s' [] := by
  unfold completeMarketOrder at hc
  obtain ⟨-, hc⟩ := guard_eq_ok.mp hc
  obtain ⟨o, ho, hc⟩ := bind_eq_ok.mp hc
  obtain ⟨hmem, hid⟩ := findByIDForUpdate_ok ho
  obtain ⟨hmarket, hc⟩ := guard_eq_ok.mp hc
  split at hc
  · cases hc
    exact .refl h _
  rename_i hdone
  obtain ⟨-, hc⟩ := guard_eq_ok.mp hc
  obtain ⟨-, hunknown, hfilled, -⟩ := h.shape o hmem
  have hopen : isOpen o = true := by
    have := hrej o hmem hid
    unfold isOpen isCancellableOrderStatus
    cases hst : o.status <;> simp_all
  split at hc
  · rename_i hside
    unfold completeMarketBuyOrder at hc
    obtain ⟨x, hx, hrest⟩ := bind_eq_ok.mp hc
    obtain ⟨s, hs, hfinal⟩ := bind_eq_ok.mp hrest
    unfold remainingMarketBuyQuote at hx
    obtain ⟨hle, hx⟩ := guard_eq_ok.mp hx
    cases hx
    have hrem : remainingHold b.trades o =
        o.quoteAmount - (o.filledQuoteAmount + sumBuyerFeesByBuyOrderID b.trades o.id) := by
      rw [remainingHold, if_neg (by simp [hside]), if_pos (not_not.mp hmarket), sub_sub]
    refine h.complete hmem hopen hrem.symm (sub_nonneg.mpr (not_lt.mp hle)) hs hfinal hfilled ?_ ?_
    all_goals split <;> simp [isCancellableOrderStatus]
  · rename_i hside
    unfold completeMarketSellOrder at hc
    obtain ⟨hle, hc⟩ := guard_eq_ok.mp hc
    obtain ⟨s, hs, hc⟩ := bind_eq_ok.mp hc
    have hrem : remainingHold b.trades o = o.amount - o.filledAmount := if_pos hside
    refine h.complete hmem hopen hrem.symm (not_lt.mp hle) hs hc hfilled ?_ ?_
    all_goals split <;> simp [isCancellableOrderStatus]
  · cases hc

theorem rejection_ok (h : BankOk b) (ho : o ∈ b.orders) (hst : o.status = .pending)
    (hf : o.filledAmount = 0)
    (hq : o.filledQuoteAmount = 0) (htrades : o.id ∉ b.trades.map fun t => t.buyOrderID)
    (hc : rejectAcceptedOrder b.toStore o = .ok s') : Handled b s' [] := by
  unfold rejectAcceptedOrder at hc
  obtain ⟨s, hs, hc⟩ := bind_eq_ok.mp hc
  have hx : holdAmountFor o = remainingHold b.trades o := by
    have hfees : sumBuyerFeesByBuyOrderID b.trades o.id = 0 := sumAt_eq_zero htrades
    rcases (h.shape o ho).1 with hb | hb
    · by_cases hm : o.orderType =
        .market <;> simp [holdAmountFor, remainingHold, hb, hm, hf, hq, hfees]
    · simp [holdAmountFor, remainingHold, hb, hf]
  exact h.release ho (by simp [isOpen, isCancellableOrderStatus, hst]) hx hs hc hf.ge rfl (by simp)

/-! ## Creating an order -/

/-- A new order holds all of its hold. -/
theorem remainingHold_new (hn : NewRow o) (htrades : o.id ∉ trades.map fun t => t.buyOrderID) :
    remainingHold trades o = holdAmountFor o := by
  have hfees : sumBuyerFeesByBuyOrderID trades o.id = 0 := sumAt_eq_zero htrades
  rcases hn.side with hb | hb
  · by_cases hm : o.orderType =
      .market <;> simp [holdAmountFor, remainingHold, hb, hm, hn.filled, hfees]
  · simp [holdAmountFor, remainingHold, hb, hn.filled]

/-- The store after a new order was stored and its assets held. -/
structure Created (b b' : Bank) (o : OrderRow) : Prop where
  ok : BankOk b'
  row : NewRow o
  id : o.id = b.orderSeq + 1
  trades : b'.trades = b.trades

theorem persistAndHold_ok (h : BankOk b) (hn : NewRow o) {o' : OrderRow}
    (hp : persistAndHold b.toStore o = .ok (s', o')) : Created b { b with toStore := s' } o' := by
  unfold persistAndHold at hp
  obtain ⟨s, hs, hp⟩ := bind_eq_ok.mp hp
  cases hp
  have hn' : NewRow { o with id := b.orderSeq + 1 } :=
    ⟨hn.user, hn.symbol, hn.side, hn.status, hn.filled, hn.amounts⟩
  generalize ho : { o with id := b.orderSeq + 1 } = o' at hs hn'
  have hid : o'.id = b.orderSeq + 1 := by rw [← ho]
  have htrades : o'.id ∉ b.trades.map fun t => t.buyOrderID := fun hmem => by
    obtain ⟨tr, htr, hb⟩ := List.mem_map.mp hmem
    have := h.trades tr htr
    omega
  unfold holdOrderAssets at hs
  obtain ⟨-, hs⟩ := guard_eq_ok.mp hs
  obtain ⟨-, hs⟩ := guard_eq_ok.mp hs
  have hfresh : ¬ Known b (.orderHold o'.id) := fun hk => by
    have : o'.id ≤ b.orderSeq := hk
    omega
  obtain ⟨t', rfl, hm⟩ :=
    recordJournal_moved (by exact h.ledger) (by exact h.keys.fresh hfresh)
      (asInsufficientBalance_ok hs)
  have hopen : isOpen o' = true := by simp [isOpen, isCancellableOrderStatus, hn'.status]
  refine ⟨⟨hm.sound, ?_, forall_mem_concat (fun x hx => ?_) (Nat.le_refl _),
    forall_mem_concat h.shape ⟨hn'.side, by simp [hn'.status], hn'.filled.1.ge,
      fun hmarket hbuy => ?_⟩,
    fun tr htr => ?_, h.transferIDs, h.transferSeq, h.refs, ?_, fun u => ?_⟩, hn', hid, rfl⟩
  · exact nodup_concat_succ h.orderIDs h.orderSeq hid
  · exact hid ▸ (h.orderSeq x hx).trans (Nat.le_succ _)
  · rcases hn'.amounts with ⟨ht, -⟩ | ⟨-, -, -, ha, -⟩ | ⟨-, hs, -⟩
    · rw [hmarket] at ht; cases ht
    · exact ha
    · rw [hbuy] at hs; cases hs
  · have := h.trades tr htr
    simp only
    omega
  · refine h.keys.moved hm (Known.keep ?_ (fun x hx _ => List.mem_append_left _ hx)
      (fun _ htr => htr) rfl rfl) fun key hkey => ⟨_, List.mem_singleton.mp hkey, le_refl _⟩
    exact hid ▸ Nat.le_succ _
  · have hlocked := h.locked u
    rw [holdsOf] at hlocked
    simp only [holdsOf, hm.locked, hlocked, lockedBy_orderHold, sumAt_append, sumAt_cons,
      sumAt_nil, add_zero, openHold_open hopen, remainingHold_new hn' htrades]
    ring

/-! ## Settling a trade -/

theorem quoteAmountWithTradingFee_sub (x y : Decimal) :
    quoteAmountWithTradingFee (x - y) =
      quoteAmountWithTradingFee x - quoteAmountWithTradingFee y := by
  simp only [quoteAmountWithTradingFee_eq]
  ring

theorem sumBuyerFees_append (trades : List TradeRow) (tr : TradeRow) (id : Nat) :
    sumBuyerFeesByBuyOrderID (trades ++ [tr]) id =
      sumBuyerFeesByBuyOrderID trades id + if tr.buyOrderID = id then tr.buyerFee else 0 := by
  simp [sumBuyerFeesByBuyOrderID, sumAt_append, sumAt_cons]

/-- A trade changes the hold of its buy order only. -/
theorem openHold_append (h : tr.buyOrderID ≠ o.id) :
    openHold (trades ++ [tr]) o = openHold trades o := by
  simp [openHold, remainingHold, sumBuyerFees_append, h]

/-- The buyer's hold shrinks by what the trade reserves, unless a market buy is closed by it. -/
theorem openHold_buy (hside : o.side = .buy) (hopen : isOpen o = true)
    (hid : o.id = tr.buyOrderID) (hfee : tr.buyerFee = tradingFeeAmount (tradeQuoteAmount tr))
    (hguard : o.orderType = .market → o.filledQuoteAmount + tradeQuoteAmount tr ≠ o.quoteAmount) :
    openHold (trades ++ [tr]) (executed [tr] o) =
      openHold trades o - reservedBuyDebitAmount o tr := by
  rw [executed_singleton (.inl hid), openHold_open hopen]
  unfold fillStatus
  by_cases hm : o.orderType = .market
  · rw [if_pos ⟨hm, hside⟩, if_neg (hguard hm), openHold_open rfl]
    simp [remainingHold, setExecution, hside, hm, sumBuyerFees_append, hid, reservedBuyDebitAmount,
      quoteAmountWithTradingFee, hfee]
    ring
  · rw [if_neg fun h => hm h.1]
    have hrem : ∀ st, remainingHold (trades ++ [tr]) (setExecution (o.filledAmount + tr.quantity)
        (o.filledQuoteAmount + tradeQuoteAmount tr) st o) =
          remainingHold trades o - reservedBuyDebitAmount o tr := by
      intro st
      simp only [remainingHold, setExecution, hside, hm, reservedBuyDebitAmount, if_false,
        reduceCtorEq, ← quoteAmountWithTradingFee_sub]
      congr 1
      ring
    split
    · rename_i hfull
      rw [openHold_closed rfl, ← hrem .filled]
      simp [remainingHold, setExecution, hside, hm, hfull, quoteAmountWithTradingFee,
        tradingFeeAmount]
    · rw [openHold_open rfl, hrem]

theorem openHold_sell (hside : o.side = .sell) (hopen : isOpen o = true)
    (hid : o.id = tr.sellOrderID) :
    openHold trades (executed [tr] o) = openHold trades o - tr.quantity := by
  rw [executed_singleton (.inr hid), openHold_open hopen]
  unfold fillStatus
  rw [if_neg (by simp [hside])]
  split
  · rename_i hfull
    rw [openHold_closed rfl]
    simp [remainingHold, hside]
    linarith
  · rw [openHold_open rfl]
    simp [remainingHold, setExecution, hside]
    ring

section Settle

variable {tr : TradeRow} {plan : TradePlan} {s' : Store}

theorem setExecution_executed (xs : List TradeRow) (o : OrderRow) :
    setExecution (executed xs o).filledAmount (executed xs o).filledQuoteAmount
      (executed xs o).status o = executed xs o := by
  unfold executed
  split <;> rfl

/-- The holds after both fills. -/
theorem holds_executed {orders : List OrderRow} {trades : List TradeRow}
    (hn : (orders.map OrderRow.id).Nodup)
    (ho : o ∈ orders) (hp : p ∈ orders)
    (hbuy : o.side = .buy ∧ isOpen o = true ∧ o.id = tr.buyOrderID)
    (hsell : p.side = .sell ∧ isOpen p = true ∧ p.id = tr.sellOrderID)
    (hcoin : p.coinSymbol = tr.coinSymbol)
    (hfee : tr.buyerFee = tradingFeeAmount (tradeQuoteAmount tr))
    (hguard : o.orderType = .market → o.filledQuoteAmount + tradeQuoteAmount tr ≠ o.quoteAmount)
    (u : Nat × String) :
    sumAt heldFor (openHold (trades ++ [tr])) (orders.map (executed [tr])) u =
      sumAt heldFor (openHold trades) orders u +
      ((if (o.userID, krwAssetSymbol) = u then -reservedBuyDebitAmount o tr else 0) +
        if (p.userID, tr.coinSymbol) = u then -tr.quantity else 0) := by
  obtain ⟨hside, hopen, hid⟩ := hbuy
  obtain ⟨hside', hopen', hid'⟩ := hsell
  have hne : o.id ≠ p.id := by
    intro he
    rw [List.inj_on_of_nodup_map hn ho hp he, hside'] at hside
    cases hside
  have hheldo : heldFor o = (o.userID, krwAssetSymbol) := by simp [heldFor, orderHoldAsset, hside]
  have hheldp : heldFor p = (p.userID, tr.coinSymbol) := by
    simp [heldFor, orderHoldAsset, hside', hcoin]
  have hp' : p ∈ modify OrderRow.id o.id (setExecution (executed [tr] o).filledAmount
      (executed [tr] o).filledQuoteAmount (executed [tr] o).status) orders := mem_modify.mpr
      (.inr ⟨hp, hne.symm⟩)
  rw [← writeFill_executed hn hne ho hp hid hid', writeFill, writeFill, id_executed, id_executed,
    sumAt_modify (by rw [ids_setExecution]; exact hn) hp' rfl fun _ _ _ => rfl,
    sumAt_modify hn ho rfl fun y _ hy => openHold_append (by rw [← hid]; exact Ne.symm hy),
    setExecution_executed, setExecution_executed, openHold_buy hside hopen hid hfee hguard,
    openHold_sell hside' hopen' hid', openHold_append (by rw [← hid]; exact hne), hheldo, hheldp]
  split <;> split <;> ring

/-- The rows of the two orders are filled, the others stay. -/
theorem mem_executed (hn : (b.orders.map OrderRow.id).Nodup) (hf : Filling b.toStore s' tr o p plan)
    {x : OrderRow} (hx : x ∈ b.orders.map (executed [plan.trade])) :
    x ∈ b.orders ∨ ∃ y ∈ b.orders, x = setExecution (y.filledAmount + plan.trade.quantity)
      (y.filledQuoteAmount + tradeQuoteAmount plan.trade)
        (fillStatus y (y.filledAmount + plan.trade.quantity)
        (y.filledQuoteAmount + tradeQuoteAmount plan.trade)) y := by
  obtain ⟨y, hy, rfl⟩ := List.mem_map.mp hx
  rcases hf.row_cases hn hy with ⟨-, hid⟩ | ⟨-, hid⟩ | ⟨-, hsame⟩
  · exact .inr ⟨y, hy, executed_singleton (.inl hid)⟩
  · exact .inr ⟨y, hy, executed_singleton (.inr hid)⟩
  · rw [hsame]
    exact .inl hy

end Settle

/-- Every trade that is settled pays the default fee, the first time and when it is tried again. -/
theorem tradeInput_ok {trade : Trade} {retried : Bool} {x y : TradeRow}
    (hx : prepareTradeForSettlement (tradeInput trade retried) = .ok x)
    (hy : applyTradeFeePolicy x = .ok y) :
    y.toTrade = trade ∧ y.buyerFee = tradingFeeAmount (tradeQuoteAmount y) := by
  have hdelivered : Delivered (tradeInput trade retried) := by
    cases retried with
    | false => exact .ofTrade trade
    | true => exact ⟨.inl rfl, .inr rfl⟩
  obtain ⟨-, rfl⟩ := hdelivered.prepare_iff.mp (bind_eq_ok.mpr ⟨x, hx, hy⟩)
  exact ⟨by cases retried <;> rfl, rfl⟩

theorem settleNewTrade_ok (h : BankOk b)
    (hfee : tr.buyerFee = tradingFeeAmount (tradeQuoteAmount tr))
    (hkey : tr.idempotencyKey ∉ b.trades.map TradeRow.idempotencyKey)
    (hguard : ∀ o ∈ b.orders, o.id = tr.buyOrderID → o.orderType = .market →
      o.filledQuoteAmount + tradeQuoteAmount tr ≠ o.quoteAmount) (hs : settleNewTrade b.toStore tr =
        .ok s') : Handled b s' [tr.buyOrderID] := by
  obtain ⟨o, p, plan, hf⟩ := settleNewTrade_filling h.orderIDs hs
  obtain ⟨hs', e, c, hrec⟩ := bookTrade_record hf.booked
  obtain ⟨ho, hoid⟩ := of_find? hf.buy
  obtain ⟨hp, hpid⟩ := of_find? hf.sell
  obtain ⟨net, hpostings⟩ := hf.terms.postings_eq
  have horders : s'.orders = b.orders.map (executed [plan.trade]) := by rw [hs']
  have htrades : s'.trades = b.trades ++ [plan.trade] := by rw [hs']
  have hseq : s'.orderSeq = b.orderSeq := by rw [hs']
  have hfee' : plan.trade.buyerFee = tradingFeeAmount (tradeQuoteAmount plan.trade) := by
    rw [hf.row]
    exact hfee
  have hguard' : o.orderType = .market →
      o.filledQuoteAmount + tradeQuoteAmount plan.trade ≠ o.quoteAmount := by
    have hid := hoid
    rw [hf.row] at hid ⊢
    exact hguard o ho hid
  -- the key of a trade that is not stored is not in the ledger
  have hfresh : ¬ Known b (.trade plan.trade.idempotencyKey) := by
    rw [hf.row]
    exact hkey
  have hmoved := record_moved h.ledger (by exact h.keys.fresh hfresh) hrec
  refine ⟨⟨hmoved.sound, ?_, fun x hx => ?_, fun x hx => ?_, fun x hx => ?_, h.transferIDs,
    h.transferSeq, h.refs, ?_, fun u => ?_⟩, fun x hx => ?_⟩
  · exact horders ▸ (ids_executed _ b.orders).symm ▸ h.orderIDs
  · rcases mem_executed h.orderIDs hf (horders ▸ hx) with hx | ⟨y, hy, rfl⟩
    · exact hseq.symm ▸ h.orderSeq x hx
    · exact hseq.symm ▸ h.orderSeq y hy
  · rcases mem_executed h.orderIDs hf (horders ▸ hx) with hx | ⟨y, hy, rfl⟩
    · exact h.shape x hx
    · obtain ⟨hside, -, hfilled, hmarket⟩ := h.shape y hy
      exact ⟨hside, (fillStatus_ne _ _ _).1, add_nonneg hfilled hf.positive.1.le, hmarket⟩
  · rcases List.mem_append.mp (htrades ▸ hx) with hx | hx
    · exact hseq.symm ▸ h.trades x hx
    · rw [List.mem_singleton.mp hx, ← hoid]
      exact hseq.symm ▸ h.orderSeq o ho
  · refine h.keys.moved hmoved (Known.keep hseq.ge (fun x hx hclosed => ?_)
      (fun x hx => htrades ▸ List.mem_append_left _ hx) rfl rfl) fun key hk =>
        ⟨_, List.mem_singleton.mp hk, ?_⟩
    · rcases hf.row_cases h.orderIDs hx with ⟨rfl, -⟩ | ⟨rfl, -⟩ | ⟨-, hsame⟩
      · exact absurd (hclosed.symm.trans hf.buyFill.isOpen) Bool.false_ne_true
      · exact absurd (hclosed.symm.trans hf.sellFill.isOpen) Bool.false_ne_true
      · exact horders ▸ List.mem_map.mpr ⟨x, hx, hsame⟩
    · refine List.mem_map_of_mem (?_ : plan.trade ∈ s'.trades)
      simp [htrades]
  · have hlocked := h.locked u
    rw [holdsOf] at hlocked
    rw [hmoved.locked, hpostings, lockedBy_trade, holdsOf, horders, htrades,
      holds_executed h.orderIDs ho hp ⟨hf.terms.buy, hf.buyFill.isOpen, hoid⟩
        ⟨hf.terms.sell, hf.sellFill.isOpen, hpid⟩ hf.terms.coin.2 hfee' hguard' u, hlocked]
    ring
  · rw [htrades, List.mem_append, List.mem_singleton] at hx
    refine hx.imp_right fun hx => ?_
    rw [hx, hf.row]
    exact List.mem_singleton_self _

theorem settleTrade_ok (h : BankOk b) {trade : Trade} {retried : Bool}
    (hguard : ∀ o ∈ b.orders, o.id = trade.buyOrderID → o.orderType = .market →
      o.filledQuoteAmount + trade.price * trade.quantity ≠ o.quoteAmount)
      (hs : settleTrade b.toStore (tradeInput trade retried) = .ok s') :
    Handled b s' [trade.buyOrderID] := by
  unfold settleTrade at hs
  obtain ⟨x, hx, hs⟩ := bind_eq_ok.mp hs
  obtain ⟨y, hy, hrow⟩ := bind_eq_ok.mp hs
  obtain ⟨rfl, hfee⟩ := tradeInput_ok hx hy
  split at hrow
  · obtain ⟨_, -, hrow⟩ := bind_eq_ok.mp hrow
    cases hrow
    exact .refl h _
  · rename_i hnone
    refine settleNewTrade_ok h hfee (fun hmem => ?_) hguard hrow
    obtain ⟨z, hz, hkey⟩ := List.mem_map.mp hmem
    exact List.find?_eq_none.mp hnone z hz (decide_eq_true hkey)

end GoExchange.Holds
