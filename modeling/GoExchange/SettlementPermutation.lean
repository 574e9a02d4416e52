import GoExchange.HoldsSound

/-!
# Settlement in any order

Trades that fit their orders, and whose holds are covered by what is locked,
are all settled in whatever order they come, and the orders and balances at
the end do not depend on it.
-/
namespace GoExchange.Holds

open Ledger Service Rows Tally Fallible

variable {s s' : Store} {b c o : OrderRow} {row : TradeRow} {rows : List TradeRow}
  {u : Nat × String} {orders : List OrderRow}

/-! ## The postings of a trade -/

/-- A trade as settlement has prepared it. -/
structure Priced (row : TradeRow) : Prop where
  coin : row.coinSymbol ≠ "" ∧ row.coinSymbol.length ≤ 16
  price : 0 < row.price
  quantity : 0 < row.quantity
  buyerFee : row.buyerFee = tradingFeeAmount (tradeQuoteAmount row)
  sellerFee : row.sellerFee = tradingFeeAmount (tradeQuoteAmount row)
  key : (JournalKey.trade row.idempotencyKey).text.length ≤ 160

/-- The orders of a trade. -/
structure Crossed (orders : List OrderRow) (row : TradeRow) (b c : OrderRow) : Prop where
  buyRow : b ∈ orders ∧ b.id = row.buyOrderID
  sellRow : c ∈ orders ∧ c.id = row.sellOrderID
  sides : b.side = .buy ∧ c.side = .sell
  coins : b.coinSymbol = row.coinSymbol ∧ c.coinSymbol = row.coinSymbol
  users : b.userID ≠ 0 ∧ c.userID ≠ 0 ∧ b.userID ≠ c.userID
  limit : b.orderType ≠ .market → row.price ≤ b.price

/-- The plan of a trade between two orders. -/
def planOf (b c : OrderRow) (row : TradeRow) : TradePlan :=
  let quote := tradeQuoteAmount row
  ⟨row, b.userID, c.userID, tradePostings row b.userID c.userID (reservedBuyDebitAmount b row)
    (quote + row.buyerFee) (quote - row.sellerFee), quote + row.buyerFee⟩

theorem Priced.charged (h : Priced row) : Charged row :=
  ⟨h.coin.1, h.price, h.quantity, h.buyerFee, h.sellerFee⟩

theorem Crossed.within (h : Crossed orders row b c) : WithinLimit b row.price := by
  by_cases hmarket : b.orderType = .market
  · exact .inl hmarket
  · exact .inr (h.limit hmarket)

theorem quoteAmountWithTradingFee_mono {x y : Decimal} (h : x ≤ y) :
    quoteAmountWithTradingFee x ≤ quoteAmountWithTradingFee y := by
  rw [quoteAmountWithTradingFee_eq, quoteAmountWithTradingFee_eq]
  exact mul_le_mul_of_nonneg_right h (by linarith [defaultTradingFeeRate_bounds.1])

/-- The rows are found by their ids. -/
theorem Crossed.found (h : Crossed orders row b c) (hn : (orders.map OrderRow.id).Nodup) :
    orders.find? (·.id = row.buyOrderID) = some b ∧
    orders.find? (·.id = row.sellOrderID) = some c :=
  ⟨h.buyRow.2 ▸ find?_eq_some hn h.buyRow.1, h.sellRow.2 ▸ find?_eq_some hn h.sellRow.1⟩

section

variable (h : Crossed orders row b c) (hp : Priced row)

include h hp

theorem Crossed.terms : Terms b c (planOf b c row) := by
  refine ⟨h.sides.1, h.sides.2, h.coins, ?_, hp.charged.plan b b.userID c.userID⟩
  unfold settlementParticipants
  rw [if_neg (by simp [h.users.1, h.users.2.1]), if_neg h.users.2.2]
  rfl

theorem Crossed.lines : ∀ i ∈ (planOf b c row).postings, Line row i := hp.charged.lines h.within

theorem Crossed.balanced (asset : String) :
    sumAt PostingInput.asset PostingInput.amount (planOf b c row).postings asset = 0 :=
  hp.charged.balanced h.within asset

/-- Only locked balances are debited. -/
theorem Crossed.credits {k : AccountKey} (hk : k.accountType ≠ .userLocked) :
    ∀ i ∈ (planOf b c row).postings, i.key = k → 0 ≤ i.amount := by
  rintro i hi rfl
  exact ((h.lines hp i hi).amount.2 hk).le

theorem Crossed.bought :
    row.quantity ≤ sumAt PostingInput.key PostingInput.amount (planOf b c row).postings
      ⟨.userAvailable, b.userID, row.coinSymbol⟩ := by
  have hmem : (⟨.userAvailable, some b.userID, row.coinSymbol, row.quantity⟩ : PostingInput) ∈
      (planOf b c row).postings := by
    simp [planOf, tradePostings]
  exact le_sumAt (h.credits hp (by simp)) hmem rfl

theorem Crossed.recordable (id : Nat) :
    Recordable ⟨.trade, (JournalKey.trade row.idempotencyKey).text, .trade, id, none,
      (planOf b c row).postings⟩ := by
  refine ⟨validateJournalInput_iff.mpr ⟨⟨?_, by simp, by simp, ?_, by simp⟩, fun i hi => ?_,
    h.balanced hp⟩, by simp, by simp, hp.key⟩
  · simp [JournalKey.text, JournalKey.label]
  · simp [planOf, tradePostings]
  · have hline := h.lines hp i hi
    refine ⟨?_, hline.amount.1, hline.owner⟩
    rcases hline.asset with ha | ha
    · rw [ha]
      decide
    · rw [ha]
      exact hp.coin.1

theorem Crossed.specs : ∀ i ∈ (planOf b c row).postings, i.spec.Valid := by
  intro i hi
  have hline := h.lines hp i hi
  have hlength : i.asset.length ≤ 16 := by
    rcases hline.asset with ha | ha
    · rw [ha]
      decide
    · rw [ha]
      exact hp.coin.2
  exact ⟨hline.known, hline.owner, hlength⟩

end

/-! ## The ledger's part -/

/-- The averages take what is not negative. -/
theorem applyAvgBuyPrice_of {userID : Nat} {asset : String} {quantity cost : Decimal}
    (hq : 0 < quantity)
    (htotal : quantity ≤ userTotal s.ledger userID asset) (hcost : 0 ≤ cost)
    (hs : ∀ r ∈ s.stats, 0 ≤ r.avgBuyPrice) :
    ∃ stats, applyAvgBuyPrice s userID asset quantity cost = .ok { s with stats := stats } ∧
      ∀ r ∈ stats, 0 ≤ r.avgBuyPrice := by
  have hpos : 0 < userTotal s.ledger userID asset := hq.trans_le htotal
  have hprev : 0 ≤ (s.stats.find? fun r => (r.userID, r.asset) = (userID, asset)).elim 0
      AssetStat.avgBuyPrice := by
    cases hf : s.stats.find? fun r => (r.userID, r.asset) = (userID, asset) with
    | none => exact le_refl _
    | some r => exact hs r (List.mem_of_find?_eq_some hf)
  have havg : 0 ≤ Decimal.div ((s.stats.find? fun r => (r.userID, r.asset) = (userID, asset)).elim 0
      AssetStat.avgBuyPrice * (userTotal s.ledger userID asset - quantity) + cost)
      (userTotal s.ledger userID asset) :=
    Rounding.roundHalfAway_nonneg
      (div_nonneg (add_nonneg (mul_nonneg hprev (sub_nonneg.mpr htotal)) hcost) hpos.le)
  unfold applyAvgBuyPrice
  simp only [not_not.mpr hq, not_not.mpr hpos, not_lt.mpr havg, if_false]
  split
  · refine ⟨_, rfl, fun r hr => ?_⟩
    obtain ⟨x, hx, rfl⟩ := List.mem_map.mp hr
    split
    · exact havg
    · exact hs x hx
  · exact ⟨_, rfl, forall_mem_concat hs havg⟩

theorem clearAvgBuyPriceIfEmpty_of (userID : Nat) (asset : String)
    (hs : ∀ r ∈ s.stats, 0 ≤ r.avgBuyPrice) :
    ∀ r ∈ (clearAvgBuyPriceIfEmpty s userID asset).stats, 0 ≤ r.avgBuyPrice := by
  unfold clearAvgBuyPriceIfEmpty
  split
  · exact hs
  · intro r hr
    obtain ⟨x, hx, rfl⟩ := List.mem_map.mp hr
    split
    · exact le_refl _
    · exact hs x hx

/-- The balances that settlement keeps from going below zero. -/
def Nonneg (t : Tables) : Prop :=
  ∀ k : AccountKey, allowsNegativeBalance k.accountType = false → 0 ≤ balanceOf t k

/-- What a trade leaves of the balances if the locked ones cover it. -/
theorem Crossed.nonneg (h : Crossed orders row b c) (hp : Priced row) {t : Tables} (ht : Nonneg t)
    (hlocked : ∀ u, 0 ≤ lockedOf t u + lockedBy (planOf b c row).postings u) {k : AccountKey}
    (hk : allowsNegativeBalance k.accountType = false) :
    0 ≤ balanceOf t k + sumAt PostingInput.key PostingInput.amount (planOf b c row).postings k := by
  by_cases htype : k.accountType = .userLocked
  · obtain ⟨_, user, asset⟩ := k
    cases htype
    exact hlocked (user, asset)
  · exact add_nonneg (ht k hk) (sumAt_nonneg (h.credits hp htype))

theorem Crossed.bookTrade_ok (h : Crossed orders row b c) (hp : Priced row)
    (hprov : Provisioned s.ledger) (hnonneg : Nonneg s.ledger)
    (havg : ∀ r ∈ s.stats, 0 ≤ r.avgBuyPrice)
    (hkey : (JournalKey.trade row.idempotencyKey).text ∉
      s.ledger.journals.map JournalEntry.idempotencyKey)
    (hlocked : ∀ u, 0 ≤ lockedOf s.ledger u + lockedBy (planOf b c row).postings u) :
    ∃ s', bookTrade s (planOf b c row) = .ok s' ∧ ∀ r ∈ s'.stats, 0 ≤ r.avgBuyPrice := by
  have hcovered : Covered (balanceOf s.ledger) (planOf b c row).postings :=
    fun i _ hneg => h.nonneg hp hnonneg hlocked hneg
  obtain ⟨t, ht⟩ := record_new_ok hprov (h.recordable hp row.id) rfl hkey (h.specs hp) hcovered
  have hwrote := (record_new hprov hkey ht).2.1
  have hafter : Nonneg t := fun k hk => by
    rw [hwrote.balance]
    exact h.nonneg hp hnonneg hlocked hk
  -- the buyer owns at least what was bought
  have htotal : row.quantity ≤ userTotal t b.userID row.coinSymbol := by
    have havailable := hwrote.balance ⟨.userAvailable, b.userID, row.coinSymbol⟩
    have hbefore := hnonneg ⟨.userAvailable, b.userID, row.coinSymbol⟩ rfl
    have hlock := hafter ⟨.userLocked, b.userID, row.coinSymbol⟩ rfl
    have hbought := h.bought hp
    unfold userTotal
    simp only at havailable ⊢
    linarith
  have hcost : 0 ≤ tradeQuoteAmount row + row.buyerFee := by
    rw [hp.buyerFee]
    linarith [hp.charged.quote_pos, hp.charged.fee_pos]
  obtain ⟨stats, hstats, hstats'⟩ :=
    applyAvgBuyPrice_of (s := { s with ledger := t }) hp.quantity htotal hcost havg
  refine ⟨_, bind_eq_ok.mpr ⟨{ s with ledger := t }, bind_eq_ok.mpr ⟨_, ht, rfl⟩,
    bind_eq_ok.mpr ⟨_, hstats, rfl⟩⟩, ?_⟩
  exact clearAvgBuyPriceIfEmpty_of c.userID row.coinSymbol hstats'

/-! ## What is left of an order -/

/-- Trades that fit what is left of an order: of the amount, or of the hold of a market buy. -/
def Room (trades : List TradeRow) (o : OrderRow) (rows : List TradeRow) : Prop :=
  if o.orderType = .market ∧ o.side = .buy then
    ((naming rows o.id).map fun t => quoteAmountWithTradingFee (tradeQuoteAmount t)).sum ≤
      remainingHold trades o
  else ((naming rows o.id).map fun t => t.quantity).sum ≤ o.amount - o.filledAmount

variable {trades : List TradeRow}

theorem mem_of_naming {t : TradeRow} {id : Nat} (h : t ∈ naming rows id) : t ∈ rows :=
  (List.mem_filter.mp h).1

theorem debits_nonneg (hp : ∀ t ∈ rows, Priced t) (id : Nat) :
    0 ≤ ((naming rows id).map fun t => quoteAmountWithTradingFee (tradeQuoteAmount t)).sum := by
  refine List.sum_nonneg fun x hx => ?_
  obtain ⟨t, ht, rfl⟩ := List.mem_map.mp hx
  have hrow := hp t (mem_of_naming ht)
  exact add_nonneg hrow.charged.quote_pos.le hrow.charged.fee_pos.le

theorem quantities_pos (hp : ∀ t ∈ rows, Priced t) {id : Nat} (h : naming rows id ≠ []) :
    0 < ((naming rows id).map fun t => t.quantity).sum := by
  refine List.sum_pos _ (fun x hx => ?_) (by simpa using h)
  obtain ⟨t, ht, rfl⟩ := List.mem_map.mp hx
  exact (hp t (mem_of_naming ht)).quantity

theorem quantities_nonneg (hp : ∀ t ∈ rows, Priced t) (id : Nat) :
    0 ≤ ((naming rows id).map fun t => t.quantity).sum := by
  by_cases h : naming rows id = []
  · simp [h]
  · exact (quantities_pos hp h).le

/-- What an open order holds is not negative. -/
theorem Room.hold_nonneg (h : Room trades o rows) (hp : ∀ t ∈ rows, Priced t)
    (hside : o.side = .buy ∨ o.side = .sell) (hprice : 0 ≤ o.price) :
    0 ≤ remainingHold trades o := by
  unfold Room at h
  split at h
  · exact (debits_nonneg hp o.id).trans h
  · rename_i hm
    have hrest : 0 ≤ o.amount - o.filledAmount := (quantities_nonneg hp o.id).trans h
    unfold remainingHold
    rcases hside with hside | hside
    · have hlimit : o.orderType ≠ .market := fun he => hm ⟨he, hside⟩
      simp only [hside, hlimit, reduceCtorEq, if_false]
      have hzero : quoteAmountWithTradingFee 0 = 0 := by simp [quoteAmountWithTradingFee_eq]
      exact hzero ▸ quoteAmountWithTradingFee_mono (mul_nonneg hprice hrest)
    · rw [if_pos hside]
      exact hrest

/-- A trade that is due fits its orders. -/
theorem Room.fits (h : Room trades o (row :: rows)) (hp : ∀ t ∈ row :: rows, Priced t)
    (hfees : ∀ t ∈ trades, 0 ≤ t.buyerFee)
    (hnamed : row.buyOrderID = o.id ∨ row.sellOrderID = o.id) :
    Fits o (o.filledAmount + row.quantity) (o.filledQuoteAmount + tradeQuoteAmount row) := by
  obtain ⟨hrow, hrows⟩ := List.forall_mem_cons.mp hp
  unfold Room at h
  unfold Fits
  rw [naming_cons, if_pos hnamed] at h
  simp only [List.map_cons, List.sum_cons] at h
  split at h <;> rename_i hm
  · have hsum : 0 ≤ sumBuyerFeesByBuyOrderID trades o.id := sumAt_nonneg fun t ht _ => hfees t ht
    have hrest := debits_nonneg hrows o.id
    have hfee := hrow.charged.fee_pos
    simp only [remainingHold, hm.1, hm.2, reduceCtorEq, if_false, if_true,
      quoteAmountWithTradingFee] at h
    simp only [quoteAmountWithTradingFee] at hrest
    rw [if_pos hm]
    linarith
  · have hrest := quantities_nonneg hrows o.id
    rw [if_neg hm]
    linarith

/-- Once the trade is settled the others still fit, and an order with trades to come is still open.
-/
theorem Room.step (h : Room trades o (row :: rows)) (hp : ∀ t ∈ row :: rows, Priced t)
    (hfees : ∀ t ∈ trades, 0 ≤ t.buyerFee) (hbuy : o.side = .buy → row.sellOrderID ≠ o.id) :
    Room (trades ++ [row]) (executed [row] o) rows ∧
      (isOpen o = true → naming rows o.id ≠ [] → isOpen (executed [row] o) = true) := by
  obtain ⟨hrow, hrows⟩ := List.forall_mem_cons.mp hp
  by_cases hnamed : row.buyOrderID = o.id ∨ row.sellOrderID = o.id
  · rw [executed_singleton (hnamed.imp Eq.symm Eq.symm)]
    unfold Room at h ⊢
    rw [naming_cons, if_pos hnamed] at h
    simp only [List.map_cons, List.sum_cons] at h
    by_cases hm : o.orderType = .market ∧ o.side = .buy
    · have hid : row.buyOrderID = o.id := hnamed.resolve_right (hbuy hm.2)
      have hm' := hm
      obtain ⟨hmarket, hside⟩ := hm
      rw [if_pos hm'] at h
      simp only [remainingHold, hmarket, hside, reduceCtorEq, if_false, if_true] at h
      have hfee := hrow.charged.fee_pos
      have hrest := debits_nonneg hrows o.id
      have hsum : 0 ≤ sumBuyerFeesByBuyOrderID trades o.id := sumAt_nonneg fun t ht _ => hfees t ht
      have hquote : quoteAmountWithTradingFee (tradeQuoteAmount row) =
        tradeQuoteAmount row + tradingFeeAmount (tradeQuoteAmount row) := rfl
      constructor
      · simp only [setExecution, hmarket, hside, and_self, if_true, remainingHold,
          reduceCtorEq, if_false, sumBuyerFees_append, hid, hrow.buyerFee]
        linarith
      · intro _ _
        have hne : o.filledQuoteAmount + tradeQuoteAmount row ≠ o.quoteAmount :=
          fun he => by linarith
        simp [isOpen, setExecution, fillStatus, hmarket, hside, hne, isCancellableOrderStatus]
    · rw [if_neg hm] at h
      constructor
      · rw [if_neg (by exact hm)]
        simp only [setExecution]
        linarith
      · intro _ hne
        have hpos := quantities_pos hrows hne
        have hlt : o.filledAmount + row.quantity ≠ o.amount := fun he => by linarith
        simp only [isOpen, setExecution, fillStatus, if_neg hm, if_neg hlt]
        rfl
  · have hsame : naming (row :: rows) o.id = naming rows o.id := by rw [naming_cons, if_neg hnamed]
    have hnone : naming [row] o.id = [] := by rw [naming_cons, if_neg hnamed, naming_nil]
    rw [executed_of_not_named hnone]
    refine ⟨?_, fun hopen _ => hopen⟩
    have hhold : remainingHold (trades ++ [row]) o = remainingHold trades o := by
      simp only [remainingHold, sumBuyerFees_append, if_neg (not_or.mp hnamed).1, add_zero]
    unfold Room at h ⊢
    rwa [hhold, ← hsame]

/-! ## Trades that are due -/

/-- The tables as the services keep them, with enough locked for what the open orders hold. -/
structure Covers (s : Store) : Prop where
  provisioned : Provisioned s.ledger
  nonneg : Nonneg s.ledger
  orderIDs : (s.orders.map OrderRow.id).Nodup
  shape : ∀ o ∈ s.orders, (o.side = .buy ∨ o.side = .sell) ∧ 0 ≤ o.price
  fees : ∀ t ∈ s.trades, 0 ≤ t.buyerFee
  averages : ∀ r ∈ s.stats, 0 ≤ r.avgBuyPrice
  locked : ∀ u, sumAt heldFor (openHold s.trades) s.orders u ≤ lockedOf s.ledger u

/-- A trade whose row is not there yet. -/
structure Fresh (s : Store) (row : TradeRow) : Prop where
  key : row.idempotencyKey ∉ s.trades.map TradeRow.idempotencyKey
  event : row.eventID ∉ s.trades.map fun t => t.eventID
  journal : (JournalKey.trade row.idempotencyKey).text ∉
    s.ledger.journals.map JournalEntry.idempotencyKey

/-- Prepared trades that can all be settled. -/
structure Due (s : Store) (rows : List TradeRow) : Prop where
  tables : Covers s
  priced : ∀ t ∈ rows, Priced t
  keys : Rows.Fresh (s.trades.map TradeRow.idempotencyKey) (rows.map TradeRow.idempotencyKey)
  events : Rows.Fresh (s.trades.map fun t => t.eventID) (rows.map fun t => t.eventID)
  journals : ∀ t ∈ rows, (JournalKey.trade t.idempotencyKey).text ∉
    s.ledger.journals.map JournalEntry.idempotencyKey
  crossed : ∀ t ∈ rows, ∃ b c, Crossed s.orders t b c ∧ isOpen b = true ∧ isOpen c = true
  room : ∀ o ∈ s.orders, isOpen o = true → Room s.trades o rows

theorem Due.hold_nonneg (h : Due s rows) (ho : o ∈ s.orders) : 0 ≤ openHold s.trades o := by
  cases hopen : isOpen o with
  | false => rw [openHold_closed hopen]
  | true =>
    rw [openHold_open hopen]
    exact (h.room o ho hopen).hold_nonneg h.priced (h.tables.shape o ho).1 (h.tables.shape o ho).2

/-- What an order holds is locked for its owner. -/
theorem Due.hold_locked (h : Due s rows) (ho : o ∈ s.orders) (hu : heldFor o = u) :
    openHold s.trades o ≤ lockedOf s.ledger u :=
  (le_sumAt (fun _ hy _ => h.hold_nonneg hy) ho hu).trans (h.tables.locked u)

/-- A buy order holds what the trade reserves. -/
theorem Due.reserved_le (h : Due s (row :: rows)) (hx : Crossed s.orders row b c)
    (hopen : isOpen b = true) : reservedBuyDebitAmount b row ≤ openHold s.trades b := by
  have hroom := h.room b hx.buyRow.1 hopen
  obtain ⟨hrow, hrows⟩ := List.forall_mem_cons.mp h.priced
  have hnaming : naming (row :: rows) b.id = row :: naming rows b.id := by
    rw [naming_cons, if_pos (.inl hx.buyRow.2.symm)]
  rw [openHold_open hopen]
  unfold Room at hroom
  simp only [hnaming, List.map_cons, List.sum_cons] at hroom
  unfold reservedBuyDebitAmount
  by_cases hm : b.orderType = .market
  · rw [if_pos ⟨hm, hx.sides.1⟩] at hroom
    rw [if_pos hm]
    linarith [debits_nonneg hrows b.id]
  · rw [if_neg fun hmb => hm hmb.1] at hroom
    rw [if_neg hm]
    simp only [remainingHold, hx.sides.1, reduceCtorEq, if_false, hm]
    refine quoteAmountWithTradingFee_mono
      (mul_le_mul_of_nonneg_left ?_ (h.tables.shape b hx.buyRow.1).2)
    linarith [quantities_nonneg hrows b.id]

/-- A sell order holds the quantity of the trade. -/
theorem Due.quantity_le (h : Due s (row :: rows)) (hx : Crossed s.orders row b c)
    (hopen : isOpen c = true) : row.quantity ≤ openHold s.trades c := by
  have hroom := h.room c hx.sellRow.1 hopen
  obtain ⟨hrow, hrows⟩ := List.forall_mem_cons.mp h.priced
  have hnaming : naming (row :: rows) c.id = row :: naming rows c.id := by
    rw [naming_cons, if_pos (.inr hx.sellRow.2.symm)]
  unfold Room at hroom
  simp only [hnaming, hx.sides.2, reduceCtorEq, and_false, if_false, List.map_cons, List.sum_cons]
    at hroom
  rw [openHold_open hopen, remainingHold, if_pos hx.sides.2]
  linarith [quantities_nonneg hrows c.id]

theorem Crossed.heldFor (h : Crossed orders row b c) :
    heldFor b = (b.userID, krwAssetSymbol) ∧ heldFor c = (c.userID, row.coinSymbol) := by
  simp [Holds.heldFor, orderHoldAsset, h.sides, h.coins]

/-- The locked balances cover the trade. -/
theorem Due.covered (h : Due s (row :: rows)) (hx : Crossed s.orders row b c) (hb : isOpen b = true)
    (hc : isOpen c = true) (u : Nat × String) :
    0 ≤ lockedOf s.ledger u + lockedBy (planOf b c row).postings u := by
  have hbuy := h.reserved_le hx hb
  have hsell := h.quantity_le hx hc
  have hnonneg : 0 ≤ lockedOf s.ledger u := h.tables.nonneg ⟨.userLocked, u.1, u.2⟩ rfl
  simp only [planOf, lockedBy_trade]
  by_cases hub : (b.userID, krwAssetSymbol) = u
  · have huc : (c.userID, row.coinSymbol) ≠ u :=
      fun he => hx.users.2.2 (congrArg Prod.fst (hub.trans he.symm))
    have := h.hold_locked hx.buyRow.1 (hx.heldFor.1.trans hub)
    rw [if_pos hub, if_neg huc]
    linarith
  · by_cases huc : (c.userID, row.coinSymbol) = u
    · have := h.hold_locked hx.sellRow.1 (hx.heldFor.2.trans huc)
      rw [if_neg hub, if_pos huc]
      linarith
    · rw [if_neg hub, if_neg huc]
      linarith

/-! ## One settlement -/

theorem Crossed.executed (h : Crossed orders row b c) (xs : List TradeRow) :
    Crossed (orders.map (executed xs)) row (executed xs b) (executed xs c) := by
  obtain ⟨-, huser, hcoin, hside, htype, hprice⟩ := (executed_sameTerms xs b).eq_fields
  obtain ⟨-, huser', hcoin', hside', -, -⟩ := (executed_sameTerms xs c).eq_fields
  refine ⟨⟨List.mem_map_of_mem h.buyRow.1, (id_executed xs b).trans h.buyRow.2⟩,
    ⟨List.mem_map_of_mem h.sellRow.1, (id_executed xs c).trans h.sellRow.2⟩, ?_, ?_, ?_, ?_⟩
  · rw [hside, hside']
    exact h.sides
  · rw [hcoin, hcoin']
    exact h.coins
  · rw [huser, huser']
    exact h.users
  · rw [htype, hprice]
    exact h.limit

/-- The holds after the trade. -/
theorem Due.holds_executed (h : Due s (row :: rows)) (hx : Crossed s.orders row b c)
    (hb : isOpen b = true) (hc : isOpen c = true) (u : Nat × String) :
    sumAt Holds.heldFor (openHold (s.trades ++ [row])) (s.orders.map (Service.executed [row])) u =
      sumAt Holds.heldFor (openHold s.trades) s.orders u +
        lockedBy (planOf b c row).postings u := by
  obtain ⟨hrow, hrows⟩ := List.forall_mem_cons.mp h.priced
  -- a market buy is not brought to its quote amount, since there is the fee as well
  have hguard : b.orderType = .market →
      b.filledQuoteAmount + tradeQuoteAmount row ≠ b.quoteAmount := fun hm he => by
    have hreserved := h.reserved_le hx hb
    have hfees : 0 ≤ sumBuyerFeesByBuyOrderID s.trades b.id :=
      sumAt_nonneg fun t ht _ => h.tables.fees t ht
    have hfee := hrow.charged.fee_pos
    rw [openHold_open hb] at hreserved
    simp only [reservedBuyDebitAmount, remainingHold, hm, hx.sides.1, reduceCtorEq,
      if_false, if_true, quoteAmountWithTradingFee] at hreserved
    linarith
  rw [Holds.holds_executed h.tables.orderIDs hx.buyRow.1 hx.sellRow.1 ⟨hx.sides.1, hb, hx.buyRow.2⟩
    ⟨hx.sides.2, hc, hx.sellRow.2⟩ hx.coins.2 hrow.buyerFee hguard u]
  simp only [planOf, lockedBy_trade]

theorem Due.moved (h : Due s rows) (hx : Crossed s.orders row b c) (hrow : Priced row)
    (k : AccountKey) :
    movedBy s.orders k row =
      sumAt PostingInput.key PostingInput.amount (planOf b c row).postings k := by
  obtain ⟨hbuy, hsell⟩ := hx.found h.tables.orderIDs
  have hpostings : postingsIn s.orders (planOf b c row).trade = (planOf b c row).postings :=
    postingsIn_eq hbuy hsell (hx.terms hrow)
  exact congrArg (sumAt PostingInput.key PostingInput.amount · k) hpostings

/-- The first trade is settled. -/
theorem Due.settles (h : Due s (row :: rows)) (hid : row = { row with id := s.tradeSeq + 1 }) :
    ∃ s', settleNewTrade s row = .ok s' ∧ Effect s s' [row] ∧
    ∀ r ∈ s'.stats, 0 ≤ r.avgBuyPrice := by
  obtain ⟨b, c, hx, hb, hc⟩ := h.crossed row List.mem_cons_self
  have hrow := h.priced row List.mem_cons_self
  obtain ⟨hevent, -⟩ := fresh_cons.mp h.events
  have hjournal := h.journals row List.mem_cons_self
  obtain ⟨hbuy, hsell⟩ := hx.found h.tables.orderIDs
  have hfits := (h.room b hx.buyRow.1 hb).fits h.priced h.tables.fees (.inl hx.buyRow.2.symm)
  have hfits' := (h.room c hx.sellRow.1 hc).fits h.priced h.tables.fees (.inr hx.sellRow.2.symm)
  have hfill := (fillBoth_iff hx.buyRow.2 hx.sellRow.2).mpr
    ⟨hrow.quantity, hrow.charged.quote_pos, ⟨hb, hfits⟩, ⟨hc, hfits'⟩, rfl⟩
  obtain ⟨s', hbook, havg⟩ := hx.bookTrade_ok
    (s := withFills s row (Service.executed [row] b) (Service.executed [row] c)) hrow
    h.tables.provisioned h.tables.nonneg h.tables.averages hjournal (h.covered hx hb hc)
  have hplan : (planOf b c row).trade = { row with id := s.tradeSeq + 1 } := hid
  have hs : settleNewTrade s row = .ok s' := by
    rw [settleNewTrade_eq hplan hevent hbuy hsell (hx.terms hrow)]
    exact bind_eq_ok.mpr ⟨_, hfill, hbook⟩
  have heffect := settleNewTrade_effect h.tables.provisioned h.tables.orderIDs hjournal hs
  rw [← hid] at heffect
  exact ⟨s', hs, heffect, havg⟩

/-- An order that is open after the trade was open before. -/
theorem Due.isOpen_of_executed (h : Due s (row :: rows)) (ho : o ∈ s.orders)
    (hopen : isOpen (Service.executed [row] o) = true) : isOpen o = true := by
  obtain ⟨b, c, hx, hb, hc⟩ := h.crossed row List.mem_cons_self
  by_cases hnamed : row.buyOrderID = o.id ∨ row.sellOrderID = o.id
  · rcases hnamed with hid | hid
    · exact List.inj_on_of_nodup_map h.tables.orderIDs ho hx.buyRow.1
        (hid.symm.trans hx.buyRow.2.symm) ▸ hb
    · exact List.inj_on_of_nodup_map h.tables.orderIDs ho hx.sellRow.1
        (hid.symm.trans hx.sellRow.2.symm) ▸ hc
  · rwa [executed_of_not_named (by rw [naming_cons, if_neg hnamed, naming_nil])] at hopen

theorem Due.room_step (h : Due s (row :: rows)) (ho : o ∈ s.orders) (hopen : isOpen o = true) :
    Room (s.trades ++ [row]) (Service.executed [row] o) rows ∧
      (naming rows o.id ≠ [] → isOpen (Service.executed [row] o) = true) := by
  obtain ⟨b, c, hx, -, -⟩ := h.crossed row List.mem_cons_self
  have hbuy : o.side = .buy → row.sellOrderID ≠ o.id := fun hside hid => by
    rw [List.inj_on_of_nodup_map h.tables.orderIDs ho hx.sellRow.1
      (hid.symm.trans hx.sellRow.2.symm), hx.sides.2] at hside
    cases hside
  obtain ⟨hroom, hstill⟩ := (h.room o ho hopen).step h.priced h.tables.fees hbuy
  exact ⟨hroom, hstill hopen⟩

theorem Due.covers (h : Due s (row :: rows)) (heffect : Effect s s' [row])
    (havg : ∀ r ∈ s'.stats, 0 ≤ r.avgBuyPrice) : Covers s' := by
  obtain ⟨b, c, hx, hb, hc⟩ := h.crossed row List.mem_cons_self
  have hrow := h.priced row List.mem_cons_self
  have hbalance : ∀ k, balanceOf s'.ledger k =
      balanceOf s.ledger k + sumAt PostingInput.key PostingInput.amount (planOf b c row).postings
      k := fun k => by
    rw [heffect.balances, List.map_cons, List.map_nil, List.sum_cons, List.sum_nil, add_zero,
      h.moved hx hrow]
  constructor
  · exact heffect.provisioned
  · intro k hk
    rw [hbalance]
    exact hx.nonneg hrow h.tables.nonneg (h.covered hx hb hc) hk
  · rw [heffect.orders, ids_executed]
    exact h.tables.orderIDs
  · intro o ho
    obtain ⟨x, hx, rfl⟩ := List.mem_map.mp (heffect.orders ▸ ho)
    obtain ⟨-, -, -, hside, -, hprice⟩ := (executed_sameTerms [row] x).eq_fields
    rw [hside, hprice]
    exact h.tables.shape x hx
  · rw [heffect.trades]
    exact forall_mem_concat h.tables.fees (hrow.buyerFee ▸ hrow.charged.fee_pos.le)
  · exact havg
  · intro u
    have hlocked : lockedOf s'.ledger u =
        lockedOf s.ledger u + lockedBy (planOf b c row).postings u := hbalance _
    rw [heffect.trades, heffect.orders, h.holds_executed hx hb hc, hlocked]
    exact add_le_add_left (h.tables.locked u) _

/-- The other trades are still due. -/
theorem Due.rest (h : Due s (row :: rows)) (heffect : Effect s s' [row])
    (havg : ∀ r ∈ s'.stats, 0 ≤ r.avgBuyPrice) : Due s' rows := by
  have hsub : ∀ t ∈ rows, t ∈ row :: rows := fun t ht => List.mem_cons_of_mem _ ht
  constructor
  · exact h.covers heffect havg
  · exact fun t ht => h.priced t (hsub t ht)
  · rw [heffect.trades, List.map_append]
    exact (fresh_cons.mp h.keys).2
  · rw [heffect.trades, List.map_append]
    exact (fresh_cons.mp h.events).2
  · intro t ht
    rw [heffect.journals, List.mem_append]
    rintro (hmem | hmem)
    · exact h.journals t (hsub t ht) hmem
    · have hsame := JournalKey.trade.inj (JournalKey.text_injective (List.mem_singleton.mp hmem))
      exact (List.nodup_cons.mp h.keys.1).1 (hsame ▸ List.mem_map_of_mem ht)
  · intro t ht
    obtain ⟨b, c, hx, hb, hc⟩ := h.crossed t (hsub t ht)
    have hnamed : ∀ o : OrderRow, o.id = t.buyOrderID ∨ o.id = t.sellOrderID →
        naming rows o.id ≠ [] := fun o ho =>
      List.ne_nil_of_mem (List.mem_filter.mpr ⟨ht, decide_eq_true (ho.imp Eq.symm Eq.symm)⟩)
    rw [heffect.orders]
    exact ⟨_, _, hx.executed [row], (h.room_step hx.buyRow.1 hb).2 (hnamed b (.inl hx.buyRow.2)),
      (h.room_step hx.sellRow.1 hc).2 (hnamed c (.inr hx.sellRow.2))⟩
  · intro o ho hopen
    rw [heffect.orders] at ho
    obtain ⟨x, hx, rfl⟩ := List.mem_map.mp ho
    rw [heffect.trades]
    exact (h.room_step hx (h.isOpen_of_executed hx hopen)).1

/-! ## Any number of settlements -/

/-- The row id plays no part. -/
theorem Due.renumber (h : Due s (row :: rows)) (n : Nat) :
    Due s ({ row with id := n } :: rows) := by
  have hnaming : ∀ (o : OrderRow) (f : TradeRow → Decimal), f { row with id := n } = f row →
      ((naming ({ row with id := n } :: rows) o.id).map f).sum =
        ((naming (row :: rows) o.id).map f).sum := by
    intro o f hf
    rw [naming_cons, naming_cons]
    split
    · rw [List.map_cons, List.map_cons, List.sum_cons, List.sum_cons, hf]
    · rfl
  obtain ⟨hrow, hrows⟩ := List.forall_mem_cons.mp h.priced
  obtain ⟨⟨b, c, hx, hopen⟩, hcrossed⟩ := List.forall_mem_cons.mp h.crossed
  refine { h with
    priced := List.forall_mem_cons.mpr ⟨{ hrow with }, hrows⟩
    journals := List.forall_mem_cons.mpr (List.forall_mem_cons.mp h.journals)
    crossed := List.forall_mem_cons.mpr ⟨⟨b, c, { hx with }, hopen⟩, hcrossed⟩
    room := ?_ }
  · intro o ho hopen
    have hroom := h.room o ho hopen
    unfold Room at hroom ⊢
    rwa [hnaming o _ rfl, hnaming o _ rfl]

theorem Due.perm (h : Due s rows) {rows' : List TradeRow} (hp : rows.Perm rows') : Due s rows' := by
  have hmem : ∀ t, t ∈ rows' → t ∈ rows := fun t ht => hp.mem_iff.mpr ht
  have hfresh : ∀ {κ : Type} {used : List κ} {f : TradeRow → κ}, Rows.Fresh used (rows.map f) →
      Rows.Fresh used (rows'.map f) := fun hf =>
    ⟨(hp.map _).nodup_iff.mp hf.1, fun k hk => hf.2 k ((hp.map _).mem_iff.mpr hk)⟩
  refine ⟨h.tables, fun t ht => h.priced t (hmem t ht), hfresh h.keys, hfresh h.events,
    fun t ht => h.journals t (hmem t ht), fun t ht => h.crossed t (hmem t ht), fun o ho hopen => ?_⟩
  have hroom := h.room o ho hopen
  have hnaming : (naming rows o.id).Perm (naming rows' o.id) := hp.filter _
  unfold Room at hroom ⊢
  rwa [← (hnaming.map _).sum_eq, ← (hnaming.map _).sum_eq]

/-- The rows without their ids. -/
def unnumbered (rows : List TradeRow) : List TradeRow := rows.map fun t => { t with id := 0 }

theorem executed_unnumbered (rows : List TradeRow) (o : OrderRow) :
    Service.executed (unnumbered rows) o = Service.executed rows o := by
  have hnaming : naming (unnumbered rows) o.id = unnumbered (naming rows o.id) := List.filter_map ..
  have hsum : ∀ f : TradeRow → Decimal, (∀ t, f { t with id := 0 } = f t) →
      ((unnumbered (naming rows o.id)).map f).sum = ((naming rows o.id).map f).sum := fun f hf => by
    simp only [unnumbered, List.map_map, Function.comp_def, hf]
  have hnil : unnumbered (naming rows o.id) = [] ↔ naming rows o.id = [] := List.map_eq_nil_iff
  unfold Service.executed
  simp only [hnaming, hnil, hsum (fun t => t.quantity) fun _ => rfl, hsum tradeQuoteAmount
    fun _ => rfl]

theorem moved_unnumbered (orders : List OrderRow) (k : AccountKey) (rows : List TradeRow) :
    ((unnumbered rows).map (movedBy orders k)).sum = (rows.map (movedBy orders k)).sum := by
  rw [unnumbered, List.map_map]
  rfl

theorem Due.settleAll (h : Due s rows) (hzero : ∀ t ∈ rows, t.id = 0) :
    ∃ r stored, settleAll s rows = .ok r ∧ Effect s r.1 stored ∧ unnumbered stored = rows := by
  induction rows generalizing s with
  | nil => exact ⟨(s, []), [], rfl, .refl h.tables.provisioned, rfl⟩
  | cons row rows ih =>
    obtain ⟨hid, hids⟩ := List.forall_mem_cons.mp hzero
    have hdue := h.renumber (s.tradeSeq + 1)
    obtain ⟨s', hs, heffect, havg⟩ := hdue.settles rfl
    obtain ⟨r, stored, hr, heffect', hstored⟩ := ih (hdue.rest heffect havg) hids
    refine ⟨(r.1, ⟨true, false, s.tradeSeq + 1⟩ :: r.2), _, ?_, heffect.trans heffect', ?_⟩
    · have hnew := settlePrepared_new (find?_eq_none.mpr (fresh_cons.mp h.keys).1) hid
      rw [hs] at hnew
      exact bind_eq_ok.mpr ⟨_, hnew, bind_eq_ok.mpr ⟨r, hr, rfl⟩⟩
    · have hrow : ({ row with id := 0 } : TradeRow) = row := by rw [← hid]
      have hcons : unnumbered ({ row with id := s.tradeSeq + 1 } :: stored) =
          { row with id := 0 } :: unnumbered stored :=
        rfl
      rw [List.singleton_append, hcons, hrow, hstored]

/-! ## The trades of the engine -/

variable {d : Database} {items : List TradeBatchItem}

/-- Trades of the engine that are not settled yet, between open orders that have room for all of
them. -/
structure Settleable (d : Database) (items : List TradeBatchItem) : Prop where
  tables : Covers d.toStore
  delivered : ∀ item ∈ items, Delivered item.trade ∧ item.trade.id = 0 ∧
    WellFormed item.trade.toTrade
  columns : ∀ item ∈ items, item.trade.coinSymbol.length ≤ 16 ∧
    (settlementKey item.trade).length ≤ 128
  keys : (items.map fun item => settlementKey item.trade).Nodup
  fresh : ∀ item ∈ items, Fresh d.toStore { item.trade with
    idempotencyKey := settlementKey item.trade }
  crossed : ∀ item ∈ items, ∃ b c, Crossed d.orders item.trade b c ∧ isOpen b = true ∧
    isOpen c = true
  room : ∀ o ∈ d.orders, isOpen o = true → Room d.trades o (items.map TradeBatchItem.trade)

/-- The rows that settlement prepares. -/
def preparedRow (trade : TradeRow) : TradeRow := settledRow trade.toTrade 0

theorem room_prepared (o : OrderRow) (rows : List TradeRow) :
    Room trades o (rows.map preparedRow) ↔ Room trades o rows := by
  have hnaming : naming (rows.map preparedRow) o.id = (naming rows o.id).map preparedRow :=
    List.filter_map ..
  unfold Room
  rw [hnaming, List.map_map, List.map_map]
  exact Iff.rfl

theorem Settleable.due (h : Settleable d items) :
    Due d.toStore (items.map fun item => preparedRow item.trade) := by
  have hkey : ∀ item ∈ items, (preparedRow item.trade).idempotencyKey = settlementKey item.trade :=
    fun item hitem => (h.delivered item hitem).1.settlementKey_eq.symm
  have hkeys : (items.map fun item => preparedRow item.trade).map TradeRow.idempotencyKey =
      items.map fun item => settlementKey item.trade := by
    rw [List.map_map]
    exact List.map_congr_left hkey
  have hevents : ((items.map fun item => preparedRow item.trade).map fun t => t.eventID).Nodup := by
    -- the key is made from the event id
    have hmade : ((items.map fun item => preparedRow item.trade).map fun t => t.eventID).map
        engineKey = (items.map fun item => preparedRow item.trade).map TradeRow.idempotencyKey := by
      simp only [List.map_map]
      rfl
    apply List.Nodup.of_map engineKey
    rw [hmade, hkeys]
    exact h.keys
  constructor
  · exact h.tables
  · refine List.forall_mem_map.mpr fun item hitem => ?_
    obtain ⟨-, -, hw⟩ := h.delivered item hitem
    obtain ⟨hcoin, hlength⟩ := h.columns item hitem
    refine ⟨⟨hw.coin, hcoin⟩, hw.price, hw.quantity, rfl, rfl, ?_⟩
    rw [hkey item hitem]
    simp only [JournalKey.text, JournalKey.label, JournalKey.body, String.length_append]
    have hlabel : "trade:".length = 6 := rfl
    omega
  · rw [hkeys]
    exact ⟨h.keys, List.forall_mem_map.mpr fun item hitem => (h.fresh item hitem).key⟩
  · refine ⟨hevents, ?_⟩
    rw [List.map_map]
    exact List.forall_mem_map.mpr fun item hitem => (h.fresh item hitem).event
  · exact List.forall_mem_map.mpr fun item hitem => hkey item hitem ▸ (h.fresh item hitem).journal
  · refine List.forall_mem_map.mpr fun item hitem => ?_
    obtain ⟨b, c, hx, hopen⟩ := h.crossed item hitem
    exact ⟨b, c, { hx with }, hopen⟩
  · intro o ho hopen
    have := (room_prepared o _).mpr (h.room o ho hopen)
    rwa [List.map_map] at this

/-- Whatever the order of the calls, all of them succeed, and the orders and balances at the end are
the same. -/
theorem settleTrades_perm (h : Settleable d items) :
    ∃ (orders : List OrderRow) (balances : AccountKey → Decimal), ∀ calls, calls.Perm items →
      ∃ d' results, d.settleTrades calls = .ok (d', results) ∧
        d'.orders = orders ∧ ∀ k, balanceOf d'.ledger k = balances k := by
  let rows := items.map fun item => preparedRow item.trade
  refine ⟨d.orders.map (Service.executed rows), fun k => balanceOf d.ledger k +
    (rows.map (movedBy d.orders k)).sum, fun calls hperm => ?_⟩
  have hrows : rows.Perm (calls.map fun item => preparedRow item.trade) := (hperm.map _).symm
  obtain ⟨r, stored, hr, heffect, hstored⟩ :=
    (h.due.perm hrows).settleAll (List.forall_mem_map.mpr fun _ _ => rfl)
  have hprepared : List.Forall₂ Prepared calls
      (calls.map fun item => { item with trade := preparedRow item.trade }) := by
    rw [List.forall₂_map_right_iff, List.forall₂_same]
    intro item hitem
    obtain ⟨hdelivered, hid, hw⟩ := h.delivered item (hperm.mem_iff.mp hitem)
    exact ⟨hdelivered.prepare_iff.mpr ⟨hw, by rw [hid]; rfl⟩, rfl⟩
  refine ⟨_, _, settleTrades_iff.mpr ⟨_, hprepared, r, ?_, rfl⟩, ?_, fun k => ?_⟩
  · rw [List.map_map]
    exact hr
  · rw [heffect.orders]
    refine List.map_congr_left fun o _ => ?_
    rw [← executed_unnumbered, hstored, executed_perm hrows]
  · rw [heffect.balances, ← moved_unnumbered, hstored, ← (hrows.map _).sum_eq]

theorem Nonneg.of_rows {t : Tables} (h : ∀ r ∈ t.balances, 0 ≤ r.balance) : Nonneg t := by
  intro k _
  unfold balanceOf
  cases t.accounts.find? (·.key = k) with
  | none => exact le_refl _
  | some a =>
    cases hr : t.balances.find? (·.accountID = a.id) with
    | none => simp [hr]
    | some r =>
      simp only [hr]
      exact h r (List.mem_of_find?_eq_some hr)

theorem crossedTwice_covers : Covers crossedTwice.toStore := by
  have hnonneg : Nonneg crossedTwice.ledger := .of_rows (by decide +kernel)
  refine ⟨⟨⟨by decide, by decide, by decide, by decide⟩, ⟨by decide, fun _ => Iff.rfl⟩⟩,
    hnonneg, by decide, by decide +kernel, by decide, by decide, fun u => ?_⟩
  by_cases hu : u ∈ crossedTwice.orders.map heldFor
  · revert u
    decide +kernel
  · rw [sumAt_eq_zero hu]
    exact hnonneg ⟨.userLocked, u.1, u.2⟩ rfl

theorem crossedTwice_settleable : Settleable crossedTwice bothTrades := by
  refine ⟨crossedTwice_covers, ?_, by decide, by decide, ?_, ?_, ?_⟩
  · refine List.forall_mem_cons.mpr
      ⟨⟨.ofTrade _, rfl, ?_⟩, List.forall_mem_cons.mpr
        ⟨⟨.ofTrade _, rfl, ?_⟩, List.forall_mem_nil _⟩⟩
    all_goals exact ⟨by decide, by decide, by decide +kernel, by decide +kernel⟩
  · refine List.forall_mem_cons.mpr ⟨?_, List.forall_mem_cons.mpr ⟨?_, List.forall_mem_nil _⟩⟩
    all_goals exact ⟨by decide, by decide, by decide⟩
  · refine List.forall_mem_cons.mpr ⟨⟨crossedTwice.orders[0], crossedTwice.orders[1], ?_, rfl, rfl⟩,
      List.forall_mem_cons.mpr ⟨⟨crossedTwice.orders[0], crossedTwice.orders[2], ?_, rfl, rfl⟩,
        List.forall_mem_nil _⟩⟩
    all_goals exact ⟨by decide, by decide, by decide, by decide, by decide, by decide +kernel⟩
  · unfold Room
    decide +kernel

theorem crossedTwice_perm : ∃ (orders : List OrderRow) (balances : AccountKey → Decimal),
    ∀ calls, calls.Perm bothTrades → ∃ d' results, crossedTwice.settleTrades calls =
      .ok (d', results) ∧ d'.orders = orders ∧ ∀ k, balanceOf d'.ledger k = balances k :=
  settleTrades_perm crossedTwice_settleable

end GoExchange.Holds
