import GoExchange.SettlementEquivalence

/-!
# What settled trades add up to

The orders and balances after any number of settlements, given by the trades
that were stored: an order is filled by the trades that name it, and an account
moves by their postings.
-/
namespace GoExchange.Service

open Ledger Rows Tally Fallible

variable {s s' s'' : Store} {plan : TradePlan} {o buyOrder sellOrder : OrderRow} {trade : TradeRow}
  {xs ys : List TradeRow}

/-! ## The fills of an order -/

/-- The status of an order with fills. -/
def fillStatus (order : OrderRow) (filled filledQuote : Decimal) : OrderStatus :=
  if order.orderType = .market ∧ order.side = .buy then
    if filledQuote = order.quoteAmount then .filled else .partiallyFilled
  else if filled = order.amount then .filled else .partiallyFilled

theorem fillStatus_ne (o : OrderRow) (filled filledQuote : Decimal) :
    fillStatus o filled filledQuote ≠ .unknown ∧ fillStatus o filled filledQuote ≠ .rejected := by
  unfold fillStatus
  split <;> split <;> exact ⟨nofun, nofun⟩

/-- Fills that an order has room for. -/
def Fits (order : OrderRow) (filled filledQuote : Decimal) : Prop :=
  if order.orderType = .market ∧ order.side = .buy then filledQuote ≤ order.quoteAmount
  else filled ≤ order.amount

theorem applyTradeFill_iff {quantity quote : Decimal} {r : Decimal × Decimal × OrderStatus} :
    applyTradeFill o quantity quote = .ok r ↔ 0 < quantity ∧ 0 < quote ∧
      Fits o (o.filledAmount + quantity) (o.filledQuoteAmount + quote) ∧
      r = (o.filledAmount + quantity, o.filledQuoteAmount + quote,
        fillStatus o (o.filledAmount + quantity) (o.filledQuoteAmount + quote)) := by
  unfold applyTradeFill Fits fillStatus
  simp only [guard_eq_ok, not_not]
  by_cases hm : o.orderType = .market ∧ o.side = .buy
  · simp only [if_pos hm, guard_eq_ok, not_lt]
    split <;> simp [eq_comm]
  · simp only [if_neg hm, guard_eq_ok, not_lt]
    split <;> simp [eq_comm]

/-- The trades in which an order takes part. -/
def naming (trades : List TradeRow) (orderID : Nat) : List TradeRow :=
  trades.filter fun t => t.buyOrderID = orderID ∨ t.sellOrderID = orderID

@[simp] theorem naming_nil (orderID : Nat) : naming [] orderID = [] := rfl

theorem naming_cons (trade : TradeRow) (trades : List TradeRow) (orderID : Nat) :
    naming (trade :: trades) orderID =
      if trade.buyOrderID = orderID ∨ trade.sellOrderID = orderID then
        trade :: naming trades orderID
      else naming trades orderID := by
  simp only [naming, List.filter_cons, decide_eq_true_iff]

/-- An order after trades. -/
def executed (trades : List TradeRow) (order : OrderRow) : OrderRow :=
  let filled := order.filledAmount + ((naming trades order.id).map fun t => t.quantity).sum
  let filledQuote := order.filledQuoteAmount + ((naming trades order.id).map tradeQuoteAmount).sum
  if naming trades order.id = [] then order
  else setExecution filled filledQuote (fillStatus order filled filledQuote) order

theorem executed_sameTerms (trades : List TradeRow) (o : OrderRow) :
    SameTerms o (executed trades o) := by
  unfold executed
  split
  · exact .refl o
  · exact (SameTerms.refl o).set _ _ _

@[simp] theorem id_executed (trades : List TradeRow) (o : OrderRow) :
    (executed trades o).id = o.id :=
  (executed_sameTerms trades o).eq_fields.1

theorem executed_of_not_named (h : naming xs o.id = []) : executed xs o = o := if_pos h

theorem executed_append (xs ys : List TradeRow) (o : OrderRow) :
    executed ys (executed xs o) = executed (xs ++ ys) o := by
  have happ : naming (xs ++ ys) o.id = naming xs o.id ++ naming ys o.id := List.filter_append ..
  by_cases hy : naming ys o.id = []
  · rw [executed_of_not_named (by rwa [id_executed])]
    unfold executed
    rw [happ, hy, List.append_nil]
  · by_cases hx : naming xs o.id = []
    · rw [executed_of_not_named hx]
      unfold executed
      rw [happ, hx, List.nil_append]
    · unfold executed
      rw [happ, if_neg hx]
      simp only [setExecution, if_neg hy, List.append_eq_nil_iff, hx, false_and, if_false,
        List.map_append, List.sum_append, add_assoc]
      rfl

theorem executed_perm (h : xs.Perm ys) (o : OrderRow) : executed xs o = executed ys o := by
  have hmine : (naming xs o.id).Perm (naming ys o.id) := h.filter _
  have hnil : naming xs o.id = [] ↔ naming ys o.id = [] := by
    rw [← List.length_eq_zero_iff, hmine.length_eq, List.length_eq_zero_iff]
  unfold executed
  simp only [(hmine.map _).sum_eq, hnil]

theorem find?_executed (xs : List TradeRow) (orders : List OrderRow) (id : Nat) :
    (orders.map (executed xs)).find? (·.id = id) = (orders.find? (·.id = id)).map (executed xs) :=
  find?_map_of_key (id_executed xs) orders id

theorem ids_executed (xs : List TradeRow) (orders : List OrderRow) :
    (orders.map (executed xs)).map OrderRow.id = orders.map OrderRow.id := by
  rw [List.map_map]
  exact List.map_congr_left fun o _ => id_executed xs o

theorem executed_singleton (h : o.id = trade.buyOrderID ∨ o.id = trade.sellOrderID) :
    executed [trade] o =
      setExecution (o.filledAmount + trade.quantity) (o.filledQuoteAmount + tradeQuoteAmount trade)
        (fillStatus o (o.filledAmount + trade.quantity)
          (o.filledQuoteAmount + tradeQuoteAmount trade)) o := by
  have hmine : naming [trade] o.id = [trade] := by
    rw [naming_cons, if_pos (h.imp Eq.symm Eq.symm), naming_nil]
  unfold executed
  simp only [hmine, List.map_cons, List.map_nil, List.sum_cons, List.sum_nil, add_zero,
    List.cons_ne_nil, if_false]

theorem validateOrderStatusForSettlement_iff {role : String} :
    validateOrderStatusForSettlement o role = .ok () ↔
    isCancellableOrderStatus o.status = true := by
  unfold validateOrderStatusForSettlement
  cases o.status <;> simp [isCancellableOrderStatus]

/-- What a fill asks of an order. -/
structure Fillable (order : OrderRow) (trade : TradeRow) : Prop where
  isOpen : isCancellableOrderStatus order.status = true
  fits : Fits order (order.filledAmount + trade.quantity)
    (order.filledQuoteAmount + tradeQuoteAmount trade)

/-- Filling both orders of a trade is what the trade does to each. -/
theorem fillBoth_iff {fills : OrderRow × OrderRow} (hb : buyOrder.id = trade.buyOrderID)
    (hc : sellOrder.id = trade.sellOrderID) : fillBoth buyOrder sellOrder trade = .ok fills ↔
      0 < trade.quantity ∧ 0 < tradeQuoteAmount trade ∧ Fillable buyOrder trade ∧
      Fillable sellOrder trade ∧
      fills = (executed [trade] buyOrder, executed [trade] sellOrder) := by
  rw [executed_singleton (.inl hb), executed_singleton (.inr hc)]
  constructor
  · intro h
    obtain ⟨_, hopen, h⟩ := bind_eq_ok.mp h
    obtain ⟨_, hopen', h⟩ := bind_eq_ok.mp h
    obtain ⟨_, hfill, h⟩ := bind_eq_ok.mp h
    obtain ⟨_, hfill', h⟩ := bind_eq_ok.mp h
    obtain ⟨hq, hv, hfits, rfl⟩ := applyTradeFill_iff.mp hfill
    obtain ⟨-, -, hfits', rfl⟩ := applyTradeFill_iff.mp hfill'
    exact ⟨hq, hv, ⟨validateOrderStatusForSettlement_iff.mp hopen, hfits⟩,
      ⟨validateOrderStatusForSettlement_iff.mp hopen', hfits'⟩, (Except.ok.inj h).symm⟩
  · rintro ⟨hq, hv, hbuy, hsell, rfl⟩
    exact bind_eq_ok.mpr ⟨(), validateOrderStatusForSettlement_iff.mpr hbuy.isOpen,
      bind_eq_ok.mpr ⟨(), validateOrderStatusForSettlement_iff.mpr hsell.isOpen,
      bind_eq_ok.mpr ⟨_, applyTradeFill_iff.mpr ⟨hq, hv, hbuy.fits, rfl⟩,
      bind_eq_ok.mpr ⟨_, applyTradeFill_iff.mpr ⟨hq, hv, hsell.fits, rfl⟩, rfl⟩⟩⟩⟩

/-- Writing the fills of both orders is what the trade does to the table. -/
theorem writeFill_executed {orders : List OrderRow} (hn : (orders.map OrderRow.id).Nodup)
    (hne : buyOrder.id ≠ sellOrder.id)
    (hb : buyOrder ∈ orders) (hc : sellOrder ∈ orders) (hbid : buyOrder.id = trade.buyOrderID)
    (hcid : sellOrder.id = trade.sellOrderID) :
    writeFill (executed [trade] sellOrder) (writeFill (executed [trade] buyOrder) orders) =
      orders.map (executed [trade]) := by
  unfold writeFill Rows.modify
  rw [List.map_map]
  apply List.map_congr_left
  intro o ho
  simp only [Function.comp_apply, id_executed]
  by_cases hob : o.id = buyOrder.id
  · obtain rfl : o = buyOrder := List.inj_on_of_nodup_map hn ho hb hob
    rw [if_pos rfl, if_neg (by exact hne), executed_singleton (.inl hbid)]
    rfl
  · rw [if_neg hob]
    by_cases hoc : o.id = sellOrder.id
    · obtain rfl : o = sellOrder := List.inj_on_of_nodup_map hn ho hc hoc
      rw [if_pos rfl, executed_singleton (.inr hcid)]
      rfl
    · rw [if_neg hoc, executed_of_not_named]
      rw [naming_cons, if_neg, naming_nil]
      rw [← hbid, ← hcid]
      exact not_or.mpr ⟨Ne.symm hob, Ne.symm hoc⟩

/-- A settlement that succeeds, before the ledger's part: the plan is made for its two orders, and
both are filled. -/
structure Filling (s s' : Store) (trade : TradeRow) (buyOrder sellOrder : OrderRow)
    (plan : TradePlan) : Prop where
  row : plan.trade = { trade with id := s.tradeSeq + 1 }
  buy : s.orders.find? (·.id = plan.trade.buyOrderID) = some buyOrder
  sell : s.orders.find? (·.id = plan.trade.sellOrderID) = some sellOrder
  terms : Terms buyOrder sellOrder plan
  positive : 0 < plan.trade.quantity ∧ 0 < tradeQuoteAmount plan.trade
  buyFill : Fillable buyOrder plan.trade
  sellFill : Fillable sellOrder plan.trade
  booked : bookTrade { s with
    tradeSeq := plan.trade.id, trades := s.trades ++ [plan.trade]
    orders := s.orders.map (executed [plan.trade]) } plan = .ok s'

theorem settleNewTrade_filling (hn : (s.orders.map OrderRow.id).Nodup)
    (h : settleNewTrade s trade = .ok s') :
    ∃ buyOrder sellOrder plan, Filling s s' trade buyOrder sellOrder plan := by
  obtain ⟨hevent, b, c, plan, hb, hc, hterms, hplan⟩ := settleNewTrade_terms h
  rw [settleNewTrade_eq hplan hevent hb hc hterms] at h
  obtain ⟨fills, hfills, hbook⟩ := bind_eq_ok.mp h
  have hb' : s.orders.find? (·.id = plan.trade.buyOrderID) = some b := by rw [hplan]; exact hb
  have hc' : s.orders.find? (·.id = plan.trade.sellOrderID) = some c := by rw [hplan]; exact hc
  obtain ⟨hbmem, hbid⟩ := of_find? hb'
  obtain ⟨hcmem, hcid⟩ := of_find? hc'
  have hne : b.id ≠ c.id := hterms.ne hn hbmem hcmem
  obtain ⟨hq, hv, hfb, hfc, rfl⟩ := (fillBoth_iff hbid hcid).mp hfills
  refine ⟨b, c, plan, hplan, hb', hc', hterms, ⟨hq, hv⟩, hfb, hfc, ?_⟩
  rw [← writeFill_executed hn hne hbmem hcmem hbid hcid]
  exact hbook

/-- Only the two orders are filled. -/
theorem Filling.row_cases {plan : TradePlan} (h : Filling s s' trade buyOrder sellOrder plan)
    (hn : (s.orders.map OrderRow.id).Nodup) (ho : o ∈ s.orders) :
    o = buyOrder ∧ o.id = plan.trade.buyOrderID ∨ o = sellOrder ∧ o.id = plan.trade.sellOrderID ∨
      (o.id ≠ plan.trade.buyOrderID ∧ o.id ≠ plan.trade.sellOrderID) ∧
      executed [plan.trade] o = o := by
  obtain ⟨hb, hbid⟩ := of_find? h.buy
  obtain ⟨hc, hcid⟩ := of_find? h.sell
  by_cases hob : o.id = plan.trade.buyOrderID
  · exact .inl ⟨List.inj_on_of_nodup_map hn ho hb (hob.trans hbid.symm), hob⟩
  · by_cases hoc : o.id = plan.trade.sellOrderID
    · exact .inr (.inl ⟨List.inj_on_of_nodup_map hn ho hc (hoc.trans hcid.symm), hoc⟩)
    · refine .inr (.inr ⟨⟨hob, hoc⟩, executed_of_not_named ?_⟩)
      rw [naming_cons, if_neg (not_or.mpr ⟨Ne.symm hob, Ne.symm hoc⟩), naming_nil]

/-! ## The whole effect -/

/-- The postings of a trade between the orders of a table. -/
def postingsIn (orders : List OrderRow) (trade : TradeRow) : List PostingInput :=
  match orders.find? (·.id = trade.buyOrderID), orders.find? (·.id = trade.sellOrderID) with
  | some buyOrder, some sellOrder =>
    match planTradeSettlement trade buyOrder buyOrder.userID sellOrder.userID with
    | .ok (postings, _) => postings
    | .error _ => []
  | _, _ => []

/-- What a trade moves on an account. -/
def movedBy (orders : List OrderRow) (key : AccountKey) (trade : TradeRow) : Decimal :=
  sumAt PostingInput.key PostingInput.amount (postingsIn orders trade) key

theorem postingsIn_eq {orders : List OrderRow}
    (hb : orders.find? (·.id = plan.trade.buyOrderID) = some buyOrder)
    (hc : orders.find? (·.id = plan.trade.sellOrderID) = some sellOrder)
    (h : Terms buyOrder sellOrder plan) : postingsIn orders plan.trade = plan.postings := by
  simp only [postingsIn, hb, hc, ← h.parties.1, ← h.parties.2, h.postings]

theorem postingsIn_executed (xs : List TradeRow) (orders : List OrderRow) (trade : TradeRow) :
    postingsIn (orders.map (executed xs)) trade = postingsIn orders trade := by
  unfold postingsIn
  rw [find?_executed, find?_executed]
  cases orders.find? (·.id = trade.buyOrderID) with
  | none => rfl
  | some b =>
    cases orders.find? (·.id = trade.sellOrderID) with
    | none => rfl
    | some c =>
      obtain ⟨-, huser, -, -, htype, hprice⟩ := (executed_sameTerms xs b).eq_fields
      obtain ⟨-, huser', -, -, -, -⟩ := (executed_sameTerms xs c).eq_fields
      simp only [Option.map_some, planTradeSettlement, reservedBuyDebitAmount, huser, huser',
        htype, hprice]

/-- The tables after the trades of `rows` were settled, each of them once. -/
structure Effect (s s' : Store) (rows : List TradeRow) : Prop where
  provisioned : Provisioned s'.ledger
  orders : s'.orders = s.orders.map (executed rows)
  trades : s'.trades = s.trades ++ rows
  balances : ∀ k, balanceOf s'.ledger k = balanceOf s.ledger k + (rows.map (movedBy s.orders k)).sum
  journals : s'.ledger.journals.map JournalEntry.idempotencyKey =
    s.ledger.journals.map JournalEntry.idempotencyKey ++ rows.map fun t =>
      (JournalKey.trade t.idempotencyKey).text

theorem Effect.refl (h : Provisioned s.ledger) : Effect s s [] where
  provisioned := h
  orders := by
    have hid : executed [] = id := funext fun o => executed_of_not_named rfl
    rw [hid, List.map_id]
  trades := by simp
  balances := by simp
  journals := by simp

theorem Effect.trans (h : Effect s s' xs) (h' : Effect s' s'' ys) : Effect s s'' (xs ++ ys) where
  provisioned := h'.provisioned
  orders := by
    rw [h'.orders, h.orders, List.map_map]
    exact List.map_congr_left fun o _ => executed_append xs ys o
  trades := by rw [h'.trades, h.trades, List.append_assoc]
  balances := fun k => by
    have hmoved : movedBy s'.orders k = movedBy s.orders k := funext fun t => by
      simp only [movedBy, h.orders, postingsIn_executed]
    rw [h'.balances, h.balances, hmoved, List.map_append, List.sum_append, add_assoc]
  journals := by rw [h'.journals, h.journals, List.map_append, List.append_assoc]

theorem Effect.congr (h : Effect s s' xs) (hl : Provisioned s''.ledger)
    (horders : s''.orders = s'.orders)
    (htrades : s''.trades = s'.trades)
    (hbalance : ∀ k, balanceOf s''.ledger k = balanceOf s'.ledger k)
    (hjournals : s''.ledger.journals = s'.ledger.journals) : Effect s s'' xs :=
  ⟨hl, horders.trans h.orders, htrades.trans h.trades, fun k => (hbalance k).trans (h.balances k),
    hjournals ▸ h.journals⟩

/-- The ledger's part records one journal. -/
theorem bookTrade_record (h : bookTrade s plan = .ok s') :
    s' = { s with ledger := s'.ledger, stats := s'.stats } ∧
    ∃ entry created, record s.ledger ⟨.trade, (JournalKey.trade plan.trade.idempotencyKey).text,
      .trade, plan.trade.id, none, plan.postings⟩ = .ok (s'.ledger, entry, created) := by
  obtain ⟨a, ha, hrest⟩ := bind_eq_ok.mp h
  obtain ⟨b, hb, hend⟩ := bind_eq_ok.mp hrest
  obtain ⟨⟨t', entry, created⟩, hrec, ha⟩ := bind_eq_ok.mp ha
  cases ha
  obtain ⟨stats, rfl⟩ := applyAvgBuyPrice_ok hb
  cases hend
  obtain ⟨stats', hstats⟩ :=
    clearAvgBuyPrice_eq { s with ledger := t', stats := stats } plan.seller plan.trade.coinSymbol
  rw [hstats]
  exact ⟨rfl, entry, created, hrec⟩

/-- A settlement of a new trade has the effect of the trade. -/
theorem settleNewTrade_effect (hp : Provisioned s.ledger) (hn : (s.orders.map OrderRow.id).Nodup)
    (hkey : (JournalKey.trade trade.idempotencyKey).text ∉
      s.ledger.journals.map JournalEntry.idempotencyKey)
    (h : settleNewTrade s trade = .ok s') : Effect s s' [{ trade with id := s.tradeSeq + 1 }] := by
  obtain ⟨b, c, plan, hf⟩ := settleNewTrade_filling hn h
  rw [← hf.row]
  rw [← congrArg TradeRow.idempotencyKey hf.row] at hkey
  obtain ⟨hs', entry, created, hrec⟩ := bookTrade_record hf.booked
  have hwrote := (record_new hp hkey hrec).2.1
  refine ⟨hwrote.provisioned, by rw [hs'], by rw [hs'], ?_, ?_⟩
  · intro k
    have hpost : postingsIn s.orders plan.trade = plan.postings :=
      postingsIn_eq hf.buy hf.sell hf.terms
    simp only [List.map_cons, List.map_nil, List.sum_cons, List.sum_nil, add_zero, movedBy, hpost]
    exact hwrote.balance k
  · rw [hwrote.journals, List.map_append]
    rfl

/-! ## The trades of the engine -/

/-- A trade of the engine as settlement may be handed it: it may have been prepared before. -/
structure Delivered (row : TradeRow) : Prop where
  key : row.idempotencyKey = "" ∨ row.idempotencyKey = engineKey row.eventID
  fees : row.feeRate = 0 ∨ row = withDefaultFees row

theorem Delivered.ofTrade (trade : Trade) : Delivered (.ofTrade trade) := ⟨.inl rfl, .inl rfl⟩

/-- The row of a trade, but for the id. -/
def settledRow (trade : Trade) (id : Nat) : TradeRow :=
  withDefaultFees { TradeRow.ofTrade trade with
    id := id, idempotencyKey := engineKey trade.eventID }

theorem Delivered.settlementKey_eq (h : Delivered trade) :
    settlementKey trade = engineKey trade.eventID := by
  unfold settlementKey
  split
  · rfl
  · exact h.key.resolve_left ‹_›

/-- However a trade of the engine is delivered, its row is the same. -/
theorem Delivered.prepare_iff (h : Delivered trade) {x : TradeRow} :
    prepareTrade trade = .ok x ↔ WellFormed trade.toTrade ∧
    x = settledRow trade.toTrade trade.id := by
  have hrow : ∀ y : TradeRow, WellFormed trade.toTrade →
      y = { trade with idempotencyKey := settlementKey trade } →
      applyTradeFeePolicy y = .ok (settledRow trade.toTrade trade.id) := by
    rintro y hw rfl
    rw [h.settlementKey_eq]
    rcases h.fees with hrate | hfees
    · exact applyTradeFeePolicy_of_new hw.price hw.quantity hrate
    · have hpos : 0 < trade.feeRate := by
        rw [hfees]
        exact defaultTradingFeeRate_bounds.1
      unfold applyTradeFeePolicy
      rw [if_neg (by simp [hw.price, hw.quantity]), if_pos hpos, hfees]
      rfl
  unfold prepareTrade
  rw [bind_eq_ok]
  constructor
  · rintro ⟨y, hy, hx⟩
    obtain ⟨hw, hy⟩ := prepareTradeForSettlement_iff.mp hy
    exact ⟨hw, Except.ok.inj (hx.symm.trans (hrow y hw hy))⟩
  · rintro ⟨hw, rfl⟩
    exact ⟨_, prepareTradeForSettlement_iff.mpr ⟨hw, rfl⟩, hrow _ hw rfl⟩

end GoExchange.Service
