import GoExchange.JournalKeys
import GoExchange.Ledger
import GoExchange.OrderRequest
import GoExchange.Rows

/-!
# Holds and settlement

`order_ledger.go`, `settlement_service.go` and the transactions of
`order_service.go` that hold, settle and release, over the tables they write.
An operation that fails leaves the tables as they were.
-/
namespace GoExchange.Service

open Ledger Rows Tally Fallible

/-- A row of `user_asset_stats`. -/
structure AssetStat where
  userID : Nat
  asset : String
  avgBuyPrice : Decimal
  deriving DecidableEq, Repr

/-- The tables of orders and trades next to the ledger's, with the last values of their sequences.
-/
structure Store where
  ledger : Tables
  orders : List OrderRow
  trades : List TradeRow
  stats : List AssetStat
  orderSeq : Nat
  tradeSeq : Nat
  deriving DecidableEq, Repr

variable (s : Store)

/-! ## Repositories -/

def findByIDForUpdate (orderID : Nat) : Except DomainError OrderRow :=
  match s.orders.find? (·.id = orderID) with
  | some order => .ok order
  | none => .error ⟨.other, "record not found"⟩

theorem findByIDForUpdate_ok {s : Store} {id : Nat} {o : OrderRow}
    (h : findByIDForUpdate s id = .ok o) : o ∈ s.orders ∧ o.id = id := by
  unfold findByIDForUpdate at h
  split at h
  · rename_i x hx
    cases h
    exact of_find? hx
  · cases h

def setExecution (filled filledQuote : Decimal) (status : OrderStatus) (order : OrderRow) :
    OrderRow :=
  { order with status := status, filledAmount := filled, filledQuoteAmount := filledQuote }

theorem ids_setExecution (id : Nat) (f q : Decimal) (st : OrderStatus) (orders : List OrderRow) :
    (modify OrderRow.id id (setExecution f q st) orders).map OrderRow.id = orders.map OrderRow.id :=
  map_modify OrderRow.id fun _ _ _ => rfl

def updateOrderExecution (orderID : Nat) (filled filledQuote : Decimal) (status : OrderStatus) :
    Except DomainError Store :=
  if orderID ∉ s.orders.map OrderRow.id then .error ⟨.other, "order fill update affected no rows"⟩
  else .ok { s with
    orders := modify OrderRow.id orderID (setExecution filled filledQuote status) s.orders }

theorem updateOrderExecution_ok {s s' : Store} {id : Nat} {f q : Decimal} {st : OrderStatus}
    (h : updateOrderExecution s id f q st = .ok s') :
    s' = { s with orders := modify OrderRow.id id (setExecution f q st) s.orders } := by
  unfold updateOrderExecution at h
  obtain ⟨-, h⟩ := guard_eq_ok.mp h
  cases h
  rfl

def sumBuyerFeesByBuyOrderID (trades : List TradeRow) (orderID : Nat) : Decimal :=
  sumAt (fun t => t.buyOrderID) TradeRow.buyerFee trades orderID

/-- `Record` within the caller's transaction. -/
def recordJournal (key : JournalKey) (eventType : JournalEventType)
    (referenceType : JournalReferenceType)
    (referenceID : Nat) (postings : List PostingInput) : Except DomainError Store := do
  let (ledger, _) ← record s.ledger ⟨eventType, key.text, referenceType, referenceID,
    none, postings⟩
  return { s with ledger := ledger }

/-! ## Holds -/

def orderHoldAsset (order : OrderRow) : String :=
  if order.side = .buy then krwAssetSymbol else order.coinSymbol

def orderHoldPostings (order : OrderRow) (amount : Decimal) : List PostingInput :=
  [⟨.userAvailable, some order.userID, orderHoldAsset order, -amount⟩,
    ⟨.userLocked, some order.userID, orderHoldAsset order, amount⟩]

def orderReleasePostings (order : OrderRow) (amount : Decimal) : List PostingInput :=
  [⟨.userLocked, some order.userID, orderHoldAsset order, -amount⟩,
    ⟨.userAvailable, some order.userID, orderHoldAsset order, amount⟩]

def insufficientBalanceError (side : OrderSide) : DomainError :=
  if side = .buy then ⟨.conflict, "insufficient available KRW balance"⟩
  else ⟨.conflict, "insufficient available coin balance"⟩

/-- A conflict of the ledger becomes the order path's message. -/
def asInsufficientBalance {α : Type} (side : OrderSide) :
    Except DomainError α → Except DomainError α
  | .error e => .error (if e.kind = .conflict then insufficientBalanceError side else e)
  | .ok a => .ok a

theorem asInsufficientBalance_ok {α : Type} {side : OrderSide} {x : Except DomainError α} {a : α}
    (h : asInsufficientBalance side x = .ok a) : x = .ok a := by
  cases x with
  | error e => cases h
  | ok y => exact h

def holdOrderAssets (order : OrderRow) : Except DomainError Store :=
  if order.side ≠ .buy ∧ order.side ≠ .sell then .error ⟨.validation, "invalid order side"⟩
  else if ¬ 0 < holdAmountFor order then
    .error ⟨.validation, "hold amount must be greater than zero"⟩
  else asInsufficientBalance order.side
    (recordJournal s (.orderHold order.id) .orderHold .order order.id
    (orderHoldPostings order (holdAmountFor order)))

def releaseOrderAssets (order : OrderRow) (amount : Decimal) (reason : ReleaseReason) :
    Except DomainError Store :=
  if order.side ≠ .buy ∧ order.side ≠ .sell then .error ⟨.validation, "invalid order side"⟩
  else if ¬ 0 < amount then .error ⟨.validation, "release amount must be greater than zero"⟩
  else recordJournal s (.orderRelease order.id reason) .orderRelease .order order.id
    (orderReleasePostings order amount)

/-! ## Settlement of a trade -/

def isCancellableOrderStatus (status : OrderStatus) : Bool :=
  status == .pending || status == .partiallyFilled

def validateOrderStatusForSettlement (order : OrderRow) (role : String) : Except DomainError Unit :=
  match order.status with
  | .pending | .partiallyFilled => .ok ()
  | .cancelled =>
    .error ⟨.other, s!"{role} order {order.id} status {order.status.text} cannot be settled"⟩
  | .filled =>
    .error ⟨.other,
      s!"{role} order {order.id} status {order.status.text} cannot receive additional settlement"⟩
  | _ => .error ⟨.other, s!"{role} order {order.id} has unknown status {order.status.text}"⟩

/-- The order's fill after a trade: filled amount, filled quote amount and status. -/
def applyTradeFill (order : OrderRow) (quantity quote : Decimal) :
    Except DomainError (Decimal × Decimal × OrderStatus) :=
  let filled := order.filledAmount + quantity
  let filledQuote := order.filledQuoteAmount + quote
  if ¬ 0 < quantity then .error ⟨.other, "trade quantity must be greater than zero"⟩
  else if ¬ 0 < quote then .error ⟨.other, "trade quote amount must be greater than zero"⟩
  else if order.orderType = .market ∧ order.side = .buy then
    if order.quoteAmount < filledQuote then
      .error ⟨.other,
        s!"order {order.id} filled quote amount {filledQuote.string} exceeds quote amount {order.quoteAmount.string}"⟩
    else if filledQuote = order.quoteAmount then .ok (filled, filledQuote, .filled)
    else .ok (filled, filledQuote, .partiallyFilled)
  else if order.amount < filled then
    .error ⟨.other,
      s!"order {order.id} filled amount {filled.string} exceeds order amount {order.amount.string}"⟩
  else if filled = order.amount then .ok (filled, filledQuote, .filled)
  else .ok (filled, filledQuote, .partiallyFilled)

def settlementParticipants (buyOrder sellOrder : OrderRow) : Except DomainError (Nat × Nat) :=
  if buyOrder.userID = 0 ∨ sellOrder.userID = 0 then
    .error ⟨.other, "settlement participants must have user IDs"⟩
  else if buyOrder.userID = sellOrder.userID then
    .error ⟨.other, s!"self-trade settlement is not allowed for user {buyOrder.userID}"⟩
  else .ok (buyOrder.userID, sellOrder.userID)

def reservedBuyDebitAmount (buyOrder : OrderRow) (trade : TradeRow) : Decimal :=
  if buyOrder.orderType = .market then quoteAmountWithTradingFee (tradeQuoteAmount trade)
  else quoteAmountWithTradingFee (buyOrder.price * trade.quantity)

/-- Lines of zero are left out. -/
def tradePostings (trade : TradeRow) (buyer seller : Nat)
    (reservedDebit executionDebit sellerQuoteNet : Decimal) : List PostingInput :=
  let fees := trade.buyerFee + trade.sellerFee
  let refund := reservedDebit - executionDebit
  [⟨.userLocked, some buyer, krwAssetSymbol, -reservedDebit⟩,
    ⟨.userAvailable, some seller, krwAssetSymbol, sellerQuoteNet⟩,
    ⟨.userLocked, some seller, trade.coinSymbol, -trade.quantity⟩,
    ⟨.userAvailable, some buyer, trade.coinSymbol, trade.quantity⟩] ++
  (if 0 < refund then [⟨.userAvailable, some buyer, krwAssetSymbol, refund⟩] else []) ++
  (if 0 < fees then [⟨.feeIncome, none, krwAssetSymbol, fees⟩] else [])

/-- The postings of a trade and the buyer's cost. -/
def planTradeSettlement (trade : TradeRow) (buyOrder : OrderRow) (buyer seller : Nat) :
    Except DomainError (List PostingInput × Decimal) := do
  let executionQuote := tradeQuoteAmount trade
  let executionDebit := executionQuote + trade.buyerFee
  let sellerQuoteNet ← amountAfterFee executionQuote trade.sellerFee "seller"
  return (tradePostings trade buyer seller (reservedBuyDebitAmount buyOrder trade) executionDebit
    sellerQuoteNet, executionDebit)

/-- What a user owns of an asset, available or locked. -/
def userTotal (ledger : Tables) (userID : Nat) (asset : String) : Decimal :=
  balanceOf ledger ⟨.userAvailable, userID, asset⟩ + balanceOf ledger ⟨.userLocked, userID, asset⟩

def applyAvgBuyPrice (userID : Nat) (asset : String) (quantity acquisitionCost : Decimal) :
    Except DomainError Store :=
  let total := userTotal s.ledger userID asset
  let mine := fun (r : AssetStat) => (r.userID, r.asset) = (userID, asset)
  let previousAvg := (s.stats.find? mine).elim 0 AssetStat.avgBuyPrice
  let newAvg := Decimal.div (previousAvg * (total - quantity) + acquisitionCost) total
  if ¬ 0 < quantity then .error ⟨.validation, "quantity must be greater than zero"⟩
  else if ¬ 0 < total then
    .error ⟨.other, s!"avg buy price needs a positive quantity, got {total.string}"⟩
  else if newAvg < 0 then .error (refused "user_asset_stats_avg_buy_price_check")
  else if s.stats.any mine then
    .ok { s with stats := s.stats.map fun r => if mine r then { r with
      avgBuyPrice := newAvg } else r }
  else .ok { s with stats := s.stats ++ [⟨userID, asset, newAvg⟩] }

def clearAvgBuyPriceIfEmpty (userID : Nat) (asset : String) : Store :=
  if 0 < userTotal s.ledger userID asset then s
  else { s with stats := s.stats.map fun r =>
    if (r.userID, r.asset) = (userID, asset) then { r with avgBuyPrice := 0 } else r }

theorem applyAvgBuyPrice_ok {s s' : Store} {userID : Nat} {asset : String} {x c : Decimal}
    (h : applyAvgBuyPrice s userID asset x c = .ok s') :
    ∃ stats, s' = { s with stats := stats } := by
  unfold applyAvgBuyPrice at h
  obtain ⟨-, h⟩ := guard_eq_ok.mp h
  obtain ⟨-, h⟩ := guard_eq_ok.mp h
  obtain ⟨-, h⟩ := guard_eq_ok.mp h
  split at h <;> cases h <;> exact ⟨_, rfl⟩

theorem clearAvgBuyPrice_eq (s : Store) (userID : Nat) (asset : String) :
    ∃ stats, clearAvgBuyPriceIfEmpty s userID asset = { s with stats := stats } := by
  unfold clearAvgBuyPriceIfEmpty
  split
  · exact ⟨s.stats, rfl⟩
  · exact ⟨_, rfl⟩

/-- The key of an engine's trade. -/
def engineKey (id : EventID) : String := s!"engine:{id.engineID}-{id.sequence}"

/-- A trade of the engine gets its key from the event id; a retried one has its key. -/
def settlementKey (trade : TradeRow) : String :=
  if trade.idempotencyKey = "" then engineKey trade.eventID else trade.idempotencyKey

/-- The checks of `prepareTradeForSettlement` and of `failedSettlementFromTrade`. -/
def validateTrade (trade : Trade) : Except DomainError Unit :=
  if trade.coinSymbol = "" then .error ⟨.other, "trade coin symbol is required"⟩
  else if trade.buyOrderID = 0 ∨ trade.sellOrderID = 0 then
    .error ⟨.other, "trade buy_order_id and sell_order_id are required"⟩
  else if ¬ 0 < trade.price ∨ ¬ 0 < trade.quantity then
    .error ⟨.other, "trade price and quantity must be greater than zero"⟩
  else .ok ()

def prepareTradeForSettlement (trade : TradeRow) : Except DomainError TradeRow := do
  validateTrade trade.toTrade
  return { trade with idempotencyKey := settlementKey trade }

/-- All but the id of the two rows must agree. -/
def validateIdempotentTradePayload (existing incoming : TradeRow) : Except DomainError Unit :=
  if existing ≠ { incoming with id := existing.id } then
    .error ⟨.other,
      s!"idempotency key conflict for {incoming.idempotencyKey.quote}: existing trade payload differs"⟩
  else .ok ()

def insertTrade (trade : TradeRow) : Except DomainError Store :=
  if trade.eventID ∈ s.trades.map (fun t => t.eventID) then
    .error (refused "idx_trades_engine_event_id")
  else .ok { s with tradeSeq := trade.id, trades := s.trades ++ [trade] }

/-- The transaction of `SettleTrade` for a trade whose row is new. -/
def settleNewTrade (trade : TradeRow) : Except DomainError Store := do
  let trade := { trade with id := s.tradeSeq + 1 }
  let s ← insertTrade s trade
  let buyOrder ← findByIDForUpdate s trade.buyOrderID
  let sellOrder ← findByIDForUpdate s trade.sellOrderID
  if buyOrder.side ≠ .buy then .error ⟨.other, s!"buy order {buyOrder.id} has invalid side"⟩
  else if sellOrder.side ≠ .sell then
    .error ⟨.other, s!"sell order {sellOrder.id} has invalid side"⟩
  else if buyOrder.coinSymbol ≠ trade.coinSymbol ∨ sellOrder.coinSymbol ≠ trade.coinSymbol then
    .error ⟨.other, "trade coin symbol does not match both orders"⟩
  else
    validateOrderStatusForSettlement buyOrder "buy"
    validateOrderStatusForSettlement sellOrder "sell"
    let (buyer, seller) ← settlementParticipants buyOrder sellOrder
    let quote := tradeQuoteAmount trade
    let (buyFilled, buyFilledQuote, buyStatus) ← applyTradeFill buyOrder trade.quantity quote
    let (sellFilled, sellFilledQuote, sellStatus) ← applyTradeFill sellOrder trade.quantity quote
    let (postings, executionDebit) ← planTradeSettlement trade buyOrder buyer seller
    let s ← updateOrderExecution s buyOrder.id buyFilled buyFilledQuote buyStatus
    let s ← updateOrderExecution s sellOrder.id sellFilled sellFilledQuote sellStatus
    let s ← recordJournal s (.trade trade.idempotencyKey) .trade .trade trade.id postings
    let s ← applyAvgBuyPrice s buyer trade.coinSymbol trade.quantity executionDebit
    return clearAvgBuyPriceIfEmpty s seller trade.coinSymbol

/-- `SettleTrade`, without the mark on the outbox row. A trade already stored changes nothing. -/
def settleTrade (trade : TradeRow) : Except DomainError Store := do
  let trade ← prepareTradeForSettlement trade
  let trade ← applyTradeFeePolicy trade
  match s.trades.find? (·.idempotencyKey = trade.idempotencyKey) with
  | some existing =>
    validateIdempotentTradePayload existing trade
    return s
  | none => settleNewTrade s trade

/-- What settlement checks of a trade before it looks at the tables. -/
structure WellFormed (trade : Trade) : Prop where
  coin : trade.coinSymbol ≠ ""
  orders : trade.buyOrderID ≠ 0 ∧ trade.sellOrderID ≠ 0
  price : 0 < trade.price
  quantity : 0 < trade.quantity

theorem validateTrade_iff {trade : Trade} : validateTrade trade = .ok () ↔ WellFormed trade := by
  unfold validateTrade
  rw [guard_eq_ok, guard_eq_ok, guard_eq_ok, not_or, not_or, not_not, not_not]
  constructor
  · rintro ⟨hcoin, horders, ⟨hprice, hquantity⟩, -⟩
    exact ⟨hcoin, horders, hprice, hquantity⟩
  · intro h
    exact ⟨h.coin, h.orders, ⟨h.price, h.quantity⟩, rfl⟩

theorem prepareTradeForSettlement_iff {trade x : TradeRow} :
    prepareTradeForSettlement trade = .ok x ↔
    WellFormed trade.toTrade ∧ x = { trade with idempotencyKey := settlementKey trade } := by
  unfold prepareTradeForSettlement
  rw [bind_eq_ok, ← validateTrade_iff]
  constructor
  · rintro ⟨⟨⟩, hvalid, hx⟩
    exact ⟨hvalid, (Except.ok.inj hx).symm⟩
  · rintro ⟨hvalid, rfl⟩
    exact ⟨(), hvalid, rfl⟩

theorem applyTradeFeePolicy_keeps {trade trade' : TradeRow}
    (h : applyTradeFeePolicy trade = .ok trade') :
    trade'.idempotencyKey = trade.idempotencyKey ∧ trade'.id = trade.id ∧
    trade'.toTrade = trade.toTrade := by
  unfold applyTradeFeePolicy at h
  obtain ⟨-, h⟩ := guard_eq_ok.mp h
  split at h
  · cases h
    exact ⟨rfl, rfl, rfl⟩
  · obtain ⟨-, h⟩ := guard_eq_ok.mp h
    cases h
    exact ⟨rfl, rfl, rfl⟩

/-! ## Orders -/

/-- `persistAndHold`: the row and its hold in one transaction. -/
def persistAndHold (order : OrderRow) : Except DomainError (Store × OrderRow) := do
  let order := { order with id := s.orderSeq + 1 }
  let s := { s with orderSeq := order.id, orders := s.orders ++ [order] }
  let s ← holdOrderAssets s order
  return (s, order)

/-- `CreateOrder` up to the hold, under the market's rules. -/
def createHeldOrder (policy : OrderRow → Except DomainError Unit) (input : CreateOrderInput) :
    Except DomainError (Store × OrderRow) := do
  let order ← parseOrderRequest input
  policy order
  persistAndHold s order

/-- `FindOpenOrdersForBootstrap`, without its order. -/
def findOpenOrdersForBootstrap (orders : List OrderRow) : List OrderRow :=
  orders.filter fun o => isCancellableOrderStatus o.status ∧ o.orderType = .limit ∧
    o.filledAmount < o.amount

theorem open_of_bootstrap {orders : List OrderRow} {id : Nat}
    (h : id ∈ (findOpenOrdersForBootstrap orders).map OrderRow.id) :
    ∃ o ∈ orders, o.id = id ∧ isCancellableOrderStatus o.status = true := by
  obtain ⟨o, ho, rfl⟩ := List.mem_map.mp h
  obtain ⟨ho, hopen⟩ := List.mem_filter.mp ho
  exact ⟨o, ho, rfl, (of_decide_eq_true hopen).1⟩

/-- The compensation of `CreateOrder` when the engine did not take the order: it works on the row as
it was created. -/
def rejectAcceptedOrder (order : OrderRow) : Except DomainError Store := do
  let s ← releaseOrderAssets s order (holdAmountFor order) .rejected
  updateOrderExecution s order.id order.filledAmount order.filledQuoteAmount .rejected

def releaseOrderHold (order : OrderRow) (remaining : Decimal) : Except DomainError Store :=
  match order.side with
  | .buy => releaseOrderAssets s order (quoteAmountWithTradingFee (order.price * remaining)) .cancel
  | .sell => releaseOrderAssets s order remaining .cancel
  | .unknown => .error ⟨.validation, "invalid order side"⟩

def processOrderCancellation (orderID : Nat) : Except DomainError Store :=
  if orderID = 0 then .error ⟨.validation, "order_id is required"⟩
  else do
    let order ← findByIDForUpdate s orderID
    let remaining := order.amount - order.filledAmount
    if ¬ isCancellableOrderStatus order.status ∨ ¬ 0 < remaining then .ok s
    else
      let s ← releaseOrderHold s order remaining
      updateOrderExecution s order.id order.filledAmount order.filledQuoteAmount .cancelled

structure CompleteMarketOrderInput where
  orderID : Nat
  filledAmount : Decimal
  filledQuoteAmount : Decimal
  remainingQuoteAmount : Decimal
  deriving DecidableEq, Repr

/-- Release what a completed market order leaves of its hold, if anything. -/
def releaseRemain (order : OrderRow) (remaining : Decimal) : Except DomainError Store :=
  if 0 < remaining then releaseOrderAssets s order remaining .marketRemain else .ok s

def completeMarketBuyOrder (order : OrderRow) (input : CompleteMarketOrderInput) :
    Except DomainError Store := do
  let remaining ← remainingMarketBuyQuote order (sumBuyerFeesByBuyOrderID s.trades order.id)
  let s ← releaseRemain s order remaining
  let status := if 0 < input.remainingQuoteAmount then .cancelled else .filled
  updateOrderExecution s order.id order.filledAmount order.filledQuoteAmount status

def completeMarketSellOrder (order : OrderRow) : Except DomainError Store :=
  let remaining := order.amount - order.filledAmount
  if remaining < 0 then .error ⟨.conflict, "order filled amount exceeds order amount"⟩
  else do
    let s ← releaseRemain s order remaining
    let status := if order.filledAmount = order.amount then .filled else .cancelled
    updateOrderExecution s order.id order.filledAmount order.filledQuoteAmount status

/-- A rejected order is not kept out here. -/
def completeMarketOrder (input : CompleteMarketOrderInput) : Except DomainError Store :=
  if input.orderID = 0 then .error ⟨.validation, "order_id is required"⟩
  else do
    let order ← findByIDForUpdate s input.orderID
    if order.orderType ≠ .market then
      .error ⟨.validation, s!"order {order.id} is not a market order"⟩
    else if order.status = .filled ∨ order.status = .cancelled then .ok s
    else if order.filledAmount < input.filledAmount ∨
        order.filledQuoteAmount < input.filledQuoteAmount then
      .error ⟨.conflict, s!"market order {order.id} settlement is not complete"⟩
    else match order.side with
      | .buy => completeMarketBuyOrder s order input
      | .sell => completeMarketSellOrder s order
      | .unknown => .error ⟨.validation, "invalid order side"⟩

end GoExchange.Service
