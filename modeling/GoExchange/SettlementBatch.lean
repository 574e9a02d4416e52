import GoExchange.Settlement

/-!
# Settlement of committed trades, one by one and in batches

`SettleTrade` with the mark on the trade's outbox row, and
`settlement_batch.go`: many trades in one transaction, with the checks that
need no balances first, the accounts of all trades provisioned at once, and
the fills of an order kept in memory until they are written at the end.
-/
namespace GoExchange.Service

open Ledger Rows

inductive TradeOutboxStatus where
  | pending | processed
  deriving DecidableEq, Repr

/-- A row of `trade_outbox_events`; the payload is the event. -/
structure TradeOutboxEvent where
  id : Nat
  event : ExecutionEvent
  status : TradeOutboxStatus
  deriving DecidableEq, Repr

/-- The store and the outbox. -/
structure Database extends Store where
  outbox : List TradeOutboxEvent
  deriving DecidableEq, Repr

structure SettlementResult where
  applied : Bool
  duplicate : Bool
  tradeID : Nat
  deriving DecidableEq, Repr

def duplicateSettlementResult (trade : TradeRow) : SettlementResult := ⟨false, true, trade.id⟩

def setProcessed (row : TradeOutboxEvent) : TradeOutboxEvent := { row with status := .processed }

/-- No row is marked for the id 0, and it is not checked that there is one. -/
def markSettledOutbox (d : Database) (outboxEventID : Nat) : Database :=
  if outboxEventID = 0 then d
  else { d with outbox := modify TradeOutboxEvent.id outboxEventID setProcessed d.outbox }

/-- Settle a trade whose key is new. The row takes its id from the sequence, or the one that an
attempt rolled back before has left in the struct; the second component is that id. -/
def settleCreatedTrade (s : Store) (trade : TradeRow) : Except DomainError (Store × Nat) :=
  if trade.id = 0 then do
    let s' ← settleNewTrade s trade
    return (s', s.tradeSeq + 1)
  else if trade.id ∈ s.trades.map TradeRow.id then .error (refused "trades_pkey")
  else do
    let s' ← settleNewTrade { s with tradeSeq := trade.id - 1 } trade
    return ({ s' with tradeSeq := s.tradeSeq }, trade.id)

def Database.settleTrade (d : Database) (trade : TradeRow) (outboxEventID : Nat) :
    Except DomainError (Database × SettlementResult) := do
  let trade ← prepareTradeForSettlement trade
  let trade ← applyTradeFeePolicy trade
  match d.trades.find? (·.idempotencyKey = trade.idempotencyKey) with
  | some existing =>
    validateIdempotentTradePayload existing trade
    return (markSettledOutbox d outboxEventID, duplicateSettlementResult existing)
  | none =>
    let (s, id) ← settleCreatedTrade d.toStore trade
    return (markSettledOutbox { d with toStore := s } outboxEventID, ⟨true, false, id⟩)

/-! ## The batch -/

structure TradeBatchItem where
  trade : TradeRow
  outboxEventID : Nat
  deriving DecidableEq, Repr

/-- The first loop, which works on the caller's trades in place. -/
def prepareItems : List TradeBatchItem → List TradeBatchItem × Except DomainError Unit
  | [] => ([], .ok ())
  | item :: items =>
    match prepareTradeForSettlement item.trade with
    | .error e => (item :: items, .error e)
    | .ok trade =>
      match applyTradeFeePolicy trade with
      | .error e => ({ item with trade := trade } :: items, .error e)
      | .ok trade =>
        ({ item with trade := trade } :: (prepareItems items).1, (prepareItems items).2)

/-- One row of the insert, which is passed over if its key is taken. -/
def createTrade (r : Store × List TradeRow) (trade : TradeRow) :
    Except DomainError (Store × List TradeRow) :=
  let row := { trade with id := r.1.tradeSeq + 1 }
  if row.idempotencyKey ∈ r.1.trades.map TradeRow.idempotencyKey then
    .ok ({ r.1 with tradeSeq := row.id }, r.2)
  else do
    let s ← insertTrade r.1 row
    return (s, r.2 ++ [row])

def createTrades (s : Store) (trades : List TradeRow) :
    Except DomainError (Store × List TradeRow) := do
  let (s, rows) ← trades.foldlM createTrade (s, [])
  if rows.length ≠ trades.length then
    .error ⟨.other, s!"trade batch insert expected {trades.length} rows, inserted {rows.length}"⟩
  else return (s, rows)

/-- The orders of the trades, each once and in ascending order. -/
def orderIDs (trades : List TradeRow) : List Nat :=
  ((trades.flatMap fun t => [t.buyOrderID, t.sellOrderID]).dedup).insertionSort (· ≤ ·)

def lockByIDs (s : Store) (ids : List Nat) : Except DomainError (List OrderRow) :=
  let orders := (s.orders.filter fun o => o.id ∈ ids).insertionSort fun o o' => o.id ≤ o'.id
  if orders.length ≠ ids.length then
    .error ⟨.other, s!"order lock expected {ids.length} rows, locked {orders.length}"⟩
  else .ok orders

/-- `orderByID`. -/
def lockedOrder (orders : List OrderRow) (id : Nat) (role : String) : Except DomainError OrderRow :=
  match orders.find? (·.id = id) with
  | some order => .ok order
  | none => .error ⟨.other, s!"{role} order is required"⟩

/-- The checks that do not depend on fills or balances: the buyer and the seller. -/
def checkBatchTrade (orders : List OrderRow) (trade : TradeRow) :
    Except DomainError (Nat × Nat) := do
  let buyOrder ← lockedOrder orders trade.buyOrderID "buy"
  let sellOrder ← lockedOrder orders trade.sellOrderID "sell"
  if buyOrder.side ≠ .buy then .error ⟨.other, s!"buy order {buyOrder.id} has invalid side"⟩
  else if sellOrder.side ≠ .sell then
    .error ⟨.other, s!"sell order {sellOrder.id} has invalid side"⟩
  else if buyOrder.coinSymbol ≠ trade.coinSymbol ∨ sellOrder.coinSymbol ≠ trade.coinSymbol then
    .error ⟨.other, "trade coin symbol does not match both orders"⟩
  else settlementParticipants buyOrder sellOrder

/-- `tradeSettlementPlan`, with its trade and participants. -/
structure TradePlan where
  trade : TradeRow
  buyer : Nat
  seller : Nat
  postings : List PostingInput
  executionDebit : Decimal
  deriving DecidableEq, Repr

def planBatchTrade (orders : List OrderRow) (trade : TradeRow × Nat × Nat) :
    Except DomainError TradePlan := do
  let (trade, buyer, seller) := trade
  let buyOrder ← lockedOrder orders trade.buyOrderID "buy"
  let (postings, executionDebit) ← planTradeSettlement trade buyOrder buyer seller
  return ⟨trade, buyer, seller, postings, executionDebit⟩

/-- The accounts of all plans are provisioned and their balances locked in ascending order. -/
def lockBatchAccounts (s : Store) (plans : List TradePlan) : Except DomainError Store := do
  let (ledger, accounts) ← ensureAccounts s.ledger
    (plans.flatMap fun p => p.postings.map PostingInput.spec)
  let _ ← lockBalances ledger ((accounts.map Account.id).insertionSort (· ≤ ·))
  return { s with ledger := ledger }

/-- The loop's state: the tables, the locked orders in memory and the ids of those with fills. -/
structure BatchRun where
  store : Store
  orders : List OrderRow
  touched : List Nat
  deriving DecidableEq, Repr

/-- The ledger's and the statistics' part of a settlement. -/
def bookTrade (s : Store) (plan : TradePlan) : Except DomainError Store := do
  let trade := plan.trade
  let s ← recordJournal s (.trade trade.idempotencyKey) .trade .trade trade.id plan.postings
  let s ← applyAvgBuyPrice s plan.buyer trade.coinSymbol trade.quantity plan.executionDebit
  return clearAvgBuyPriceIfEmpty s plan.seller trade.coinSymbol

def settleLocked (run : BatchRun) (plan : TradePlan) : Except DomainError BatchRun := do
  let trade := plan.trade
  let buyOrder ← lockedOrder run.orders trade.buyOrderID "buy"
  let sellOrder ← lockedOrder run.orders trade.sellOrderID "sell"
  validateOrderStatusForSettlement buyOrder "buy"
  validateOrderStatusForSettlement sellOrder "sell"
  let quote := tradeQuoteAmount trade
  let (buyFilled, buyFilledQuote, buyStatus) ← applyTradeFill buyOrder trade.quantity quote
  let (sellFilled, sellFilledQuote, sellStatus) ← applyTradeFill sellOrder trade.quantity quote
  let s ← bookTrade run.store plan
  let orders := modify OrderRow.id buyOrder.id
    (setExecution buyFilled buyFilledQuote buyStatus) run.orders
  let orders := modify OrderRow.id sellOrder.id
    (setExecution sellFilled sellFilledQuote sellStatus) orders
  return ⟨s, orders, (run.touched.insert buyOrder.id).insert sellOrder.id⟩

def batchUpdateExecutions (s : Store) (updates : List OrderRow) : Except DomainError Store :=
  let affected := (s.orders.filter fun o => o.id ∈ updates.map OrderRow.id).length
  if affected ≠ updates.length then
    .error ⟨.other, s!"order batch update affected {affected} rows, expected {updates.length}"⟩
  else .ok { s with
    orders := s.orders.map fun o => (updates.find? (·.id = o.id)).elim o fun u =>
      setExecution u.filledAmount u.filledQuoteAmount u.status o }

def collectOutboxIDs (items : List TradeBatchItem) : List Nat :=
  ((items.map TradeBatchItem.outboxEventID).filter (· ≠ 0)).dedup

/-- Here the rows are counted. -/
def markSettledOutboxBatch (d : Database) (ids : List Nat) : Except DomainError Database :=
  let affected := (d.outbox.filter fun row => row.id ∈ ids).length
  if affected ≠ ids.length then
    .error ⟨.other, s!"outbox batch mark expected {ids.length} rows, affected {affected}"⟩
  else .ok { d with
    outbox := d.outbox.map fun row => if row.id ∈ ids then setProcessed row else row }

/-- The row with a trade's key. -/
def findByKey (trades : List TradeRow) (trade : TradeRow) : Option TradeRow :=
  trades.find? (·.idempotencyKey = trade.idempotencyKey)

/-- The transaction over prepared trades: the tables and the rows it inserted. -/
def settleTradeBatchTx (d : Database) (items : List TradeBatchItem) :
    Except DomainError (Database × List TradeRow) := do
  let trades := items.map TradeBatchItem.trade
  trades.forM fun trade => (findByKey d.trades trade).elim (.ok ())
    (validateIdempotentTradePayload · trade)
  let (s, rows) ← createTrades d.toStore
    (trades.filter fun trade => (findByKey d.trades trade).isNone)
  let orders ← lockByIDs s (orderIDs rows)
  let participants ← rows.mapM (checkBatchTrade orders)
  let plans ← (rows.zip participants).mapM (planBatchTrade orders)
  let s ← lockBatchAccounts s plans
  let run ← plans.foldlM settleLocked ⟨s, orders, []⟩
  let s ← batchUpdateExecutions run.store
    (run.touched.filterMap fun id => run.orders.find? (·.id = id))
  let d ← markSettledOutboxBatch { d with toStore := s } (collectOutboxIDs items)
  return (d, rows)

/-- What a call leaves: the tables, the caller's trades and the returned values. -/
structure BatchOutcome where
  database : Database
  items : List TradeBatchItem
  result : Except DomainError (List SettlementResult)

def batchResult (trades : List TradeRow) (item : TradeBatchItem) : SettlementResult :=
  match findByKey trades item.trade with
  | some existing => duplicateSettlementResult existing
  | none => ⟨true, false, item.trade.id⟩

/-- A failing transaction is rolled back, and so are the ids that the insert gave the caller's
trades. -/
def Database.settleTradeBatch (d : Database) (items : List TradeBatchItem) : BatchOutcome :=
  if items = [] then ⟨d, [], .ok []⟩
  else match prepareItems items with
    | (items, .error e) => ⟨d, items, .error e⟩
    | (items, .ok ()) =>
      match settleTradeBatchTx d items with
      | .error e =>
        ⟨d, items.map fun item => { item with trade := { item.trade with id := 0 } }, .error e⟩
      | .ok (d', rows) =>
        let items := items.map fun item =>
          { item with trade := (findByKey rows item.trade).getD item.trade }
        ⟨d', items, .ok (items.map (batchResult d.trades))⟩

end GoExchange.Service
