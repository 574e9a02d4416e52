import GoExchange.LockOrder
import GoExchange.HoldCoordinator
import GoExchange.Transfers

/-!
# The rows a transaction locks

The transactions that move money, once more, with the rows of `orders` and
`account_balances` that their statements lock, in order: a `SELECT … FOR UPDATE`
locks the rows it finds in the order it sorts them, an `UPDATE` those it changes.
A balance row that `EnsureAccounts` inserts is not among them: no other
transaction sees it, or the account it belongs to, before the commit.
-/
namespace GoExchange.Locks

open Ledger Service Locking

inductive Row where
  | order (id : Nat)
  | balance (accountID : Nat)
  deriving DecidableEq, Repr

namespace Row

def order? : Row → Option Nat
  | .order id => some id
  | .balance _ => none

def balance? : Row → Option Nat
  | .balance id => some id
  | .order _ => none

variable {α : Type} (f : α → Nat) (xs : List α)

@[simp] theorem filterMap_balance :
    (xs.map fun x => balance (f x)).filterMap balance? = xs.map f := by
  simp [List.filterMap_map, Function.comp_def, balance?]

@[simp] theorem filterMap_order : (xs.map fun x => order (f x)).filterMap order? = xs.map f := by
  simp [List.filterMap_map, Function.comp_def, order?]

end Row

abbrev Tx (α : Type) : Type := Traced Row DomainError α

/-! ## The ledger -/

section Ledger

variable (t : Tables)

def lockBalances (accountIDs : List Nat) : Tx (List AccountBalance) where
  trace := ((t.balances.filter fun b => b.accountID ∈ accountIDs).insertionSort
    fun b b' => b.accountID ≤ b'.accountID).map fun b => .balance b.accountID
  result := Ledger.lockBalances t accountIDs

def applyBalanceDeltas (deltas : List BalanceDelta) : Tx Tables where
  trace := (t.balances.filter fun b => b.accountID ∈ deltas.map BalanceDelta.accountID).map
    fun b => .balance b.accountID
  result := Ledger.applyBalanceDeltas t deltas

def post (journalID : Nat) (inputs : List PostingInput) : Tx Tables := do
  let (t, accounts) ← .lift (ensureAccounts t (inputs.map PostingInput.spec))
  let postings ← .lift (inputs.mapM (postingRow journalID accounts))
  let delta := Tally.tally Posting.accountID Posting.amount postings
  let accountIDs := ((postings.map Posting.accountID).dedup).insertionSort (· ≤ ·)
  let balances ← lockBalances t accountIDs
  .lift (balances.forM (checkNegative accounts delta))
  let (t, postings) ← .lift (createPostings t postings)
  let last := lastPostingByAccount postings
  applyBalanceDeltas t (accountIDs.map fun id => ⟨id, delta id, last id⟩)

def record (input : JournalInput) : Tx (Tables × JournalEntry × Bool) := do
  .lift (validateJournalInput input)
  let entry := ⟨0, input.eventType, input.idempotencyKey, input.referenceType, input.referenceID,
    input.reversesJournalID⟩
  let (t, entry, created) ← .lift (insertOrGet t entry)
  if created then
    let t ← post t entry.id input.postings
    return (t, entry, true)
  else
    .lift (assertSameJournal t entry input)
    return (t, entry, false)

theorem post_result (journalID : Nat) (inputs : List PostingInput) :
    (post t journalID inputs).result = Ledger.post t journalID inputs := by
  simp only [post, Traced.result_bind]
  rfl

theorem record_result (input : JournalInput) : (record t input).result = Ledger.record t input := by
  unfold record Ledger.record
  simp only [Traced.result_bind, apply_ite Traced.result, post_result]
  rfl

end Ledger

/-! ## Orders -/

section Orders

variable (s : Store)

def findByIDForUpdate (orderID : Nat) : Tx OrderRow where
  trace := (s.orders.find? (·.id = orderID)).toList.map fun o => .order o.id
  result := Service.findByIDForUpdate s orderID

def updateOrderExecution (orderID : Nat) (filled filledQuote : Decimal) (status : OrderStatus) :
    Tx Store where
  trace := (s.orders.filter (·.id = orderID)).map fun o => .order o.id
  result := Service.updateOrderExecution s orderID filled filledQuote status

def lockByIDs (ids : List Nat) : Tx (List OrderRow) where
  trace := ((s.orders.filter fun o => o.id ∈ ids).insertionSort fun o o' => o.id ≤ o'.id).map
    fun o => .order o.id
  result := Service.lockByIDs s ids

def batchUpdateExecutions (updates : List OrderRow) : Tx Store where
  trace := (s.orders.filter fun o => o.id ∈ updates.map OrderRow.id).map fun o => .order o.id
  result := Service.batchUpdateExecutions s updates

def recordJournal (key : JournalKey) (eventType : JournalEventType)
    (referenceType : JournalReferenceType)
    (referenceID : Nat) (postings : List PostingInput) : Tx Store := do
  let (ledger, _) ← record s.ledger ⟨eventType, key.text, referenceType, referenceID,
    none, postings⟩
  return { s with ledger := ledger }

def releaseOrderAssets (order : OrderRow) (amount : Decimal) (reason : ReleaseReason) : Tx Store :=
  if order.side ≠ .buy ∧ order.side ≠ .sell then .lift (.error ⟨.validation, "invalid order side"⟩)
  else if ¬ 0 < amount then .lift (.error ⟨.validation, "release amount must be greater than zero"⟩)
  else recordJournal s (.orderRelease order.id reason) .orderRelease .order order.id
    (orderReleasePostings order amount)

def holdOrderAssets (order : OrderRow) : Tx Store :=
  if order.side ≠ .buy ∧ order.side ≠ .sell then .lift (.error ⟨.validation, "invalid order side"⟩)
  else if ¬ 0 < holdAmountFor order then
    .lift (.error ⟨.validation, "hold amount must be greater than zero"⟩)
  else
    let held := recordJournal s (.orderHold order.id) .orderHold .order order.id
      (orderHoldPostings order (holdAmountFor order))
    ⟨held.trace, asInsufficientBalance order.side held.result⟩

def rejectAcceptedOrder (order : OrderRow) : Tx Store := do
  let s ← releaseOrderAssets s order (holdAmountFor order) .rejected
  updateOrderExecution s order.id order.filledAmount order.filledQuoteAmount .rejected

def releaseOrderHold (order : OrderRow) (remaining : Decimal) : Tx Store :=
  match order.side with
  | .buy => releaseOrderAssets s order (quoteAmountWithTradingFee (order.price * remaining)) .cancel
  | .sell => releaseOrderAssets s order remaining .cancel
  | .unknown => .lift (.error ⟨.validation, "invalid order side"⟩)

def processOrderCancellation (orderID : Nat) : Tx Store :=
  if orderID = 0 then .lift (.error ⟨.validation, "order_id is required"⟩)
  else do
    let order ← findByIDForUpdate s orderID
    let remaining := order.amount - order.filledAmount
    if ¬ isCancellableOrderStatus order.status ∨ ¬ 0 < remaining then .lift (.ok s)
    else
      let s ← releaseOrderHold s order remaining
      updateOrderExecution s order.id order.filledAmount order.filledQuoteAmount .cancelled

def releaseRemain (order : OrderRow) (remaining : Decimal) : Tx Store :=
  if 0 < remaining then releaseOrderAssets s order remaining .marketRemain else .lift (.ok s)

def completeMarketBuyOrder (order : OrderRow) (input : CompleteMarketOrderInput) : Tx Store := do
  let remaining ← .lift (remainingMarketBuyQuote order (sumBuyerFeesByBuyOrderID s.trades order.id))
  let s ← releaseRemain s order remaining
  let status := if 0 < input.remainingQuoteAmount then .cancelled else .filled
  updateOrderExecution s order.id order.filledAmount order.filledQuoteAmount status

def completeMarketSellOrder (order : OrderRow) : Tx Store :=
  let remaining := order.amount - order.filledAmount
  if remaining < 0 then .lift (.error ⟨.conflict, "order filled amount exceeds order amount"⟩)
  else do
    let s ← releaseRemain s order remaining
    let status := if order.filledAmount = order.amount then .filled else .cancelled
    updateOrderExecution s order.id order.filledAmount order.filledQuoteAmount status

def completeMarketOrder (input : CompleteMarketOrderInput) : Tx Store :=
  if input.orderID = 0 then .lift (.error ⟨.validation, "order_id is required"⟩)
  else do
    let order ← findByIDForUpdate s input.orderID
    if order.orderType ≠ .market then
      .lift (.error ⟨.validation, s!"order {order.id} is not a market order"⟩)
    else if order.status = .filled ∨ order.status = .cancelled then .lift (.ok s)
    else if order.filledAmount < input.filledAmount ∨
        order.filledQuoteAmount < input.filledQuoteAmount then
      .lift (.error ⟨.conflict, s!"market order {order.id} settlement is not complete"⟩)
    else match order.side with
      | .buy => completeMarketBuyOrder s order input
      | .sell => completeMarketSellOrder s order
      | .unknown => .lift (.error ⟨.validation, "invalid order side"⟩)

theorem recordJournal_result (key : JournalKey) (eventType : JournalEventType)
    (referenceType : JournalReferenceType) (referenceID : Nat) (postings : List PostingInput) :
    (recordJournal s key eventType referenceType referenceID postings).result =
      Service.recordJournal s key eventType referenceType referenceID postings := by
  simp only [recordJournal, Traced.result_bind, record_result]
  rfl

theorem releaseOrderAssets_result (order : OrderRow) (amount : Decimal) (reason : ReleaseReason) :
    (releaseOrderAssets s order amount reason).result =
      Service.releaseOrderAssets s order amount reason := by
  simp only [releaseOrderAssets, apply_ite Traced.result, recordJournal_result]
  rfl

theorem holdOrderAssets_result (order : OrderRow) :
    (holdOrderAssets s order).result = Service.holdOrderAssets s order := by
  simp only [holdOrderAssets, apply_ite Traced.result, recordJournal_result]
  rfl

theorem rejectAcceptedOrder_result (order : OrderRow) :
    (rejectAcceptedOrder s order).result = Service.rejectAcceptedOrder s order := by
  simp only [rejectAcceptedOrder, Traced.result_bind, releaseOrderAssets_result]
  rfl

theorem processOrderCancellation_result (orderID : Nat) :
    (processOrderCancellation s orderID).result = Service.processOrderCancellation s orderID := by
  have hhold : ∀ order remaining, (releaseOrderHold s order remaining).result =
      Service.releaseOrderHold s order remaining := by
    intro order remaining
    unfold releaseOrderHold Service.releaseOrderHold
    cases order.side <;> simp only [releaseOrderAssets_result, Traced.result_lift]
  simp only [processOrderCancellation, apply_ite Traced.result, Traced.result_bind, hhold]
  rfl

theorem releaseRemain_result (order : OrderRow) (remaining : Decimal) :
    (releaseRemain s order remaining).result = Service.releaseRemain s order remaining := by
  simp only [releaseRemain, apply_ite Traced.result, releaseOrderAssets_result]
  rfl

theorem completeMarketBuyOrder_result (order : OrderRow) (input : CompleteMarketOrderInput) :
    (completeMarketBuyOrder s order input).result =
      Service.completeMarketBuyOrder s order input := by
  simp only [completeMarketBuyOrder, Traced.result_bind, releaseRemain_result]
  rfl

theorem completeMarketSellOrder_result (order : OrderRow) :
    (completeMarketSellOrder s order).result = Service.completeMarketSellOrder s order := by
  simp only [completeMarketSellOrder, apply_ite Traced.result, Traced.result_bind,
    releaseRemain_result]
  rfl

theorem completeMarketOrder_result (input : CompleteMarketOrderInput) :
    (completeMarketOrder s input).result = Service.completeMarketOrder s input := by
  have hside : ∀ order : OrderRow, (match order.side with
      | .buy => completeMarketBuyOrder s order input
      | .sell => completeMarketSellOrder s order
      | .unknown => .lift (.error ⟨.validation, "invalid order side"⟩) : Tx Store).result =
        match order.side with
      | .buy => Service.completeMarketBuyOrder s order input
      | .sell => Service.completeMarketSellOrder s order
      | .unknown => .error ⟨.validation, "invalid order side"⟩ := by
    intro order
    cases order.side <;> simp only [completeMarketBuyOrder_result, completeMarketSellOrder_result,
      Traced.result_lift]
  simp only [completeMarketOrder, apply_ite Traced.result, Traced.result_bind, hside]
  rfl

end Orders

/-! ## Settlement -/

section Settlement

def settleNewTrade (s : Store) (trade : TradeRow) : Tx Store := do
  let trade := { trade with id := s.tradeSeq + 1 }
  let s ← .lift (insertTrade s trade)
  let buyOrder ← findByIDForUpdate s trade.buyOrderID
  let sellOrder ← findByIDForUpdate s trade.sellOrderID
  if buyOrder.side ≠ .buy then .lift (.error ⟨.other, s!"buy order {buyOrder.id} has invalid side"⟩)
  else if sellOrder.side ≠ .sell then
    .lift (.error ⟨.other, s!"sell order {sellOrder.id} has invalid side"⟩)
  else if buyOrder.coinSymbol ≠ trade.coinSymbol ∨ sellOrder.coinSymbol ≠ trade.coinSymbol then
    .lift (.error ⟨.other, "trade coin symbol does not match both orders"⟩)
  else
    .lift (validateOrderStatusForSettlement buyOrder "buy")
    .lift (validateOrderStatusForSettlement sellOrder "sell")
    let (buyer, seller) ← .lift (settlementParticipants buyOrder sellOrder)
    let quote := tradeQuoteAmount trade
    let (buyFilled, buyFilledQuote, buyStatus) ← .lift
      (applyTradeFill buyOrder trade.quantity quote)
    let (sellFilled, sellFilledQuote, sellStatus) ← .lift
      (applyTradeFill sellOrder trade.quantity quote)
    let (postings, executionDebit) ← .lift (planTradeSettlement trade buyOrder buyer seller)
    let s ← updateOrderExecution s buyOrder.id buyFilled buyFilledQuote buyStatus
    let s ← updateOrderExecution s sellOrder.id sellFilled sellFilledQuote sellStatus
    let s ← recordJournal s (.trade trade.idempotencyKey) .trade .trade trade.id postings
    let s ← .lift (applyAvgBuyPrice s buyer trade.coinSymbol trade.quantity executionDebit)
    return clearAvgBuyPriceIfEmpty s seller trade.coinSymbol

def settleCreatedTrade (s : Store) (trade : TradeRow) : Tx (Store × Nat) :=
  if trade.id = 0 then do
    let s' ← settleNewTrade s trade
    return (s', s.tradeSeq + 1)
  else if trade.id ∈ s.trades.map TradeRow.id then .lift (.error (refused "trades_pkey"))
  else do
    let s' ← settleNewTrade { s with tradeSeq := trade.id - 1 } trade
    return ({ s' with tradeSeq := s.tradeSeq }, trade.id)

def settleTrade (d : Database) (trade : TradeRow) (outboxEventID : Nat) :
    Tx (Database × SettlementResult) := do
  let trade ← .lift (prepareTradeForSettlement trade)
  let trade ← .lift (applyTradeFeePolicy trade)
  match d.trades.find? (·.idempotencyKey = trade.idempotencyKey) with
  | some existing =>
    .lift (validateIdempotentTradePayload existing trade)
    return (markSettledOutbox d outboxEventID, duplicateSettlementResult existing)
  | none =>
    let (s, id) ← settleCreatedTrade d.toStore trade
    return (markSettledOutbox { d with toStore := s } outboxEventID, ⟨true, false, id⟩)

def lockBatchAccounts (s : Store) (plans : List TradePlan) : Tx Store := do
  let (ledger, accounts) ← .lift
    (ensureAccounts s.ledger (plans.flatMap fun p => p.postings.map PostingInput.spec))
  let _ ← lockBalances ledger ((accounts.map Account.id).insertionSort (· ≤ ·))
  return { s with ledger := ledger }

def bookTrade (s : Store) (plan : TradePlan) : Tx Store := do
  let trade := plan.trade
  let s ← recordJournal s (.trade trade.idempotencyKey) .trade .trade trade.id plan.postings
  let s ← .lift (applyAvgBuyPrice s plan.buyer trade.coinSymbol trade.quantity plan.executionDebit)
  return clearAvgBuyPriceIfEmpty s plan.seller trade.coinSymbol

def settleLocked (run : BatchRun) (plan : TradePlan) : Tx BatchRun := do
  let trade := plan.trade
  let buyOrder ← .lift (lockedOrder run.orders trade.buyOrderID "buy")
  let sellOrder ← .lift (lockedOrder run.orders trade.sellOrderID "sell")
  .lift (validateOrderStatusForSettlement buyOrder "buy")
  .lift (validateOrderStatusForSettlement sellOrder "sell")
  let quote := tradeQuoteAmount trade
  let (buyFilled, buyFilledQuote, buyStatus) ← .lift (applyTradeFill buyOrder trade.quantity quote)
  let (sellFilled, sellFilledQuote, sellStatus) ← .lift
    (applyTradeFill sellOrder trade.quantity quote)
  let s ← bookTrade run.store plan
  let orders := Rows.modify OrderRow.id buyOrder.id
    (setExecution buyFilled buyFilledQuote buyStatus) run.orders
  let orders := Rows.modify OrderRow.id sellOrder.id
    (setExecution sellFilled sellFilledQuote sellStatus) orders
  return ⟨s, orders, (run.touched.insert buyOrder.id).insert sellOrder.id⟩

def settleTradeBatchTx (d : Database) (items : List TradeBatchItem) :
    Tx (Database × List TradeRow) := do
  let trades := items.map TradeBatchItem.trade
  .lift (trades.forM fun trade =>
    (findByKey d.trades trade).elim (.ok ()) (validateIdempotentTradePayload · trade))
  let (s, rows) ← .lift
    (createTrades d.toStore (trades.filter fun trade => (findByKey d.trades trade).isNone))
  let orders ← lockByIDs s (orderIDs rows)
  let participants ← .lift (rows.mapM (checkBatchTrade orders))
  let plans ← .lift ((rows.zip participants).mapM (planBatchTrade orders))
  let s ← lockBatchAccounts s plans
  let run ← plans.foldlM settleLocked ⟨s, orders, []⟩
  let s ← batchUpdateExecutions run.store
    (run.touched.filterMap fun id => run.orders.find? (·.id = id))
  let d ← .lift (markSettledOutboxBatch { d with toStore := s } (collectOutboxIDs items))
  return (d, rows)

theorem settleNewTrade_result (s : Store) (trade : TradeRow) :
    (settleNewTrade s trade).result = Service.settleNewTrade s trade := by
  simp only [settleNewTrade, apply_ite Traced.result, Traced.result_bind, recordJournal_result]
  rfl

theorem settleTrade_result (d : Database) (trade : TradeRow) (outboxEventID : Nat) :
    (settleTrade d trade outboxEventID).result = d.settleTrade trade outboxEventID := by
  have hcreated : ∀ trade, (settleCreatedTrade d.toStore trade).result =
      Service.settleCreatedTrade d.toStore trade := by
    intro trade
    simp only [settleCreatedTrade, apply_ite Traced.result, Traced.result_bind,
      settleNewTrade_result]
    rfl
  simp only [settleTrade, Database.settleTrade, Traced.result_bind, Traced.result_lift]
  congr 1
  funext trade
  congr 1
  funext trade
  cases d.trades.find? (·.idempotencyKey = trade.idempotencyKey) with
  | some existing => simp only [Traced.result_bind, Traced.result_lift, Traced.result_pure]; rfl
  | none =>
    simp only [Traced.result_bind, hcreated]
    rfl

theorem lockBatchAccounts_result (s : Store) (plans : List TradePlan) :
    (lockBatchAccounts s plans).result = Service.lockBatchAccounts s plans := by
  simp only [lockBatchAccounts, Traced.result_bind]
  rfl

theorem bookTrade_result (s : Store) (plan : TradePlan) :
    (bookTrade s plan).result = Service.bookTrade s plan := by
  simp only [bookTrade, Traced.result_bind, recordJournal_result]
  rfl

theorem settleLocked_result (run : BatchRun) (plan : TradePlan) :
    (settleLocked run plan).result = Service.settleLocked run plan := by
  simp only [settleLocked, Traced.result_bind, bookTrade_result]
  rfl

theorem settleTradeBatchTx_result (d : Database) (items : List TradeBatchItem) :
    (settleTradeBatchTx d items).result = Service.settleTradeBatchTx d items := by
  simp only [settleTradeBatchTx, Traced.result_bind, lockBatchAccounts_result,
    Traced.result_foldlM settleLocked_result]
  rfl

end Settlement

/-! ## Holds -/

section Holds

def holdPassing (s : Intake) (reqs : List HoldRequest) : Tx (Intake × List HoldRequest) := do
  let (store, reqs) ← .lift (insertOrders s.toStore reqs)
  let store ← reqs.foldlM (fun store req => holdOrderAssets store req.order) store
  let s ← .lift (reqs.foldlM setOutcomeOf { s with toStore := store })
  return (s, reqs)

def holdOwners (s : Intake) (owners : List HoldRequest) : Tx (Intake × List HoldResult) := do
  let (s, claims) ← .lift (claimIdempotencyKeys s owners)
  let active := activeOf claims
  let (ledger, accounts) ← .lift (ensureAccounts s.ledger (holdSpecs active))
  let balances ← lockBalances ledger ((accounts.map Account.id).insertionSort (· ≤ ·))
  let errs := checkHolds accounts (availableOf accounts balances) active
  let s ← .lift (deleteByIDs { s with ledger := ledger } (failedRecordIDs active errs))
  let (s, held) ← holdPassing s (passing active errs)
  return (s, ownerResults claims errs held)

def holdBatch (s : Intake) (reqs : List HoldRequest) : Tx (Intake × List HoldResult) := do
  let groups := groupIdempotentRequests reqs
  let (s, results) ← holdOwners s (ownersOf groups reqs)
  return (s, applyFollowerResults [] groups results)

theorem holdPassing_result (s : Intake) (reqs : List HoldRequest) :
    (holdPassing s reqs).result = Service.holdPassing s reqs := by
  simp only [holdPassing, Traced.result_bind,
    Traced.result_foldlM fun (store : Store) (req : HoldRequest) =>
      holdOrderAssets_result store req.order]
  rfl

theorem holdBatch_result (s : Intake) (reqs : List HoldRequest) :
    (holdBatch s reqs).result = Service.holdBatch s reqs := by
  have howners : ∀ owners, (holdOwners s owners).result = Service.holdOwners s owners := by
    intro owners
    simp only [holdOwners, Traced.result_bind, holdPassing_result]
    rfl
  simp only [holdBatch, Traced.result_bind, howners]
  rfl

end Holds

/-! ## Transfers -/

section Transfers

variable (b : Bank)

def recordTransfer (key : JournalKey) (eventType : JournalEventType) (requestID : Nat)
    (postings : List PostingInput) : Tx (Bank × Nat) := do
  let (ledger, entry, _) ← record b.ledger ⟨eventType, key.text, .transfer, requestID,
    none, postings⟩
  return ({ b with ledger := ledger }, entry.id)

def requestWithdrawal (input : TransferInput) : Tx Bank := do
  let amount ← .lift (normalizeTransferInput input)
  let (b, row, created) ← .lift (acceptTransfer b (newTransfer .withdrawal input amount))
  if created then
    let (b, journalID) ← recordTransfer b (.withdrawHold row.id) .withdrawal row.id
      (lockPostings row.userID row.asset (row.amount + row.feeAmount))
    return updateTransfer b row.id fun r => { r with holdJournalID := some journalID }
  else return b

def recordConfirmationJournal (request : TransferRequest) (outcome : TransferOutcome) :
    Tx (Bank × Option Nat) :=
  match request.externalRef with
  | none =>
    .lift (.error ⟨.other, s!"transfer request {request.id} is PROCESSING without an external_ref"⟩)
  | some ref =>
    match request.direction, outcome with
    | .deposit, .success => do
      let (b, id) ← recordTransfer b (.depositSettle ref) .deposit request.id
        (depositPostings request)
      return (b, some id)
    | .deposit, .failure => .lift (.ok (b, none))
    | .withdrawal, .success => do
      let (b, id) ← recordTransfer b (.withdrawSettle ref) .withdrawal request.id
        (withdrawalPostings request)
      return (b, some id)
    | .withdrawal, .failure => do
      let (b, id) ← recordTransfer b (.withdrawRefund ref) .withdrawal request.id
        (refundPostings request)
      return (b, some id)
    | _, _ => .lift (.error ⟨.other, "unhandled direction/outcome combination"⟩)

def confirmTerminal (request : TransferRequest) (input : ResolveInput) : Tx Bank := do
  let (b, journalID) ← recordConfirmationJournal b request input.outcome
  let status := if input.outcome = .success then .completed else .failed
  let failureReason := if input.outcome = .success then "" else input.reason.getD ""
  return updateTransfer b request.id fun r =>
    { r with
      status := status, resolutionJournalID := journalID, reviewReason := none
      failureReason := failureReason }

def resolveTransfer (input : ResolveInput) : Tx Bank :=
  if !input.outcome.isTerminal then
    .lift (.error ⟨.other, "ResolveTransfer requires a terminal outcome"⟩)
  else if input.transferRequestID = 0 ∨ input.eventKey = "" then
    .lift (.error ⟨.other, "transfer_request_id and event_key are required"⟩)
  else do
    let request ← .lift (lockByID b input.transferRequestID)
    if input.eventKey ∈ b.transferEvents.map TransferStatusEvent.eventKey then .lift (.ok b)
    else
      let event := ⟨request.id, input.eventKey, input.outcome⟩
      let b := { b with transferEvents := b.transferEvents ++ [event] }
      match request.status with
      | .received => .lift (.ok (setReviewRequired b request.id "TERMINAL_BEFORE_DISPATCH"))
      | .processing => confirmTerminal b request input
      | status =>
        if matchesTerminalOutcome status input.outcome then .lift (.ok b)
        else .lift (.ok (setReviewRequired b request.id "CONFLICTING_TERMINAL_OUTCOME"))

theorem recordTransfer_result (key : JournalKey) (eventType : JournalEventType) (requestID : Nat)
    (postings : List PostingInput) : (recordTransfer b key eventType requestID postings).result =
      Service.recordTransfer b key eventType requestID postings := by
  simp only [recordTransfer, Traced.result_bind, record_result]
  rfl

theorem requestWithdrawal_result (input : TransferInput) :
    (requestWithdrawal b input).result = Service.requestWithdrawal b input := by
  simp only [requestWithdrawal, apply_ite Traced.result, Traced.result_bind, recordTransfer_result]
  rfl

theorem confirmTerminal_result (request : TransferRequest) (input : ResolveInput) :
    (confirmTerminal b request input).result = Service.confirmTerminal b request input := by
  have hjournal : ∀ outcome, (recordConfirmationJournal b request outcome).result =
      Service.recordConfirmationJournal b request outcome := by
    intro outcome
    unfold recordConfirmationJournal Service.recordConfirmationJournal
    cases request.externalRef with
    | none => rfl
    | some ref =>
      cases request.direction <;> cases outcome <;>
        first
          | rfl
          | (simp only [Traced.result_bind, recordTransfer_result]; rfl)
  simp only [confirmTerminal, Traced.result_bind, hjournal]
  rfl

theorem resolveTransfer_result (input : ResolveInput) :
    (resolveTransfer b input).result = Service.resolveTransfer b input := by
  unfold resolveTransfer Service.resolveTransfer
  simp only [apply_ite Traced.result, Traced.result_bind, Traced.result_lift]
  congr 3
  funext request
  congr 1
  cases request.status <;> simp only [confirmTerminal_result, apply_ite Traced.result,
    Traced.result_lift]

end Transfers

end GoExchange.Locks
