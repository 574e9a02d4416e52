import GoExchange.SettlementBatch
import GoExchange.SettlementErrors

/-!
# Failed settlements, completions and cancellations

The three tables that take over an execution event which could not be carried
out, and the services that write them. A row keeps the error of its last
attempt; of an error's message only the SQLSTATE is read again.
-/
namespace GoExchange.Service

open Rows GoStrings
open SettlementErrors (FailedSettlementCategory isTransientFailedSettlementCategory SettlementError
  settlementErrorMessage settlementErrorSQLState)

/-! ## Errors of a call -/

inductive SqlState where
  | serializationFailure | deadlockDetected | lockNotAvailable | queryCanceled | other
  deriving DecidableEq, Repr

/-- A service refuses a call, or the database fails it. -/
inductive CallError where
  | refused (e : DomainError)
  | database (code : SqlState)
  deriving DecidableEq, Repr

/-- What befalls a transaction: it fails and is rolled back, or commits and the answer is lost. -/
inductive Fault where
  | failed (code : SqlState)
  | unanswered (code : SqlState)
  deriving DecidableEq, Repr

def Fault.code : Fault → SqlState
  | .failed code | .unanswered code => code

/-- The tables after a transaction and what the caller hears of it. -/
def call {σ α : Type} (fault : Option Fault) (d : σ) :
    Except DomainError (σ × α) → σ × Except CallError α
  | .error e => (d, .error (fault.elim (.refused e) fun f => .database f.code))
  | .ok (d', a) =>
    match fault with
    | none => (d', .ok a)
    | some (.failed code) => (d, .error (.database code))
    | some (.unanswered code) => (d', .error (.database code))

/-- A transaction has its effect or none, and if its success is reported it has its effect. -/
theorem call_spec {σ α : Type} {fault : Option Fault} {d d' : σ} {x : Except DomainError (σ × α)}
    {reported : Except CallError α} (h : call fault d x = (d', reported)) :
    (d' = d ∨ ∃ a, x = .ok (d', a)) ∧ ∀ a, reported = .ok a → x = .ok (d', a) := by
  unfold call at h
  split at h
  · cases h
    exact ⟨.inl rfl, nofun⟩
  · rename_i d'' a
    split at h
    · cases h
      exact ⟨.inr ⟨a, rfl⟩, fun b hb => by cases hb; rfl⟩
    · cases h
      exact ⟨.inl rfl, nofun⟩
    · cases h
      exact ⟨.inr ⟨a, rfl⟩, nofun⟩

/-! ## The rows -/

inductive FailedSettlementStatus where
  | opened | resolved
  deriving DecidableEq, Repr

/-- What the rows of the three tables have in common. -/
structure FailureRecord where
  error : CallError
  status : FailedSettlementStatus
  retryCount : Nat
  deriving DecidableEq, Repr

/-- `ON CONFLICT DO UPDATE` of `RecordFailure`. -/
def FailureRecord.again (r : FailureRecord) (error : CallError) : FailureRecord :=
  ⟨error, .opened, r.retryCount + 1⟩

def FailureRecord.resolve (r : FailureRecord) : FailureRecord := { r with status := .resolved }

/-- `defaultSettlementRetryMax`. -/
def maxRetryCount : Nat := 5

structure FailedSettlement extends Trade, FailureRecord where
  tradeIdempotencyKey : String
  buyerFee : Decimal
  sellerFee : Decimal
  feeRate : Decimal
  deriving DecidableEq, Repr

/-- A row of `failed_market_completions` or `failed_order_cancellations`: one for an order, with
what a retry needs. -/
structure Deferred (α : Type) extends FailureRecord where
  orderID : Nat
  payload : α
  deriving DecidableEq, Repr

structure CompletionPayload where
  coinSymbol : String
  filledAmount : Decimal
  filledQuoteAmount : Decimal
  remainingQuoteAmount : Decimal
  deriving DecidableEq, Repr

abbrev FailedMarketCompletion := Deferred CompletionPayload

structure CancellationPayload where
  outboxEventID : Nat
  coinSymbol : String
  side : OrderSide
  eventID : EventID
  deriving DecidableEq, Repr

abbrev FailedOrderCancellation := Deferred CancellationPayload

/-! ## Failed settlements -/

/-- The category, as far as the kind of the error tells it. -/
def classifyFailedSettlement (failure : FailedSettlement) : FailedSettlementCategory :=
  match failure.error with
  | .database .deadlockDetected => .deadlock
  | .database .serializationFailure => .serializationFailure
  | .database .lockNotAvailable => .lockTimeout
  | .database .queryCanceled => .statementTimeout
  | .database .other | .refused _ => .unknown

def SqlState.pgCode : SqlState → Option String
  | .serializationFailure => some SettlementErrors.pgCodeSerializationFailure
  | .deadlockDetected => some SettlementErrors.pgCodeDeadlockDetected
  | .lockNotAvailable => some SettlementErrors.pgCodeLockNotAvailable
  | .queryCanceled => some SettlementErrors.pgCodeQueryCanceled
  | .other => none

/-- The error that the message is made of; one of the database has a text of its own. -/
def CallError.withText (text : String) : CallError → SettlementError
  | .refused e => ⟨e.message, none⟩
  | .database code => ⟨text, code.pgCode⟩

theorem sqlState_withText (failure : FailedSettlement) (text : String) :
    settlementErrorSQLState (failure.error.withText text) ≠ "" ↔
      isTransientFailedSettlementCategory (classifyFailedSettlement failure) = true := by
  have hkept : ∀ code ∈ SettlementErrors.keptCodes,
      settlementErrorSQLState (some ⟨text, some code⟩) ≠ "" := by
    intro code hcode
    rw [settlementErrorSQLState, if_pos hcode]
    exact (by decide : ∀ code ∈ SettlementErrors.keptCodes, code ≠ "") code hcode
  unfold classifyFailedSettlement
  cases failure.error with
  | refused e => exact ⟨fun h => absurd rfl h, nofun⟩
  | database code =>
    cases code with
    | other => exact ⟨fun h => absurd rfl h, nofun⟩
    | _ => exact ⟨fun _ => rfl, fun _ => hkept _ (by decide)⟩

/-- The message that is stored tells a transient failure like the error does, unless an error of
another kind has one of the tags in its text. -/
theorem classify_stored {upper : Char → Char} (hupper : ∀ c, c.toNat < 128 → upper c = c.toUpper)
    (failure : FailedSettlement) (text : String)
    (hplain : settlementErrorSQLState (failure.error.withText text) = "" →
      ∀ code ∈ SettlementErrors.keptCodes,
      ¬ bytes (SettlementErrors.tag code) <:+: toUpper upper
      (settlementErrorMessage (failure.error.withText text))) :
    isTransientFailedSettlementCategory
        (SettlementErrors.classifyFailedSettlement upper
          (settlementErrorMessage (failure.error.withText text))) =
      isTransientFailedSettlementCategory (classifyFailedSettlement failure) := by
  rw [Bool.eq_iff_iff, ← sqlState_withText failure text]
  constructor
  · rw [SettlementErrors.classify_transient_iff]
    rintro ⟨code, hmem, htag⟩ hcode
    exact hplain hcode code hmem htag
  · exact SettlementErrors.classify_message hupper _

def failedSettlementFromTrade (trade : TradeRow) (error : CallError) :
    Except DomainError FailedSettlement := do
  validateTrade trade.toTrade
  return {
    toTrade := trade.toTrade
    error := error
    status := .opened
    retryCount := 1
    tradeIdempotencyKey := settlementKey trade
    buyerFee := trade.buyerFee
    sellerFee := trade.sellerFee
    feeRate := trade.feeRate }

/-- The row takes its fees as they were when the first attempt failed. -/
def tradeFromFailedSettlement (failure : FailedSettlement) : TradeRow :=
  { toTrade := failure.toTrade
    id := 0
    idempotencyKey := failure.tradeIdempotencyKey
    feeRate := failure.feeRate
    buyerFee := failure.buyerFee
    buyerFeeAsset := krwAssetSymbol
    sellerFee := failure.sellerFee
    sellerFeeAsset := krwAssetSymbol }

def FailedSettlement.again (error : CallError) (failure : FailedSettlement) : FailedSettlement :=
  { failure with toFailureRecord := failure.toFailureRecord.again error }

/-- The repository's `RecordFailure`. -/
def insertFailedSettlement (failures : List FailedSettlement) (failure : FailedSettlement) :
    List FailedSettlement :=
  upsert FailedSettlement.tradeIdempotencyKey (FailedSettlement.again failure.error)
    failure failures

def recordSettlementFailure (failures : List FailedSettlement) (trade : TradeRow)
    (error : CallError) : Except DomainError (List FailedSettlement) := do
  let failure ← failedSettlementFromTrade trade error
  return insertFailedSettlement failures failure

/-- A row that is resolved already stays as it is. -/
def resolveFailedSettlement (failures : List FailedSettlement) (key : String) :
    List FailedSettlement :=
  modify FailedSettlement.tradeIdempotencyKey key
    (fun f => { f with toFailureRecord := f.toFailureRecord.resolve }) failures

def hasOpenFailureForOrder (failures : List FailedSettlement) (orderID : Nat) : Bool :=
  failures.any fun f => f.status == .opened && f.toTrade.names orderID

/-- The rows that the retry worker settles again. -/
def FailedSettlement.isRetried (failure : FailedSettlement) : Bool :=
  failure.status == .opened && isTransientFailedSettlementCategory
    (classifyFailedSettlement failure) && decide (failure.retryCount < maxRetryCount)

/-! ## The handoff of a batch -/

structure SettlementFailureHandoff where
  failure : FailedSettlement
  outboxID : Nat
  deriving DecidableEq, Repr

/-- The first loop of `RecordFailuresAndMarkOutboxProcessed`; `seen` are the items before. -/
def checkHandoffs (seen : List SettlementFailureHandoff) :
    List SettlementFailureHandoff → Except DomainError Unit
  | [] => .ok ()
  | item :: items =>
    if item.outboxID = 0 then .error ⟨.other, s!"items[{seen.length}].OutboxID is required"⟩
    else if item.outboxID ∈ seen.map SettlementFailureHandoff.outboxID then
      .error ⟨.other, s!"duplicate outbox id {item.outboxID}"⟩
    else if item.failure.tradeIdempotencyKey ∈ seen.map fun h => h.failure.tradeIdempotencyKey then
      .error ⟨.other, s!"duplicate trade idempotency key {item.failure.tradeIdempotencyKey.quote}"⟩
    else checkHandoffs (seen ++ [item]) items

/-- Only rows that are pending are marked, and all of them must be. -/
def markPendingProcessed (outbox : List TradeOutboxEvent) (ids : List Nat) :
    Except DomainError (List TradeOutboxEvent) :=
  let affected := (outbox.filter fun row => row.id ∈ ids ∧ row.status = .pending).length
  if affected ≠ ids.length then
    .error ⟨.other, s!"mark outbox processed affected {affected} rows, expected {ids.length}"⟩
  else .ok (outbox.map fun row => if row.id ∈ ids ∧ row.status = .pending then
    setProcessed row else row)

def recordFailuresAndMarkOutboxProcessed (failures : List FailedSettlement)
    (outbox : List TradeOutboxEvent)
    (items : List SettlementFailureHandoff) :
    Except DomainError (List FailedSettlement × List TradeOutboxEvent) :=
  if items = [] then .error ⟨.other, "items is required"⟩
  else do
    checkHandoffs [] items
    let outbox ← markPendingProcessed outbox (items.map SettlementFailureHandoff.outboxID)
    return ((items.map SettlementFailureHandoff.failure).foldl insertFailedSettlement failures,
      outbox)

/-- `RecordBatchFailuresAndMarkOutboxProcessed`. -/
def handoffBatch (failures : List FailedSettlement) (outbox : List TradeOutboxEvent)
    (items : List TradeBatchItem)
    (error : CallError) : Except DomainError (List FailedSettlement × List TradeOutboxEvent) := do
  let handoffs ← items.mapM fun item => do
    let failure ← failedSettlementFromTrade item.trade error
    return (⟨failure, item.outboxEventID⟩ : SettlementFailureHandoff)
  recordFailuresAndMarkOutboxProcessed failures outbox handoffs

/-! ## Deferred completions and cancellations -/

def Deferred.again {α : Type} (error : CallError) (row : Deferred α) : Deferred α :=
  { row with toFailureRecord := row.toFailureRecord.again error }

/-- A remaining quote amount below zero is stored as zero. -/
def failedMarketCompletionFrom (input : CompleteMarketOrderInput) (coinSymbol : String)
    (error : CallError) (retryCount : Nat) : Except DomainError FailedMarketCompletion :=
  if input.orderID = 0 then .error ⟨.other, "order_id is required"⟩
  else .ok ⟨⟨error, .opened, retryCount⟩, input.orderID,
    ⟨coinSymbol, input.filledAmount, input.filledQuoteAmount, max 0 input.remainingQuoteAmount⟩⟩

def failedOrderCancellationFrom (cancelled : OrderCancelled) (sourceOutboxID : Nat)
    (error : CallError) (retryCount : Nat) : Except DomainError FailedOrderCancellation :=
  if cancelled.orderID = 0 then .error ⟨.other, "order_id is required"⟩
  else .ok ⟨⟨error, .opened, retryCount⟩, cancelled.orderID,
    ⟨sourceOutboxID, cancelled.coinSymbol, cancelled.side, cancelled.eventID⟩⟩

def completionInputOf (row : FailedMarketCompletion) : CompleteMarketOrderInput :=
  ⟨row.orderID, row.payload.filledAmount, row.payload.filledQuoteAmount,
    row.payload.remainingQuoteAmount⟩

end GoExchange.Service
