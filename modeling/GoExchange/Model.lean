import Mathlib.Data.Rat.Defs
import Mathlib.Data.Finset.Basic

/-!
# Orders, trades and execution events

The types the packages share. A decimal is an exact rational; the two
operations of the decimal library that round are in `Decimal`. A Go string
type with named constants becomes an enumeration whose last constructor stands
for every other text.
-/
namespace GoExchange

abbrev Decimal := ℚ

inductive OrderSide where
  | buy | sell | unknown
  deriving DecidableEq, Repr

inductive OrderType where
  | limit | market | unknown
  deriving DecidableEq, Repr

inductive OrderStatus where
  | pending | partiallyFilled | filled | cancelled | rejected | unknown
  deriving DecidableEq, Repr

def OrderStatus.text : OrderStatus → String
  | .pending => "PENDING"
  | .partiallyFilled => "PARTIAL"
  | .filled => "FILLED"
  | .cancelled => "CANCELLED"
  | .rejected => "REJECTED"
  | .unknown => ""

/-- `model.Order`, a row of the orders table, without its timestamp. -/
structure OrderRow where
  id : Nat
  userID : Nat
  amount : Decimal
  quoteAmount : Decimal
  coinSymbol : String
  side : OrderSide
  status : OrderStatus
  filledAmount : Decimal
  filledQuoteAmount : Decimal
  orderType : OrderType
  price : Decimal
  deriving DecidableEq, Repr

/-- `EngineEventID`: the engine's instance name and the number it gave the event. -/
structure EventID where
  engineID : Nat
  sequence : Nat
  deriving DecidableEq, Repr

/-- The part of `model.Trade` that the engine fills in. -/
structure Trade where
  eventID : EventID
  coinSymbol : String
  price : Decimal
  quantity : Decimal
  buyOrderID : Nat
  sellOrderID : Nat
  deriving DecidableEq, Repr

/-- `model.Trade` as settlement stores it: the engine's part, its key and the fees. -/
structure TradeRow extends Trade where
  id : Nat
  idempotencyKey : String
  feeRate : Decimal
  buyerFee : Decimal
  buyerFeeAsset : String
  sellerFee : Decimal
  sellerFeeAsset : String
  deriving DecidableEq, Repr

/-- A trade as settlement receives it from the engine. -/
def TradeRow.ofTrade (t : Trade) : TradeRow :=
  { t with
    id := 0, idempotencyKey := "", feeRate := 0
    buyerFee := 0, buyerFeeAsset := "", sellerFee := 0, sellerFeeAsset := "" }

def Trade.names (t : Trade) (orderID : Nat) : Bool :=
  t.buyOrderID == orderID || t.sellOrderID == orderID

structure MarketOrderDone where
  orderID : Nat
  coinSymbol : String
  side : OrderSide
  filledAmount : Decimal
  filledQuoteAmount : Decimal
  remainingAmount : Decimal
  remainingQuoteAmount : Decimal
  deriving DecidableEq, Repr

structure OrderCancelled where
  commandID : Nat
  orderID : Nat
  coinSymbol : String
  side : OrderSide
  eventID : EventID
  deriving DecidableEq, Repr

inductive ExecutionEvent where
  | trade (t : Trade)
  | marketOrderDone (d : MarketOrderDone)
  | orderCancelled (c : OrderCancelled)
  deriving DecidableEq, Repr

/-- An execution event with the id of the outbox row that commits it. -/
structure OutboxEvent where
  outboxID : Nat
  event : ExecutionEvent
  deriving DecidableEq, Repr

namespace ExecutionEvent

/-- The trade of a trade event. -/
def trade? : ExecutionEvent → Option Trade
  | .trade t => some t
  | _ => none

/-- The order a terminal event (market-done or cancellation) ends. -/
def terminalOrder? : ExecutionEvent → Option Nat
  | .trade _ => none
  | .marketOrderDone d => some d.orderID
  | .orderCancelled c => some c.orderID

end ExecutionEvent

/-- The kinds of a `DomainError`; `other` stands for an error of another type. -/
inductive ErrorKind where
  | validation | conflict | forbidden | unavailable | other
  deriving DecidableEq, Repr

structure DomainError where
  kind : ErrorKind
  message : String
  deriving DecidableEq, Repr

/-- A Go string is its bytes. -/
def bytes (value : String) : List UInt8 := value.toByteArray.data.toList

/-- `model.KRWAssetSymbol`. -/
def krwAssetSymbol : String := "KRW"

end GoExchange
