import GoExchange.Decimal
import GoExchange.Fallible
import GoExchange.Matching

/-!
# Order requests

`order_service.go`: how a request becomes a row of the orders table, what is
held for the row and what the engine is given. The request is taken after the
texts of its fields have been trimmed and read: a number that does not parse is
`none`, a missing order type is a limit order. Buyer and seller each pay a fee
of the executed quote amount (`fee.go`), so a market buy hands the engine the
part of its budget that leaves room for it.
-/
namespace GoExchange.Service

open Fallible

/-! ## Trading fees -/

def defaultTradingFeeRate : Decimal := 5 / 10000

def tradingFeeAmount (amount : Decimal) : Decimal := amount * defaultTradingFeeRate

def quoteAmountWithTradingFee (amount : Decimal) : Decimal := amount + tradingFeeAmount amount

def marketBuyExecutableQuoteAmount (grossQuoteBudget : Decimal) : Decimal :=
  if 0 < grossQuoteBudget then Decimal.div grossQuoteBudget (1 + defaultTradingFeeRate) else 0

def tradeQuoteAmount (trade : TradeRow) : Decimal := trade.price * trade.quantity

/-- Both sides pay the default rate of the executed quote amount. -/
def withDefaultFees (trade : TradeRow) : TradeRow :=
  { trade with
    feeRate := defaultTradingFeeRate
    buyerFee := tradingFeeAmount (tradeQuoteAmount trade)
    buyerFeeAsset := krwAssetSymbol
    sellerFee := tradingFeeAmount (tradeQuoteAmount trade)
    sellerFeeAsset := krwAssetSymbol }

/-- A positive fee rate is already set when a failed settlement is retried; its fees stay. -/
def applyTradeFeePolicy (trade : TradeRow) : Except DomainError TradeRow :=
  if ¬ 0 < trade.quantity ∨ ¬ 0 < trade.price then
    .error ⟨.other, "trade price and quantity must be greater than zero"⟩
  else if 0 < trade.feeRate then .ok trade
  else if ¬ 0 ≤ defaultTradingFeeRate ∨ 1 ≤ defaultTradingFeeRate then
    .error ⟨.other, "invalid trading fee rate"⟩
  else .ok (withDefaultFees trade)

def amountAfterFee (gross fee : Decimal) (field : String) : Except DomainError Decimal :=
  if ¬ 0 < gross then .error ⟨.validation, s!"{field} gross amount must be greater than zero"⟩
  else if fee < 0 then .error ⟨.validation, s!"{field} fee must be greater than or equal to zero"⟩
  else if ¬ 0 < gross - fee then
    .error ⟨.validation, s!"{field} fee must be less than gross amount"⟩
  else .ok (gross - fee)

theorem defaultTradingFeeRate_bounds : 0 < defaultTradingFeeRate ∧ defaultTradingFeeRate < 1 := by
  norm_num [defaultTradingFeeRate]

theorem quoteAmountWithTradingFee_eq (amount : Decimal) :
    quoteAmountWithTradingFee amount = amount * (1 + defaultTradingFeeRate) := by
  unfold quoteAmountWithTradingFee tradingFeeAmount
  ring

theorem applyTradeFeePolicy_of_new {trade : TradeRow} (hp : 0 < trade.price)
    (hq : 0 < trade.quantity) (hr : trade.feeRate = 0) :
    applyTradeFeePolicy trade = .ok (withDefaultFees trade) := by
  have hrate := defaultTradingFeeRate_bounds
  simp [applyTradeFeePolicy, hp, hq, hr, hrate.1.le, hrate.2]

/-! ## Requests and rows -/

structure CreateOrderInput where
  userID : Nat
  coinSymbol : String
  side : OrderSide
  orderType : OrderType
  price : Option Decimal
  amount : Option Decimal
  quoteAmount : Option Decimal
  deriving DecidableEq, Repr

def parsePositiveDecimal (value : Option Decimal) (field : String) : Except DomainError Decimal :=
  match value with
  | none => .error ⟨.validation, s!"invalid {field}"⟩
  | some parsed =>
    if 0 < parsed then .ok parsed else .error ⟨.validation, s!"{field} must be greater than zero"⟩

/-- The numbers a request needs, by type and side; the others stay zero. -/
def parseOrderAmounts (input : CreateOrderInput) :
    Except DomainError (Decimal × Decimal × Decimal) :=
  match input.orderType, input.side with
  | .limit, _ => do
    let price ← parsePositiveDecimal input.price "price"
    let amount ← parsePositiveDecimal input.amount "amount"
    return (price, amount, 0)
  | .market, .buy => do
    let quoteAmount ← parsePositiveDecimal input.quoteAmount "quote_amount"
    return (0, 0, quoteAmount)
  | .market, _ => do
    let amount ← parsePositiveDecimal input.amount "amount"
    return (0, amount, 0)
  | .unknown, _ => .error ⟨.validation, "invalid order type"⟩

/-- The row has no id before it is inserted. -/
def parseOrderRequest (input : CreateOrderInput) : Except DomainError OrderRow :=
  if input.userID = 0 then .error ⟨.validation, "user_id is required"⟩
  else if input.coinSymbol = "" then .error ⟨.validation, "coin_symbol is required"⟩
  else if input.side = .unknown then .error ⟨.validation, "invalid order side"⟩
  else do
    let (price, amount, quoteAmount) ← parseOrderAmounts input
    return {
      id := 0
      userID := input.userID
      amount := amount
      quoteAmount := quoteAmount
      coinSymbol := input.coinSymbol
      side := input.side
      status := .pending
      filledAmount := 0
      filledQuoteAmount := 0
      orderType := input.orderType
      price := price }

def holdAmountFor (order : OrderRow) : Decimal :=
  if order.side = .buy then
    if order.orderType = .market then order.quoteAmount
    else quoteAmountWithTradingFee (order.price * order.amount)
  else order.amount

def matchingQuoteAmountForOrder (order : OrderRow) : Decimal :=
  if order.side = .buy ∧ order.orderType = .market then
    marketBuyExecutableQuoteAmount order.quoteAmount
  else order.quoteAmount

/-- The order `CreateOrder` submits to the engine. -/
def engineOrder (order : OrderRow) : Matching.Order where
  id := order.id
  userID := order.userID
  amount := order.amount
  quoteAmount := matchingQuoteAmountForOrder order
  coinSymbol := order.coinSymbol
  side := order.side
  filledAmount := order.filledAmount
  filledQuoteAmount := order.filledQuoteAmount
  orderType := order.orderType
  price := order.price

/-- The budget check of `completeMarketBuyOrder`: what is left of the budget after the executed
quote amount and the buyer's fees. -/
def remainingMarketBuyQuote (order : OrderRow) (buyerFeeTotal : Decimal) :
    Except DomainError Decimal :=
  let id := order.id
  let budget := order.quoteAmount
  let spent := order.filledQuoteAmount + buyerFeeTotal
  if budget < spent then
    .error ⟨.conflict,
      s!"market buy order {id} spent quote amount {spent.string} exceeds quote budget {budget.string}"⟩
  else .ok (budget - spent)

theorem parsePositiveDecimal_eq_ok {value : Option Decimal} {field : String} {x : Decimal} :
    parsePositiveDecimal value field = .ok x ↔ value = some x ∧ 0 < x := by
  cases value with
  | none => simp [parsePositiveDecimal]
  | some y =>
    by_cases hy : 0 < y
    · simp [parsePositiveDecimal, hy]
      intro h
      exact h ▸ hy
    · simp [parsePositiveDecimal, hy]
      intro h
      exact h ▸ not_lt.mp hy

/-- What every new row has, whatever its type and side. -/
structure NewRow (order : OrderRow) : Prop where
  user : order.userID ≠ 0
  symbol : order.coinSymbol ≠ ""
  side : order.side = .buy ∨ order.side = .sell
  status : order.status = .pending
  filled : order.filledAmount = 0 ∧ order.filledQuoteAmount = 0
  amounts : (order.orderType = .limit ∧ 0 < order.price ∧ 0 < order.amount ∧
    order.quoteAmount = 0) ∨ (order.orderType = .market ∧ order.side = .buy ∧
      order.price = 0 ∧ order.amount = 0 ∧ 0 < order.quoteAmount) ∨
    (order.orderType = .market ∧ order.side = .sell ∧
      order.price = 0 ∧ 0 < order.amount ∧ order.quoteAmount = 0)

theorem parseOrderRequest_newRow {input : CreateOrderInput} {order : OrderRow}
    (h : parseOrderRequest input = .ok order) : NewRow order := by
  unfold parseOrderRequest at h
  obtain ⟨huser, h⟩ := guard_eq_ok.mp h
  obtain ⟨hsym, h⟩ := guard_eq_ok.mp h
  obtain ⟨hside, h⟩ := guard_eq_ok.mp h
  obtain ⟨⟨price, amount, quoteAmount⟩, hamounts, h⟩ := bind_eq_ok.mp h
  cases h
  have hside : input.side = .buy ∨ input.side = .sell := by
    cases hs : input.side <;> simp_all
  refine ⟨huser, hsym, hside, rfl, ⟨rfl, rfl⟩, ?_⟩
  cases ht : input.orderType with
  | unknown => simp [parseOrderAmounts, ht] at hamounts
  | limit =>
    simp only [parseOrderAmounts, ht, bind_eq_ok, parsePositiveDecimal_eq_ok] at hamounts
    obtain ⟨p, ⟨-, hp⟩, a, ⟨-, ha⟩, h⟩ := hamounts
    cases h
    exact .inl ⟨rfl, hp, ha, rfl⟩
  | market =>
    rcases hside with hs | hs
    · simp only [parseOrderAmounts, ht, hs, bind_eq_ok, parsePositiveDecimal_eq_ok] at hamounts
      obtain ⟨g, ⟨-, hg⟩, h⟩ := hamounts
      cases h
      exact .inr (.inl ⟨rfl, hs, rfl, rfl, hg⟩)
    · simp only [parseOrderAmounts, ht, hs, bind_eq_ok, parsePositiveDecimal_eq_ok] at hamounts
      obtain ⟨a, ⟨-, ha⟩, h⟩ := hamounts
      cases h
      exact .inr (.inr ⟨rfl, hs, rfl, ha, rfl⟩)

end GoExchange.Service
