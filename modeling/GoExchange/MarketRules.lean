import GoExchange.OrderRequest

/-!
# Market rules

`market_rules_registry.go`: which orders a market accepts. A symbol is taken
after it has been normalised; a table is a list of entries, of which the first
with the symbol counts.
-/
namespace GoExchange.Service

inductive MarketStatus where
  | active | halted
  deriving DecidableEq, Repr

structure BaseQuantityPolicy where
  minOrderQuantity : Decimal
  baseQuantityStep : Decimal
  deriving DecidableEq, Repr

structure MarketRulesRegistry where
  minOrderNotional : Decimal
  defaultMarketStatus : MarketStatus
  marketStatuses : List (String × MarketStatus)
  defaultBaseQuantityRule : BaseQuantityPolicy
  baseQuantityRules : List (String × BaseQuantityPolicy)
  tickRules : List (Decimal × Decimal)
  maxTickSize : Decimal
  deriving DecidableEq, Repr

/-- `NewDefaultMarketRulesRegistry`, which `config/market_rules.json` repeats. -/
def defaultMarketRulesRegistry : MarketRulesRegistry where
  minOrderNotional := 0
  defaultMarketStatus := .active
  marketStatuses := [("HALT", .halted)]
  defaultBaseQuantityRule := ⟨1 / 10 ^ 8, 1 / 10 ^ 8⟩
  baseQuantityRules :=
    [("BTC", ⟨1 / 10 ^ 8, 1 / 10 ^ 8⟩), ("ETH", ⟨1 / 10 ^ 7, 1 / 10 ^ 7⟩), ("XRP", ⟨1, 1⟩)]
  tickRules :=
    [(1 / 10 ^ 5, 1 / 10 ^ 8), (1 / 10 ^ 4, 1 / 10 ^ 7), (1 / 10 ^ 3, 1 / 10 ^ 6),
      (1 / 10 ^ 2, 1 / 10 ^ 5),
      (1 / 10, 1 / 10 ^ 4), (1, 1 / 10 ^ 3), (10, 1 / 10 ^ 2), (100, 1 / 10), (5000, 1), (10000, 5),
      (50000, 10), (100000, 50), (500000, 100), (1000000, 500), (2000000, 1000)]
  maxTickSize := 1000

namespace MarketRulesRegistry

variable (r : MarketRulesRegistry)

def tradingStatus (coinSymbol : String) : MarketStatus :=
  (r.marketStatuses.lookup coinSymbol).getD r.defaultMarketStatus

def tradingEnabled (coinSymbol : String) : Bool := r.tradingStatus coinSymbol == .active

def validateTradingEnabled (coinSymbol : String) : Except DomainError Unit :=
  if !r.tradingEnabled coinSymbol then
    .error ⟨.conflict, s!"{coinSymbol} market is not accepting orders"⟩
  else .ok ()

def baseQuantityPolicy (coinSymbol : String) : BaseQuantityPolicy :=
  (r.baseQuantityRules.lookup coinSymbol).getD r.defaultBaseQuantityRule

def validateBaseQuantity (coinSymbol : String) (amount : Decimal) : Except DomainError Unit :=
  let policy := r.baseQuantityPolicy coinSymbol
  if amount < policy.minOrderQuantity then
    .error ⟨.validation,
      s!"{coinSymbol} order amount must be at least {policy.minOrderQuantity.string}"⟩
  else if amount.mod policy.baseQuantityStep ≠ 0 then
    .error ⟨.validation,
      s!"{coinSymbol} order amount must align with quantity step {policy.baseQuantityStep.string}"⟩
  else .ok ()

/-- The first rule whose bound is above the price. -/
def krwTickSize (price : Decimal) : Decimal :=
  (r.tickRules.find? (price < ·.1)).elim r.maxTickSize (·.2)

def isValidKRWTickPrice (price : Decimal) : Bool := price.mod (r.krwTickSize price) == 0

def validateLimitOrder (coinSymbol : String) (price amount : Decimal) :
    Except DomainError Unit := do
  r.validateTradingEnabled coinSymbol
  if !r.isValidKRWTickPrice price then
    .error ⟨.validation, s!"price must align with KRW tick size {(r.krwTickSize price).string}"⟩
  else
    r.validateBaseQuantity coinSymbol amount
    if 0 < r.minOrderNotional ∧ price * amount < r.minOrderNotional then
      .error ⟨.validation, s!"order notional must be at least {r.minOrderNotional.string} KRW"⟩
    else return ()

def validateMarketBuyOrder (coinSymbol : String) (quoteAmount : Decimal) :
    Except DomainError Unit := do
  r.validateTradingEnabled coinSymbol
  if 0 < r.minOrderNotional ∧ quoteAmount < r.minOrderNotional then
    .error ⟨.validation,
      s!"market buy quote_amount must be at least {r.minOrderNotional.string} KRW"⟩
  else return ()

def validateMarketSellOrder (coinSymbol : String) (amount : Decimal) : Except DomainError Unit := do
  r.validateTradingEnabled coinSymbol
  r.validateBaseQuantity coinSymbol amount

end MarketRulesRegistry

def validateMarketPolicy (marketRules : MarketRulesRegistry) (order : OrderRow) :
    Except DomainError Unit :=
  match order.orderType, order.side with
  | .limit, _ => marketRules.validateLimitOrder order.coinSymbol order.price order.amount
  | .market, .buy => marketRules.validateMarketBuyOrder order.coinSymbol order.quoteAmount
  | .market, .sell => marketRules.validateMarketSellOrder order.coinSymbol order.amount
  | _, _ => .ok ()

end GoExchange.Service
