import GoExchange.OrderRequest

/-!
# The budget of a market buy

A market buy holds its gross budget `g`. The engine gets `g / 1.0005`, rounded,
and spends it in quantities that are cut off; settlement charges the executed
quote amount and the fee on it. The hold covers that exactly if the division
did not round up.
-/
namespace GoExchange.Service

open Matching

/-- The executions of a sweep cut into slices. Between two slices the book may change in any way. -/
def sweepFills (order : Order) : List (OrderBook × Nat) → List Fill
  | [] => []
  | (book, budget) :: slices =>
    let r := matchSlice book order budget
    r.fills ++ sweepFills r.order slices

def notional (fills : List Fill) : Decimal := (fills.map fun f => f.price * f.quantity).sum

@[simp] theorem notional_nil : notional [] = 0 := rfl

@[simp] theorem notional_cons (f : Fill) (fs : List Fill) :
    notional (f :: fs) = f.price * f.quantity + notional fs := by
  simp [notional]

@[simp] theorem notional_append (fs gs : List Fill) :
    notional (fs ++ gs) = notional fs + notional gs := by
  simp [notional]

/-! ## What the engine spends -/

/-- A market buy that is still one, has not overdrawn its quote amount and has spent `spent`. -/
structure Spending (order now : Order) (fills : List Fill) : Prop where
  side : now.side = order.side
  orderType : now.orderType = order.orderType
  nonneg : 0 ≤ now.quoteAmount
  spent : notional fills = order.quoteAmount - now.quoteAmount
  positive : ∀ f ∈ fills, 0 < f.price ∧ 0 < f.quantity

variable {order now next : Order} {book book' : OrderBook} {fills more : List Fill} {f : Fill}
  {g : Decimal}

theorem Spending.refl (h : 0 ≤ order.quoteAmount) : Spending order order [] :=
  ⟨rfl, rfl, h, by simp, by simp⟩

theorem Spending.trans (h : Spending order now fills) (h' : Spending now next more) :
    Spending order next (fills ++ more) where
  side := h'.side.trans h.side
  orderType := h'.orderType.trans h.orderType
  nonneg := h'.nonneg
  spent := by rw [notional_append, h.spent, h'.spent]; ring
  positive f hf := (List.mem_append.mp hf).elim (h.positive f) (h'.positive f)

/-- The quantity is cut off, so a round never spends more than is left. -/
theorem spending_round (hq : 0 < order.quoteAmount)
    (h : matchMarketBuy.round book order = .trade book' now f) : Spending order now [f] := by
  obtain ⟨level, maker, qty, -, hqty, hpos, rfl, rfl, -⟩ := MatchKind.round_eq_trade h
  obtain ⟨mx, hmx, rfl⟩ := Option.map_eq_some_iff.mp hqty
  unfold Decimal.quoRem at hmx
  split at hmx
  · cases hmx
  rename_i hne
  cases hmx
  have hmx := (lt_min_iff.mp hpos).1
  -- a negative price would give a negative quantity
  have hprice : 0 < level.key := by
    rcases lt_or_gt_of_ne hne with hneg | hp
    · have := Rounding.truncate_nonpos (d := divisionPrecision) (div_neg_of_pos_of_neg hq hneg).le
      exact absurd hmx this.not_gt
    · exact hp
  have hle : level.key * min (Rounding.truncate divisionPrecision (order.quoteAmount / level.key))
      maker.amount ≤ order.quoteAmount := by
    have htr := Rounding.truncate_le (d := divisionPrecision) (div_pos hq hprice).le
    have hmin := (min_le_left _ maker.amount).trans htr
    rwa [le_div_iff₀ hprice, mul_comm] at hmin
  refine ⟨rfl, rfl, ?_, ?_, ?_⟩
  · exact sub_nonneg.mpr hle
  · simp [matchMarketBuy]
  · simpa using ⟨hprice, lt_min_iff.mp hpos⟩

theorem spending_rounds (hq : 0 ≤ order.quoteAmount)
    (h : Rounds matchMarketBuy book order book' now fills) : Spending order now fills := by
  induction h with
  | refl => exact .refl hq
  | next _ hact hround ih =>
    exact ih.trans (spending_round (by simpa [matchMarketBuy] using hact) hround)

theorem spending_slice (hside : order.side = .buy) (htype : order.orderType = .market)
    (hq : 0 ≤ order.quoteAmount) (book : OrderBook) (budget : Nat) :
    Spending order (matchSlice book order budget).order (matchSlice book order budget).fills := by
  simp only [matchSlice, kindOf, hside, htype, if_true]
  exact spending_rounds hq (matchMarketBuy.loop_spec _ book order).1

theorem spending_sweep (hside : order.side = .buy) (htype : order.orderType = .market)
    (hq : 0 ≤ order.quoteAmount) (slices : List (OrderBook × Nat)) :
    ∃ now, Spending order now (sweepFills order slices) := by
  induction slices generalizing order with
  | nil => exact ⟨order, .refl hq⟩
  | cons s slices ih =>
    have h := spending_slice hside htype hq s.1 s.2
    obtain ⟨now, hnow⟩ := ih (h.side.trans hside) (h.orderType.trans htype) h.nonneg
    exact ⟨now, h.trans hnow⟩

/-! ## What settlement charges -/

/-- Settlement charges every fresh trade of positive price and quantity its fee, and nothing
else about it matters for the debit. -/
theorem charge_trades (engineID seq : Nat) (order : Order)
    (h : ∀ f ∈ fills, 0 < f.price ∧ 0 < f.quantity) :
    ∃ rows, ((tradesOf engineID seq order fills).map TradeRow.ofTrade).mapM applyTradeFeePolicy =
      .ok rows ∧ (rows.map tradeQuoteAmount).sum = notional fills ∧
      (rows.map TradeRow.buyerFee).sum = tradingFeeAmount (notional fills) := by
  induction fills generalizing seq with
  | nil => exact ⟨[], rfl, rfl, by simp [tradingFeeAmount]⟩
  | cons f fs ih =>
    rw [List.forall_mem_cons] at h
    obtain ⟨rows, hrows, hquote, hfee⟩ := ih (seq + 1) h.2
    have hf :
        applyTradeFeePolicy (TradeRow.ofTrade (newTrade ⟨engineID, seq + 1⟩ order f)) = .ok _ :=
      applyTradeFeePolicy_of_new h.1.1 h.1.2 rfl
    refine ⟨withDefaultFees (TradeRow.ofTrade (newTrade ⟨engineID, seq + 1⟩ order f)) ::
      rows, ?_, ?_, ?_⟩
    · rw [tradesOf, List.map_cons, List.mapM_cons, hf, hrows]
      rfl
    · rw [List.map_cons, List.sum_cons, hquote, notional_cons]
      rfl
    · rw [List.map_cons, List.sum_cons, hfee, notional_cons, tradingFeeAmount,
        tradingFeeAmount, add_mul]
      rfl

/-- The debit of a sweep fits into the budget if the rounded quotient does. -/
theorem executable_fits_iff (hg : 0 < g) :
    quoteAmountWithTradingFee (marketBuyExecutableQuoteAmount g) ≤ g ↔
      Int.fract (g / (1 + defaultTradingFeeRate) * 10 ^ divisionPrecision) < 1 / 2 := by
  have hrate : 0 < 1 + defaultTradingFeeRate := by linarith [defaultTradingFeeRate_bounds.1]
  rw [quoteAmountWithTradingFee_eq, marketBuyExecutableQuoteAmount, if_pos hg, Decimal.div,
    ← le_div_iff₀ hrate, Rounding.roundHalfAway_le_iff (div_pos hg hrate).le]

theorem executable_nonneg (g : Decimal) : 0 ≤ marketBuyExecutableQuoteAmount g := by
  unfold marketBuyExecutableQuoteAmount
  split
  · rename_i hg
    have hrate : 0 < 1 + defaultTradingFeeRate := by linarith [defaultTradingFeeRate_bounds.1]
    exact Rounding.roundHalfAway_nonneg (div_pos hg hrate).le
  · exact le_refl _

/-- Every market buy of budget `g`, over every sequence of books and slices, is charged at most
`g` and passes the budget check of its completion. -/
def WithinBudget (g : Decimal) : Prop :=
  ∀ (input : CreateOrderInput) (row : OrderRow), parseOrderRequest input = .ok row →
    row.orderType = .market → row.side = .buy → row.quoteAmount = g →
    ∀ (id engineID seq : Nat) (slices : List (OrderBook × Nat)),
      let row := { row with id := id }
      let trades := tradesOf engineID seq (engineOrder row) (sweepFills (engineOrder row) slices)
      ∃ rows, (trades.map TradeRow.ofTrade).mapM applyTradeFeePolicy = .ok rows ∧
        (rows.map fun t => tradeQuoteAmount t + t.buyerFee).sum ≤ holdAmountFor row ∧
        ∃ rest, remainingMarketBuyQuote
          { row with filledQuoteAmount := (rows.map tradeQuoteAmount).sum }
          (rows.map TradeRow.buyerFee).sum =
            .ok rest

/-- A book with one ask at price 1 that holds more than the taker asks for. -/
def loneAsk (userID : Nat) (amount : Decimal) : OrderBook :=
  newOrderBook.addOrder
    { id := 1, userID := userID, amount := amount, quoteAmount := 0, coinSymbol := "BTC",
      side := .sell, filledAmount := 0, filledQuoteAmount := 0, orderType := .limit, price := 1 }

/-- At price 1 a market buy spends all it has: its quote amount has no digits to cut off. -/
theorem loneAsk_spends_all {amount : Decimal} (hside : order.side = .buy)
    (htype : order.orderType = .market)
    (hpos : 0 < order.quoteAmount) (hle : order.quoteAmount ≤ amount)
    (hdigits : Rounding.truncate divisionPrecision order.quoteAmount = order.quoteAmount) :
    sweepFills order [(loneAsk (order.userID + 1) amount, 0)] = [⟨1, 1, order.quoteAmount⟩] := by
  simp [sweepFills, matchSlice, kindOf, hside, htype, MatchKind.budget, OrderBook.resting, loneAsk,
    OrderBook.addOrder, halfOf, OrderBook.half, OrderBook.setHalf, newOrderBook, Buckets.push,
    matchMarketBuy,
    MatchKind.loop, hpos, MatchKind.round, MatchKind.best, Buckets.best, isSelfTrade,
    Decimal.quoRem, hdigits, hle]

theorem sum_debits (rows : List TradeRow) :
    (rows.map fun t => tradeQuoteAmount t + t.buyerFee).sum =
      (rows.map tradeQuoteAmount).sum + (rows.map TradeRow.buyerFee).sum :=
  List.sum_map_add

theorem remainingMarketBuyQuote_of_le {row : OrderRow} {fees : Decimal}
    (h : row.filledQuoteAmount + fees ≤ row.quoteAmount) :
    ∃ rest, remainingMarketBuyQuote row fees = .ok rest := by
  simp [remainingMarketBuyQuote, h.not_gt]

/-- A budget whose quotient is not rounded up covers every sweep. -/
theorem withinBudget_of_fits
    (hfit : quoteAmountWithTradingFee (marketBuyExecutableQuoteAmount g) ≤ g) : WithinBudget g := by
  rintro input row - htype hside rfl id engineID seq slices row'
  have hq : (engineOrder row').quoteAmount = marketBuyExecutableQuoteAmount row.quoteAmount := by
    simp [engineOrder, matchingQuoteAmountForOrder, row', htype, hside]
  have hpos : 0 ≤ (engineOrder row').quoteAmount := hq ▸ executable_nonneg row.quoteAmount
  obtain ⟨now, hnow⟩ := spending_sweep hside htype hpos slices
  obtain ⟨rows, hrows, hquotes, hfees⟩ :=
    charge_trades engineID seq (engineOrder row') hnow.positive
  have hspent : notional (sweepFills (engineOrder row') slices) ≤
      marketBuyExecutableQuoteAmount row.quoteAmount := by
    rw [hnow.spent, hq]
    exact sub_le_self _ hnow.nonneg
  have htotal : (rows.map tradeQuoteAmount).sum + (rows.map TradeRow.buyerFee).sum ≤
      row.quoteAmount := by
    rw [hquotes, hfees]
    have hfee := mul_le_mul_of_nonneg_right hspent defaultTradingFeeRate_bounds.1.le
    exact (add_le_add hspent hfee).trans hfit
  have hhold : holdAmountFor row' = row.quoteAmount := by simp [holdAmountFor, row', hside, htype]
  exact ⟨rows, hrows, by rw [sum_debits, hhold]; exact htotal, remainingMarketBuyQuote_of_le htotal⟩

/-- A quotient that is rounded up is spent in full against one large ask. -/
theorem not_withinBudget_of_over (hg : 0 < g)
    (hover : g < quoteAmountWithTradingFee (marketBuyExecutableQuoteAmount g)) :
    ¬ WithinBudget g := by
  intro h
  have hpos : 0 < marketBuyExecutableQuoteAmount g := by
    rcases (executable_nonneg g).lt_or_eq with hpos | hzero
    · exact hpos
    · rw [← hzero] at hover
      exact absurd hover (by simpa [quoteAmountWithTradingFee, tradingFeeAmount] using hg.le)
  let input : CreateOrderInput := ⟨1, "BTC", .buy, .market, none, none, some g⟩
  let row : OrderRow := ⟨0, 1, 0, g, "BTC", .buy, .pending, 0, 0, .market, 0⟩
  have hparse : parseOrderRequest input = .ok row := by
    simp [parseOrderRequest, parseOrderAmounts, parsePositiveDecimal, input, row, hg]
  let order := engineOrder { row with id := 2 }
  have hquote : order.quoteAmount = marketBuyExecutableQuoteAmount g := by
    simp [order, engineOrder, matchingQuoteAmountForOrder, row]
  have hdigits : Rounding.truncate divisionPrecision order.quoteAmount = order.quoteAmount := by
    rw [hquote, marketBuyExecutableQuoteAmount, if_pos hg]
    exact Rounding.truncate_roundHalfAway
      (div_pos hg (by linarith [defaultTradingFeeRate_bounds.1])).le
  have hpos' : 0 < order.quoteAmount := hquote ▸ hpos
  have hfills := loneAsk_spends_all rfl rfl hpos' le_rfl hdigits
  obtain ⟨rows, hrows, hsum, -⟩ :=
    h input row hparse rfl rfl rfl 2 0 0 [(loneAsk 2 order.quoteAmount, 0)]
  have hfill : ∀ f ∈ [(⟨1, 1, order.quoteAmount⟩ : Fill)], 0 < f.price ∧ 0 < f.quantity := by
    simpa using hpos'
  obtain ⟨rows', hrows', hq, hf⟩ := charge_trades 0 0 order hfill
  rw [← hfills] at hrows'
  cases hrows.symm.trans hrows'
  rw [sum_debits, hq, hf, notional_cons, notional_nil, add_zero, one_mul, hquote] at hsum
  exact hover.not_ge hsum

/-- The budget holds for every book and slicing exactly if dividing it by 1.0005 rounds down. -/
theorem withinBudget_iff (g : Decimal) (hg : 0 < g) :
    WithinBudget g ↔
      Int.fract (g / (1 + defaultTradingFeeRate) * 10 ^ divisionPrecision) < 1 / 2 := by
  rw [← executable_fits_iff hg]
  constructor
  · intro h
    by_contra hover
    exact not_withinBudget_of_over hg (not_le.mp hover) h
  · exact withinBudget_of_fits

theorem withinBudget_10005 : (0 : Decimal) < 10005 ∧ WithinBudget 10005 :=
  ⟨by decide, (withinBudget_iff 10005 (by decide)).mpr (by decide +kernel)⟩

/-- The row of a market buy of 10000. -/
def buyFor10000 : OrderRow := ⟨2, 1, 0, 10000, "BTC", .buy, .pending, 0, 0, .market, 0⟩

/-- Its one trade against an ask of 10000 at price 1. -/
def boughtFor10000 : TradeRow :=
  withDefaultFees
    (.ofTrade (newTrade ⟨1, 1⟩ (engineOrder buyFor10000) ⟨1, 1, 99950024987506246877 / 10 ^ 16⟩))

/-- 10000 / 1.0005 rounds up to 9995.0024987506246877; all of it is spent and with the fee it
is 4.385e-17 more than was held, which the completion refuses. -/
theorem buyFor10000_overspends :
    parseOrderRequest ⟨1, "BTC", .buy, .market, none, none, some 10000⟩ =
      .ok { buyFor10000 with id := 0 } ∧
    ((tradesOf 1 0 (engineOrder buyFor10000)
      (sweepFills (engineOrder buyFor10000) [(loneAsk 2 10000, 1)])).map TradeRow.ofTrade).mapM
        applyTradeFeePolicy = .ok [boughtFor10000] ∧
    tradeQuoteAmount boughtFor10000 + boughtFor10000.buyerFee - holdAmountFor buyFor10000 =
      4385 / 10 ^ 20 ∧
    (remainingMarketBuyQuote { buyFor10000 with
      filledQuoteAmount := tradeQuoteAmount boughtFor10000 }
      boughtFor10000.buyerFee).isOk = false := by
  refine ⟨?_, ?_, ?_, ?_⟩ <;> decide +kernel

end GoExchange.Service
