import GoExchange.LedgerSound
import GoExchange.Settlement

/-!
# The journal of a trade

A trade is paid out of the buyer's reservation: the seller gets the quote
amount less the fee, both fees go to the exchange, and what the reservation
has over the price comes back. The lines balance exactly when the reservation
covers the price.
-/
namespace GoExchange.Service

open Ledger Tally

variable {trade row : TradeRow} {buyOrder : OrderRow} {buyer seller : Nat}

/-! ## Amounts -/

/-- A trade with the default fees. -/
structure Charged (row : TradeRow) : Prop where
  coin : row.coinSymbol ≠ ""
  price : 0 < row.price
  quantity : 0 < row.quantity
  buyerFee : row.buyerFee = tradingFeeAmount (tradeQuoteAmount row)
  sellerFee : row.sellerFee = tradingFeeAmount (tradeQuoteAmount row)

theorem Charged.quote_pos (h : Charged row) : 0 < tradeQuoteAmount row := mul_pos h.price h.quantity

theorem Charged.fee_pos (h : Charged row) : 0 < tradingFeeAmount (tradeQuoteAmount row) :=
  mul_pos h.quote_pos defaultTradingFeeRate_bounds.1

theorem Charged.fee_lt (h : Charged row) :
    tradingFeeAmount (tradeQuoteAmount row) < tradeQuoteAmount row := by
  have := mul_lt_mul_of_pos_left defaultTradingFeeRate_bounds.2 h.quote_pos
  rwa [mul_one] at this

/-- What the reservation has over the price. -/
theorem Charged.refund (h : Charged row) (buyOrder : OrderRow) :
    reservedBuyDebitAmount buyOrder row - (tradeQuoteAmount row + row.buyerFee) =
      if buyOrder.orderType = .market then 0
      else (buyOrder.price - row.price) * row.quantity * (1 + defaultTradingFeeRate) := by
  rw [h.buyerFee]
  unfold reservedBuyDebitAmount
  split
  · exact sub_self _
  · rw [quoteAmountWithTradingFee_eq]
    unfold tradingFeeAmount tradeQuoteAmount
    ring

/-- The buyer's order allows the price. -/
def WithinLimit (buyOrder : OrderRow) (price : Decimal) : Prop :=
  buyOrder.orderType = .market ∨ price ≤ buyOrder.price

theorem Charged.refund_nonneg (h : Charged row) (hw : WithinLimit buyOrder row.price) :
    0 ≤ reservedBuyDebitAmount buyOrder row - (tradeQuoteAmount row + row.buyerFee) := by
  rw [h.refund]
  split
  · exact le_refl _
  · rename_i hlimit
    have hprice := sub_nonneg.mpr (hw.resolve_left hlimit)
    have hrate := defaultTradingFeeRate_bounds.1
    exact mul_nonneg (mul_nonneg hprice h.quantity.le) (by linarith)

theorem Charged.refund_neg (h : Charged row) (hw : ¬ WithinLimit buyOrder row.price) :
    reservedBuyDebitAmount buyOrder row - (tradeQuoteAmount row + row.buyerFee) < 0 := by
  obtain ⟨hlimit, hprice⟩ := not_or.mp hw
  rw [h.refund, if_neg hlimit]
  have hrate := defaultTradingFeeRate_bounds.1
  exact mul_neg_of_neg_of_pos (mul_neg_of_neg_of_pos (sub_neg.mpr (not_le.mp hprice)) h.quantity)
    (by linarith)

/-! ## Lines -/

theorem Charged.plan (h : Charged row) (buyOrder : OrderRow) (buyer seller : Nat) :
    planTradeSettlement row buyOrder buyer seller =
      .ok (tradePostings row buyer seller (reservedBuyDebitAmount buyOrder row)
        (tradeQuoteAmount row + row.buyerFee)
        (tradeQuoteAmount row - row.sellerFee), tradeQuoteAmount row + row.buyerFee) := by
  have hpos : 0 < tradeQuoteAmount row - row.sellerFee := by
    rw [h.sellerFee]
    exact sub_pos.mpr h.fee_lt
  have hnet : amountAfterFee (tradeQuoteAmount row) row.sellerFee "seller" =
      .ok (tradeQuoteAmount row - row.sellerFee) := by
    unfold amountAfterFee
    rw [if_neg (not_not.mpr h.quote_pos), if_neg (not_lt.mpr (h.sellerFee ▸ h.fee_pos.le)),
      if_neg (not_not.mpr hpos)]
  unfold planTradeSettlement
  simp only [hnet]
  rfl

/-- The lines add up to what the refund that is paid leaves over. -/
theorem sumAt_tradePostings (r e n : Decimal) (asset : String) :
    sumAt PostingInput.asset PostingInput.amount (tradePostings row buyer seller r e n) asset =
      if krwAssetSymbol = asset then n - r + max 0 (r - e) + max 0 (row.buyerFee + row.sellerFee)
        else 0 := by
  have hrefund : sumAt PostingInput.asset PostingInput.amount
      (if 0 < r - e then [⟨.userAvailable, some buyer, krwAssetSymbol, r - e⟩] else []) asset =
      if krwAssetSymbol = asset then max 0 (r - e) else 0 := by
    split
    · rw [sumAt_cons, sumAt_nil, add_zero, max_eq_right (le_of_lt ‹_›)]
    · rw [sumAt_nil, max_eq_left (not_lt.mp ‹_›), ite_self]
  have hfees : sumAt PostingInput.asset PostingInput.amount
      (if 0 < row.buyerFee + row.sellerFee then
        [⟨.feeIncome, none, krwAssetSymbol, row.buyerFee + row.sellerFee⟩]
        else []) asset = if krwAssetSymbol = asset then max 0 (row.buyerFee + row.sellerFee)
          else 0 := by
    split
    · rw [sumAt_cons, sumAt_nil, add_zero, max_eq_right (le_of_lt ‹_›)]
    · rw [sumAt_nil, max_eq_left (not_lt.mp ‹_›), ite_self]
  simp only [tradePostings, sumAt_append, hrefund, hfees, sumAt_cons, sumAt_nil]
  split <;> split <;> ring

/-- The owners of a trade's postings are those that their accounts ask for. -/
theorem tradePostings_owner {r e n : Decimal} :
    ∀ i ∈ tradePostings row buyer seller r e n, isSystemAccountType i.accountType =
      i.ownerUserID.isNone ∧
      (i.ownerUserID = none ∨ i.ownerUserID = some buyer ∨ i.ownerUserID = some seller) := by
  intro i hi
  unfold tradePostings at hi
  simp only [List.mem_append, List.mem_cons, List.not_mem_nil, or_false] at hi
  rcases hi with ((rfl | rfl | rfl | rfl) | hi) | hi
  · exact ⟨rfl, .inr (.inl rfl)⟩
  · exact ⟨rfl, .inr (.inr rfl)⟩
  · exact ⟨rfl, .inr (.inr rfl)⟩
  · exact ⟨rfl, .inr (.inl rfl)⟩
  · split at hi
    · cases List.mem_singleton.mp hi
      exact ⟨rfl, .inr (.inl rfl)⟩
    · cases hi
  · split at hi
    · cases List.mem_singleton.mp hi
      exact ⟨rfl, .inl rfl⟩
    · cases hi

/-- A line of a trade: a debit of a locked balance, or a credit elsewhere. -/
structure Line (row : TradeRow) (i : PostingInput) : Prop where
  asset : i.asset = krwAssetSymbol ∨ i.asset = row.coinSymbol
  owner : isSystemAccountType i.accountType = i.ownerUserID.isNone
  known : i.accountType ≠ .unknown
  amount : i.amount ≠ 0 ∧ (i.accountType ≠ .userLocked → 0 < i.amount)

/-- The lines that are paid out of a positive reservation. -/
theorem tradePostings_lines {r e n : Decimal} (hr : 0 < r) (hn : 0 < n) (hq : 0 < row.quantity) :
    ∀ i ∈ tradePostings row buyer seller r e n, Line row i := by
  intro i hi
  simp only [tradePostings, List.mem_append, List.mem_cons, List.not_mem_nil, or_false] at hi
  rcases hi with ((rfl | rfl | rfl | rfl) | hi) | hi
  · exact ⟨.inl rfl, rfl, by simp, neg_ne_zero.mpr hr.ne', by simp⟩
  · exact ⟨.inl rfl, rfl, by simp, hn.ne', fun _ => hn⟩
  · exact ⟨.inr rfl, rfl, by simp, neg_ne_zero.mpr hq.ne', by simp⟩
  · exact ⟨.inr rfl, rfl, by simp, hq.ne', fun _ => hq⟩
  · split at hi
    · cases List.mem_singleton.mp hi
      exact ⟨.inl rfl, rfl, by simp, ne_of_gt ‹_›, fun _ => ‹_›⟩
    · cases hi
  · split at hi
    · cases List.mem_singleton.mp hi
      exact ⟨.inl rfl, rfl, by simp, ne_of_gt ‹_›, fun _ => ‹_›⟩
    · cases hi

section Postings

/-- The lines of a plan that succeeds. -/
def linesOf (row : TradeRow) (buyOrder : OrderRow) (buyer seller : Nat) : List PostingInput :=
  tradePostings row buyer seller (reservedBuyDebitAmount buyOrder row)
    (tradeQuoteAmount row + row.buyerFee) (tradeQuoteAmount row - row.sellerFee)

/-- What the lines move of one user's asset, locked or not. -/
def ownedBy (postings : List PostingInput) (userID : Nat) (asset : String) : Decimal :=
  sumAt (fun i => (i.ownerUserID, i.asset)) PostingInput.amount postings (some userID, asset)

theorem Charged.reserved_pos (h : Charged row) (hw : WithinLimit buyOrder row.price) :
    0 < reservedBuyDebitAmount buyOrder row := by
  have hrefund := h.refund_nonneg hw
  have hfee := h.buyerFee ▸ h.fee_pos
  have hquote := h.quote_pos
  linarith

theorem Charged.net_pos (h : Charged row) : 0 < tradeQuoteAmount row - row.sellerFee := by
  rw [h.sellerFee]
  exact sub_pos.mpr h.fee_lt

theorem Charged.lines (h : Charged row) (hw : WithinLimit buyOrder row.price) :
    ∀ i ∈ linesOf row buyOrder buyer seller, Line row i :=
  tradePostings_lines (h.reserved_pos hw) h.net_pos h.quantity

theorem Charged.sum_eq (h : Charged row) (asset : String) :
    sumAt PostingInput.asset PostingInput.amount (linesOf row buyOrder buyer seller) asset =
      if krwAssetSymbol = asset then
        max 0 (reservedBuyDebitAmount buyOrder row - (tradeQuoteAmount row + row.buyerFee)) -
          (reservedBuyDebitAmount buyOrder row - (tradeQuoteAmount row + row.buyerFee))
      else 0 := by
  have hfees : 0 ≤ row.buyerFee + row.sellerFee := by
    rw [h.buyerFee, h.sellerFee]
    linarith [h.fee_pos]
  rw [linesOf, sumAt_tradePostings, max_eq_right hfees]
  split
  · ring
  · rfl

theorem Charged.balanced (h : Charged row) (hw : WithinLimit buyOrder row.price) (asset : String) :
    sumAt PostingInput.asset PostingInput.amount (linesOf row buyOrder buyer seller) asset = 0 := by
  rw [h.sum_eq, max_eq_right (h.refund_nonneg hw), sub_self, ite_self]

/-- Each hold pays its own part. -/
theorem linesOf_locked (h : buyer ≠ seller) :
    sumAt PostingInput.key PostingInput.amount (linesOf row buyOrder buyer seller)
      ⟨.userLocked, buyer, krwAssetSymbol⟩ =
        -reservedBuyDebitAmount buyOrder row ∧
      sumAt PostingInput.key PostingInput.amount (linesOf row buyOrder buyer seller)
        ⟨.userLocked, seller, row.coinSymbol⟩ = -row.quantity := by
  unfold linesOf tradePostings
  generalize reservedBuyDebitAmount buyOrder row - (tradeQuoteAmount row + row.buyerFee) = refund
  constructor <;>
    by_cases hr : 0 < refund <;> by_cases hf : 0 < row.buyerFee + row.sellerFee <;>
      simp [hr, hf, sumAt_cons, PostingInput.key, newAccountKey, h, h.symm]

theorem Charged.ownedBy_buyer (h : Charged row) (hw : WithinLimit buyOrder row.price)
    (hne : buyer ≠ seller) : ownedBy (linesOf row buyOrder buyer seller) buyer krwAssetSymbol =
      (if row.coinSymbol = krwAssetSymbol then row.quantity else 0) -
        (tradeQuoteAmount row + row.buyerFee) := by
  have hrefund := h.refund_nonneg hw
  unfold ownedBy linesOf tradePostings
  generalize reservedBuyDebitAmount buyOrder row = r at hrefund
  generalize tradeQuoteAmount row + row.buyerFee = e at hrefund
  have hpaid : sumAt (fun i => (i.ownerUserID, i.asset)) PostingInput.amount
      (if 0 < r - e then [⟨.userAvailable, some buyer, krwAssetSymbol, r - e⟩] else [])
      (some buyer, krwAssetSymbol) = r - e := by
    split
    · simp [sumAt_cons]
    · rw [sumAt_nil]
      exact le_antisymm hrefund (not_lt.mp ‹_›)
  have hfees : sumAt (fun i => (i.ownerUserID, i.asset)) PostingInput.amount
      (if 0 < row.buyerFee + row.sellerFee then
        [⟨.feeIncome, none, krwAssetSymbol, row.buyerFee + row.sellerFee⟩]
        else []) (some buyer, krwAssetSymbol) = 0 := by
    split <;> simp [sumAt_cons]
  simp only [sumAt_append, hpaid, hfees, sumAt_cons, sumAt_nil, Prod.mk.injEq, Option.some.injEq,
    hne.symm, true_and, false_and, if_true, if_false]
  ring

end Postings

/-! ## The plan -/

/-- The fees are still to be set, or they are the default ones, as an earlier attempt has stored
them. -/
def FeesDue (trade : TradeRow) : Prop :=
  trade.feeRate ≤ 0 ∨ (trade.buyerFee = tradingFeeAmount (tradeQuoteAmount trade) ∧
    trade.sellerFee = tradingFeeAmount (tradeQuoteAmount trade))

theorem applyTradeFeePolicy_charged (hp : 0 < trade.price) (hq : 0 < trade.quantity)
    (hcoin : trade.coinSymbol ≠ "")
    (hfees : FeesDue trade) : ∃ row, applyTradeFeePolicy trade = .ok row ∧ Charged row ∧
      row.toTrade = trade.toTrade := by
  have hrate := defaultTradingFeeRate_bounds
  unfold applyTradeFeePolicy
  rw [if_neg (by simp [hp, hq])]
  split
  · rename_i hset
    obtain ⟨hbuyer, hseller⟩ := hfees.resolve_left (not_le.mpr hset)
    exact ⟨trade, rfl, ⟨hcoin, hp, hq, hbuyer, hseller⟩, rfl⟩
  · rw [if_neg (by simp [hrate.1.le, hrate.2])]
    exact ⟨withDefaultFees trade, rfl, ⟨hcoin, hp, hq, rfl, rfl⟩, rfl⟩

/-- The hold of an order over this quantity: what a limit order reserves for it, or the cost of a
market buy. -/
def holdFor (buyOrder : OrderRow) (price quantity : Decimal) : Decimal :=
  if buyOrder.orderType = .market then quoteAmountWithTradingFee (price * quantity)
  else holdAmountFor { buyOrder with side := .buy, amount := quantity }

/-- A trade between two users whose price the buyer's order allows gets a journal that passes
validation. It balances, it has no empty line and no foreign owner, it takes from the holds what
they reserve for the quantity, and the buyer pays the price and the fee. Above a buyer's limit the
journal is rejected. -/
theorem tradePlan_exact (hp : 0 < trade.price) (hq : 0 < trade.quantity)
    (hcoin : trade.coinSymbol ≠ "")
    (hfees : FeesDue trade) (hne : buyer ≠ seller) (buyOrder : OrderRow) :
    ∃ row postings cost, applyTradeFeePolicy trade = .ok row ∧
      planTradeSettlement row buyOrder buyer seller = .ok (postings, cost) ∧
      (WithinLimit buyOrder trade.price →
        (∀ key referenceID, key ≠ "" →
          validateJournalInput ⟨.trade, key, .trade, referenceID, none, postings⟩ = .ok ()) ∧
        (∀ asset, sumAt PostingInput.asset PostingInput.amount postings asset = 0) ∧
        (∀ i ∈ postings, i.amount ≠ 0 ∧ isSystemAccountType i.accountType = i.ownerUserID.isNone ∧
          (i.ownerUserID = none ∨ i.ownerUserID = some buyer ∨ i.ownerUserID = some seller)) ∧
        sumAt PostingInput.key PostingInput.amount postings ⟨.userLocked, buyer, krwAssetSymbol⟩ =
          -holdFor buyOrder trade.price trade.quantity ∧
        sumAt PostingInput.key PostingInput.amount postings
          ⟨.userLocked, seller, trade.coinSymbol⟩ = -trade.quantity ∧
        cost = trade.price * trade.quantity + tradingFeeAmount (trade.price * trade.quantity) ∧
        ownedBy postings buyer krwAssetSymbol =
          (if trade.coinSymbol = krwAssetSymbol then trade.quantity else 0) - cost) ∧
      (¬ WithinLimit buyOrder trade.price → ∀ t key referenceID,
        ∃ e, record t ⟨.trade, key, .trade, referenceID, none, postings⟩ = .error e) := by
  obtain ⟨row, hrow, hcharged, hsame⟩ := applyTradeFeePolicy_charged hp hq hcoin hfees
  have hprice : row.price = trade.price := congrArg Trade.price hsame
  have hquantity : row.quantity = trade.quantity := congrArg Trade.quantity hsame
  have hsymbol : row.coinSymbol = trade.coinSymbol := congrArg Trade.coinSymbol hsame
  have hquote : tradeQuoteAmount row = trade.price * trade.quantity := by
    rw [tradeQuoteAmount, hprice, hquantity]
  refine ⟨row, linesOf row buyOrder buyer seller, _, hrow,
    hcharged.plan buyOrder buyer seller, ?_, ?_⟩
  · intro hw
    rw [← hprice] at hw
    have hlines : ∀ i ∈ linesOf row buyOrder buyer seller, Line row i := hcharged.lines hw
    refine ⟨fun key referenceID hkey => ?_, hcharged.balanced hw, fun i hi => ?_, ?_, ?_, ?_, ?_⟩
    · refine validateJournalInput_iff.mpr
        ⟨⟨hkey, by simp, by simp, by simp [linesOf, tradePostings], by simp⟩,
        fun i hi => ?_, hcharged.balanced hw⟩
      refine ⟨?_, (hlines i hi).amount.1, (hlines i hi).owner⟩
      rcases (hlines i hi).asset with ha | ha
      · rw [ha]
        decide
      · rw [ha]
        exact hcharged.coin
    · exact ⟨(hlines i hi).amount.1, tradePostings_owner i hi⟩
    · rw [(linesOf_locked hne).1, holdFor, reservedBuyDebitAmount, hquote, hquantity]
      split
      · rfl
      · rename_i hlimit
        simp [holdAmountFor, hlimit]
    · rw [← hsymbol, ← hquantity]
      exact (linesOf_locked hne).2
    · rw [hcharged.buyerFee, hquote]
    · rw [hcharged.ownedBy_buyer hw hne, hsymbol, hquantity]
  · intro hw t key referenceID
    rw [← hprice] at hw
    cases hr : record t ⟨.trade, key, .trade, referenceID, none,
      linesOf row buyOrder buyer seller⟩ with
    | error e => exact ⟨e, rfl⟩
    | ok r =>
      -- the missing refund is what the lines do not add up to
      obtain ⟨_, hvalid, -⟩ := Fallible.bind_eq_ok.mp hr
      have hsum := (validateJournalInput_iff.mp hvalid).2.2 krwAssetSymbol
      have hneg := hcharged.refund_neg hw
      rw [hcharged.sum_eq, if_pos rfl, max_eq_left hneg.le] at hsum
      linarith

/-- A limit buy at 100. -/
def buyAt100 : OrderRow := ⟨1, 1, 3, 0, "BTC", .buy, .pending, 0, 0, .limit, 100⟩

theorem tradePlan_exact_below_limit :
    ∃ row postings cost, applyTradeFeePolicy (.ofTrade ⟨⟨0, 1⟩, "BTC", 90, 2, 1, 2⟩) = .ok row ∧
      planTradeSettlement row buyAt100 1 2 = .ok (postings, cost) ∧
      ∀ asset, sumAt PostingInput.asset PostingInput.amount postings asset = 0 := by
  obtain ⟨row, postings, cost, hrow, hplan, hin, -⟩ :=
    @tradePlan_exact (.ofTrade ⟨⟨0, 1⟩, "BTC", 90, 2, 1, 2⟩) 1 2 (by decide +kernel)
      (by decide +kernel) (by decide) (.inl (le_refl _)) (by decide) buyAt100
  exact ⟨row, postings, cost, hrow, hplan, (hin (.inr (by decide +kernel))).2.1⟩

/-- A retried trade whose stored fees are those of another rate, here of 0.1%. -/
def tradeAtOtherRate : TradeRow :=
  { TradeRow.ofTrade ⟨⟨0, 1⟩, "BTC", 100, 1, 1, 2⟩ with
    feeRate := 1 / 1000, buyerFee := 1 / 10, buyerFeeAsset := "KRW", sellerFee := 1 / 10,
    sellerFeeAsset := "KRW" }

/-- The stored fees stay as they are, and the reservation at the default rate does not cover them.
-/
theorem tradePlan_at_other_rate :
    0 < tradeAtOtherRate.price ∧ 0 < tradeAtOtherRate.quantity ∧
    tradeAtOtherRate.price ≤ buyAt100.price ∧
      applyTradeFeePolicy tradeAtOtherRate = .ok tradeAtOtherRate ∧
      ∃ postings cost, planTradeSettlement tradeAtOtherRate buyAt100 1 2 = .ok (postings, cost) ∧
        ∃ e, validateJournalInput ⟨.trade, "trade:engine:0:1", .trade, 1, none, postings⟩ =
          .error e := by
  have hplan : (planTradeSettlement tradeAtOtherRate buyAt100 1 2).toOption.any (fun r =>
      (validateJournalInput ⟨.trade, "trade:engine:0:1", .trade, 1, none,
        r.1⟩).toOption.isNone) := by
    decide +kernel
  obtain ⟨⟨postings, cost⟩, hr, hnone⟩ := (Option.any_eq_true _ _).mp hplan
  refine ⟨by decide +kernel, by decide +kernel, by decide +kernel, ?_, postings, cost, ?_, ?_⟩
  · unfold applyTradeFeePolicy
    rw [if_neg (by decide +kernel), if_pos (by decide +kernel)]
  · cases hp : planTradeSettlement tradeAtOtherRate buyAt100 1 2 with
    | error e => simp [hp, Except.toOption] at hr
    | ok x => simpa [hp, Except.toOption] using hr
  · cases hv : validateJournalInput ⟨.trade, "trade:engine:0:1", .trade, 1, none, postings⟩ with
    | error e => exact ⟨e, rfl⟩
    | ok x => simp [hv, Except.toOption] at hnone

end GoExchange.Service
